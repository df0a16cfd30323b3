/-!
The kinds of query operations.

Every node of a query has a kind.  The kinds are listed in the order in which the catalog shows
them, which groups related operations and is not the order of their numbers on the wire.
-/

namespace Reql

inductive Kind
  -- core data
  | datum | makeArray | makeObj
  -- variables and functions
  | var | javascript | uuid | http | error | implicitVar
  -- selection
  | db | table | get | getAll
  -- comparison
  | eq | ne | lt | le | gt | ge | not
  -- math
  | add | sub | mul | div | mod | floor | ceil | round
  -- arrays and sets
  | append | prepend | difference | setInsert | setIntersection | setUnion | setDifference
  -- sequences
  | slice | skip | limit | offsetsOf | contains
  -- objects
  | getField | keys | values | object | hasFields | withFields | pluck | without | merge
  -- transformations
  | between | reduce | map | fold | filter | concatMap | orderBy | distinct | count | isEmpty
  | union | nth | bracket | innerJoin | outerJoin | eqJoin | zip | range
  -- array mutation
  | insertAt | deleteAt | changeAt | spliceAt
  -- types
  | coerceTo | typeOf
  -- writes
  | update | delete | replace | insert
  -- administration
  | dbCreate | dbDrop | dbList | tableCreate | tableDrop | tableList | config | status | wait
  | reconfigure | rebalance | sync | grant
  -- secondary indexes
  | indexCreate | indexDrop | indexList | indexStatus | indexWait | indexRename | setWriteHook
  | getWriteHook
  -- control flow
  | funcall | branch | or | and | forEach | func | asc | desc | info | matches | upcase | downcase
  | sample | default | json | toJsonString
  -- time
  | iso8601 | toIso8601 | epochTime | toEpochTime | now | inTimezone | during | date | timeOfDay
  | timezone | year | month | day | dayOfWeek | dayOfYear | hours | minutes | seconds | time
  | monday | tuesday | wednesday | thursday | friday | saturday | sunday | january | february
  | march | april | may | june | july | august | september | october | november | december
  -- misc
  | literal | group | sum | avg | min | max | split | ungroup | random | changes | args | binary
  | minval | maxval
  -- geospatial
  | geojson | toGeojson | point | line | polygon | distance | intersects | includes | circle
  | getIntersecting | fill | getNearest | polygonSub
  deriving DecidableEq, Inhabited

namespace Kind

def all : List Kind :=
   [.datum, .makeArray, .makeObj,
    .var, .javascript, .uuid, .http, .error, .implicitVar,
    .db, .table, .get, .getAll,
    .eq, .ne, .lt, .le, .gt, .ge, .not,
    .add, .sub, .mul, .div, .mod, .floor, .ceil, .round,
    .append, .prepend, .difference, .setInsert, .setIntersection, .setUnion, .setDifference,
    .slice, .skip, .limit, .offsetsOf, .contains,
    .getField, .keys, .values, .object, .hasFields, .withFields, .pluck, .without, .merge,
    .between, .reduce, .map, .fold, .filter, .concatMap, .orderBy, .distinct, .count, .isEmpty,
    .union, .nth, .bracket, .innerJoin, .outerJoin, .eqJoin, .zip, .range,
    .insertAt, .deleteAt, .changeAt, .spliceAt,
    .coerceTo, .typeOf,
    .update, .delete, .replace, .insert,
    .dbCreate, .dbDrop, .dbList, .tableCreate, .tableDrop, .tableList, .config, .status, .wait,
    .reconfigure, .rebalance, .sync, .grant,
    .indexCreate, .indexDrop, .indexList, .indexStatus, .indexWait, .indexRename, .setWriteHook,
    .getWriteHook,
    .funcall, .branch, .or, .and, .forEach, .func, .asc, .desc, .info, .matches, .upcase,
    .downcase, .sample, .default, .json, .toJsonString,
    .iso8601, .toIso8601, .epochTime, .toEpochTime, .now, .inTimezone, .during, .date,
    .timeOfDay, .timezone, .year, .month, .day, .dayOfWeek, .dayOfYear, .hours, .minutes,
    .seconds, .time, .monday, .tuesday, .wednesday, .thursday, .friday, .saturday, .sunday,
    .january, .february, .march, .april, .may, .june, .july, .august, .september, .october,
    .november, .december,
    .literal, .group, .sum, .avg, .min, .max, .split, .ungroup, .random, .changes, .args,
    .binary, .minval, .maxval,
    .geojson, .toGeojson, .point, .line, .polygon, .distance, .intersects, .includes, .circle,
    .getIntersecting, .fill, .getNearest, .polygonSub]

theorem mem_all (k : Kind) : k ∈ all := by
  cases k <;> decide

end Kind
end Reql
