import Reql.Kind.Basic
import Reql.Kind.Signature

/-!
The catalog: number, name and signature of every kind.

The number is what stands in the first place of an encoded node.  The name is the one of the
protocol, in capitals; a name in mixed case is derived from it by the rule of `mixedName`.
-/

namespace Reql.Kind

structure Entry where
  tag : Nat
  name : String
  arity : Arity
  options : OptionRule

def entry : Kind → Entry
  -- core data
  | .datum => ⟨1, "DATUM", .exactly 0, .noOptions⟩
  | .makeArray => ⟨2, "MAKE_ARRAY", .atLeast 0, .noOptions⟩
  | .makeObj => ⟨3, "MAKE_OBJ", .exactly 0, .any⟩
  -- variables and functions
  | .var => ⟨10, "VAR", .exactly 1, .noOptions⟩
  | .javascript => ⟨11, "JAVASCRIPT", .exactly 1, .only ["timeout"]⟩
  | .uuid => ⟨169, "UUID", .between 0 1, .noOptions⟩
  | .http => ⟨153, "HTTP", .exactly 1, .only [
      "data", "timeout", "method", "params", "header", "attempts", "redirects", "verify", "page",
      "page_limit", "auth", "result_format"]⟩
  | .error => ⟨12, "ERROR", .between 0 1, .noOptions⟩
  | .implicitVar => ⟨13, "IMPLICIT_VAR", .exactly 0, .noOptions⟩
  -- selection
  | .db => ⟨14, "DB", .exactly 1, .noOptions⟩
  | .table => ⟨15, "TABLE", .between 1 2, .only ["read_mode", "use_outdated", "identifier_format"]⟩
  | .get => ⟨16, "GET", .exactly 2, .noOptions⟩
  | .getAll => ⟨78, "GET_ALL", .atLeast 1, .only ["index"]⟩
  -- comparison
  | .eq => ⟨17, "EQ", .atLeast 1, .noOptions⟩
  | .ne => ⟨18, "NE", .atLeast 1, .noOptions⟩
  | .lt => ⟨19, "LT", .atLeast 1, .noOptions⟩
  | .le => ⟨20, "LE", .atLeast 1, .noOptions⟩
  | .gt => ⟨21, "GT", .atLeast 1, .noOptions⟩
  | .ge => ⟨22, "GE", .atLeast 1, .noOptions⟩
  | .not => ⟨23, "NOT", .exactly 1, .noOptions⟩
  -- math
  | .add => ⟨24, "ADD", .atLeast 1, .noOptions⟩
  | .sub => ⟨25, "SUB", .atLeast 1, .noOptions⟩
  | .mul => ⟨26, "MUL", .atLeast 1, .noOptions⟩
  | .div => ⟨27, "DIV", .atLeast 1, .noOptions⟩
  | .mod => ⟨28, "MOD", .exactly 2, .noOptions⟩
  | .floor => ⟨183, "FLOOR", .exactly 1, .noOptions⟩
  | .ceil => ⟨184, "CEIL", .exactly 1, .noOptions⟩
  | .round => ⟨185, "ROUND", .exactly 1, .noOptions⟩
  -- arrays and sets
  | .append => ⟨29, "APPEND", .exactly 2, .noOptions⟩
  | .prepend => ⟨80, "PREPEND", .exactly 2, .noOptions⟩
  | .difference => ⟨95, "DIFFERENCE", .exactly 2, .noOptions⟩
  | .setInsert => ⟨88, "SET_INSERT", .exactly 2, .noOptions⟩
  | .setIntersection => ⟨89, "SET_INTERSECTION", .exactly 2, .noOptions⟩
  | .setUnion => ⟨90, "SET_UNION", .exactly 2, .noOptions⟩
  | .setDifference => ⟨91, "SET_DIFFERENCE", .exactly 2, .noOptions⟩
  -- sequences
  | .slice => ⟨30, "SLICE", .between 2 3, .only ["left_bound", "right_bound"]⟩
  | .skip => ⟨70, "SKIP", .exactly 2, .noOptions⟩
  | .limit => ⟨71, "LIMIT", .exactly 2, .noOptions⟩
  | .offsetsOf => ⟨87, "OFFSETS_OF", .exactly 2, .noOptions⟩
  | .contains => ⟨93, "CONTAINS", .atLeast 1, .noOptions⟩
  -- objects
  | .getField => ⟨31, "GET_FIELD", .exactly 2, .noOptions⟩
  | .keys => ⟨94, "KEYS", .exactly 1, .noOptions⟩
  | .values => ⟨186, "VALUES", .exactly 1, .noOptions⟩
  | .object => ⟨143, "OBJECT", .atLeast 0, .noOptions⟩
  | .hasFields => ⟨32, "HAS_FIELDS", .atLeast 1, .noOptions⟩
  | .withFields => ⟨96, "WITH_FIELDS", .atLeast 1, .noOptions⟩
  | .pluck => ⟨33, "PLUCK", .atLeast 1, .noOptions⟩
  | .without => ⟨34, "WITHOUT", .atLeast 1, .noOptions⟩
  | .merge => ⟨35, "MERGE", .atLeast 1, .noOptions⟩
  -- transformations
  | .between => ⟨182, "BETWEEN", .exactly 3, .only ["index", "left_bound", "right_bound"]⟩
  | .reduce => ⟨37, "REDUCE", .exactly 2, .noOptions⟩
  | .map => ⟨38, "MAP", .atLeast 2, .noOptions⟩
  | .fold => ⟨187, "FOLD", .exactly 3, .only ["emit", "final_emit"]⟩
  | .filter => ⟨39, "FILTER", .exactly 2, .only ["default"]⟩
  | .concatMap => ⟨40, "CONCAT_MAP", .exactly 2, .noOptions⟩
  | .orderBy => ⟨41, "ORDER_BY", .atLeast 1, .only ["index"]⟩
  | .distinct => ⟨42, "DISTINCT", .exactly 1, .only ["index"]⟩
  | .count => ⟨43, "COUNT", .between 1 2, .noOptions⟩
  | .isEmpty => ⟨86, "IS_EMPTY", .exactly 1, .noOptions⟩
  | .union => ⟨44, "UNION", .atLeast 0, .only ["interleave"]⟩
  | .nth => ⟨45, "NTH", .exactly 2, .noOptions⟩
  | .bracket => ⟨170, "BRACKET", .exactly 2, .noOptions⟩
  | .innerJoin => ⟨48, "INNER_JOIN", .exactly 3, .noOptions⟩
  | .outerJoin => ⟨49, "OUTER_JOIN", .exactly 3, .noOptions⟩
  | .eqJoin => ⟨50, "EQ_JOIN", .exactly 3, .only ["index", "ordered"]⟩
  | .zip => ⟨72, "ZIP", .exactly 1, .noOptions⟩
  | .range => ⟨173, "RANGE", .between 0 2, .noOptions⟩
  -- array mutation
  | .insertAt => ⟨82, "INSERT_AT", .exactly 3, .noOptions⟩
  | .deleteAt => ⟨83, "DELETE_AT", .between 2 3, .noOptions⟩
  | .changeAt => ⟨84, "CHANGE_AT", .exactly 3, .noOptions⟩
  | .spliceAt => ⟨85, "SPLICE_AT", .exactly 3, .noOptions⟩
  -- types
  | .coerceTo => ⟨51, "COERCE_TO", .exactly 2, .noOptions⟩
  | .typeOf => ⟨52, "TYPE_OF", .exactly 1, .noOptions⟩
  -- writes
  | .update => ⟨53, "UPDATE", .exactly 2, .only [
      "non_atomic", "durability", "return_changes", "ignore_write_hook"]⟩
  | .delete => ⟨54, "DELETE", .exactly 1, .only [
      "durability", "return_changes", "ignore_write_hook"]⟩
  | .replace => ⟨55, "REPLACE", .exactly 2, .only [
      "non_atomic", "durability", "return_changes", "ignore_write_hook"]⟩
  | .insert => ⟨56, "INSERT", .exactly 2, .only [
      "conflict", "durability", "return_changes", "ignore_write_hook"]⟩
  -- administration
  | .dbCreate => ⟨57, "DB_CREATE", .exactly 1, .noOptions⟩
  | .dbDrop => ⟨58, "DB_DROP", .exactly 1, .noOptions⟩
  | .dbList => ⟨59, "DB_LIST", .exactly 0, .noOptions⟩
  | .tableCreate => ⟨60, "TABLE_CREATE", .between 1 2, .only [
      "primary_key", "shards", "replicas", "primary_replica_tag", "nonvoting_replica_tags",
      "durability"]⟩
  | .tableDrop => ⟨61, "TABLE_DROP", .between 1 2, .noOptions⟩
  | .tableList => ⟨62, "TABLE_LIST", .between 0 1, .noOptions⟩
  | .config => ⟨174, "CONFIG", .exactly 1, .noOptions⟩
  | .status => ⟨175, "STATUS", .exactly 1, .noOptions⟩
  | .wait => ⟨177, "WAIT", .between 0 1, .only ["wait_for", "timeout"]⟩
  | .reconfigure => ⟨176, "RECONFIGURE", .exactly 1, .only [
      "shards", "replicas", "primary_replica_tag", "dry_run", "nonvoting_replica_tags",
      "emergency_repair"]⟩
  | .rebalance => ⟨179, "REBALANCE", .exactly 1, .noOptions⟩
  | .sync => ⟨138, "SYNC", .exactly 1, .noOptions⟩
  | .grant => ⟨188, "GRANT", .between 2 3, .noOptions⟩
  -- secondary indexes
  | .indexCreate => ⟨75, "INDEX_CREATE", .between 2 3, .only ["multi", "geo"]⟩
  | .indexDrop => ⟨76, "INDEX_DROP", .exactly 2, .noOptions⟩
  | .indexList => ⟨77, "INDEX_LIST", .exactly 1, .noOptions⟩
  | .indexStatus => ⟨139, "INDEX_STATUS", .atLeast 1, .noOptions⟩
  | .indexWait => ⟨140, "INDEX_WAIT", .atLeast 1, .noOptions⟩
  | .indexRename => ⟨156, "INDEX_RENAME", .exactly 3, .only ["overwrite"]⟩
  | .setWriteHook => ⟨189, "SET_WRITE_HOOK", .exactly 2, .noOptions⟩
  | .getWriteHook => ⟨190, "GET_WRITE_HOOK", .exactly 1, .noOptions⟩
  -- control flow
  | .funcall => ⟨64, "FUNCALL", .atLeast 1, .noOptions⟩
  | .branch => ⟨65, "BRANCH", .atLeast 3, .noOptions⟩
  | .or => ⟨66, "OR", .atLeast 0, .noOptions⟩
  | .and => ⟨67, "AND", .atLeast 0, .noOptions⟩
  | .forEach => ⟨68, "FOR_EACH", .exactly 2, .noOptions⟩
  | .func => ⟨69, "FUNC", .exactly 2, .noOptions⟩
  | .asc => ⟨73, "ASC", .exactly 1, .noOptions⟩
  | .desc => ⟨74, "DESC", .exactly 1, .noOptions⟩
  | .info => ⟨79, "INFO", .exactly 1, .noOptions⟩
  | .matches => ⟨97, "MATCH", .exactly 2, .noOptions⟩
  | .upcase => ⟨141, "UPCASE", .exactly 1, .noOptions⟩
  | .downcase => ⟨142, "DOWNCASE", .exactly 1, .noOptions⟩
  | .sample => ⟨81, "SAMPLE", .exactly 2, .noOptions⟩
  | .default => ⟨92, "DEFAULT", .exactly 2, .noOptions⟩
  | .json => ⟨98, "JSON", .exactly 1, .noOptions⟩
  | .toJsonString => ⟨172, "TO_JSON_STRING", .exactly 1, .noOptions⟩
  -- time
  | .iso8601 => ⟨99, "ISO8601", .exactly 1, .only ["default_timezone"]⟩
  | .toIso8601 => ⟨100, "TO_ISO8601", .exactly 1, .noOptions⟩
  | .epochTime => ⟨101, "EPOCH_TIME", .exactly 1, .noOptions⟩
  | .toEpochTime => ⟨102, "TO_EPOCH_TIME", .exactly 1, .noOptions⟩
  | .now => ⟨103, "NOW", .exactly 0, .noOptions⟩
  | .inTimezone => ⟨104, "IN_TIMEZONE", .exactly 2, .noOptions⟩
  | .during => ⟨105, "DURING", .exactly 3, .only ["left_bound", "right_bound"]⟩
  | .date => ⟨106, "DATE", .exactly 1, .noOptions⟩
  | .timeOfDay => ⟨126, "TIME_OF_DAY", .exactly 1, .noOptions⟩
  | .timezone => ⟨127, "TIMEZONE", .exactly 1, .noOptions⟩
  | .year => ⟨128, "YEAR", .exactly 1, .noOptions⟩
  | .month => ⟨129, "MONTH", .exactly 1, .noOptions⟩
  | .day => ⟨130, "DAY", .exactly 1, .noOptions⟩
  | .dayOfWeek => ⟨131, "DAY_OF_WEEK", .exactly 1, .noOptions⟩
  | .dayOfYear => ⟨132, "DAY_OF_YEAR", .exactly 1, .noOptions⟩
  | .hours => ⟨133, "HOURS", .exactly 1, .noOptions⟩
  | .minutes => ⟨134, "MINUTES", .exactly 1, .noOptions⟩
  | .seconds => ⟨135, "SECONDS", .exactly 1, .noOptions⟩
  | .time => ⟨136, "TIME", .between 4 7, .noOptions⟩
  | .monday => ⟨107, "MONDAY", .exactly 0, .noOptions⟩
  | .tuesday => ⟨108, "TUESDAY", .exactly 0, .noOptions⟩
  | .wednesday => ⟨109, "WEDNESDAY", .exactly 0, .noOptions⟩
  | .thursday => ⟨110, "THURSDAY", .exactly 0, .noOptions⟩
  | .friday => ⟨111, "FRIDAY", .exactly 0, .noOptions⟩
  | .saturday => ⟨112, "SATURDAY", .exactly 0, .noOptions⟩
  | .sunday => ⟨113, "SUNDAY", .exactly 0, .noOptions⟩
  | .january => ⟨114, "JANUARY", .exactly 0, .noOptions⟩
  | .february => ⟨115, "FEBRUARY", .exactly 0, .noOptions⟩
  | .march => ⟨116, "MARCH", .exactly 0, .noOptions⟩
  | .april => ⟨117, "APRIL", .exactly 0, .noOptions⟩
  | .may => ⟨118, "MAY", .exactly 0, .noOptions⟩
  | .june => ⟨119, "JUNE", .exactly 0, .noOptions⟩
  | .july => ⟨120, "JULY", .exactly 0, .noOptions⟩
  | .august => ⟨121, "AUGUST", .exactly 0, .noOptions⟩
  | .september => ⟨122, "SEPTEMBER", .exactly 0, .noOptions⟩
  | .october => ⟨123, "OCTOBER", .exactly 0, .noOptions⟩
  | .november => ⟨124, "NOVEMBER", .exactly 0, .noOptions⟩
  | .december => ⟨125, "DECEMBER", .exactly 0, .noOptions⟩
  -- misc
  | .literal => ⟨137, "LITERAL", .between 0 1, .noOptions⟩
  | .group => ⟨144, "GROUP", .atLeast 1, .only ["index", "multi"]⟩
  | .sum => ⟨145, "SUM", .between 1 2, .noOptions⟩
  | .avg => ⟨146, "AVG", .between 1 2, .noOptions⟩
  | .min => ⟨147, "MIN", .between 1 2, .only ["index"]⟩
  | .max => ⟨148, "MAX", .between 1 2, .only ["index"]⟩
  | .split => ⟨149, "SPLIT", .between 1 3, .noOptions⟩
  | .ungroup => ⟨150, "UNGROUP", .exactly 1, .noOptions⟩
  | .random => ⟨151, "RANDOM", .between 0 2, .only ["float"]⟩
  | .changes => ⟨152, "CHANGES", .exactly 1, .only [
      "squash", "changefeed_queue_size", "include_initial", "include_states", "include_offsets",
      "include_types"]⟩
  | .args => ⟨154, "ARGS", .exactly 1, .noOptions⟩
  | .binary => ⟨155, "BINARY", .exactly 1, .noOptions⟩
  | .minval => ⟨180, "MINVAL", .exactly 0, .noOptions⟩
  | .maxval => ⟨181, "MAXVAL", .exactly 0, .noOptions⟩
  -- geospatial
  | .geojson => ⟨157, "GEOJSON", .exactly 1, .noOptions⟩
  | .toGeojson => ⟨158, "TO_GEOJSON", .exactly 1, .noOptions⟩
  | .point => ⟨159, "POINT", .exactly 2, .noOptions⟩
  | .line => ⟨160, "LINE", .atLeast 2, .noOptions⟩
  | .polygon => ⟨161, "POLYGON", .atLeast 3, .noOptions⟩
  | .distance => ⟨162, "DISTANCE", .exactly 2, .only ["geo_system", "unit"]⟩
  | .intersects => ⟨163, "INTERSECTS", .exactly 2, .noOptions⟩
  | .includes => ⟨164, "INCLUDES", .exactly 2, .noOptions⟩
  | .circle => ⟨165, "CIRCLE", .exactly 2, .only ["num_vertices", "geo_system", "unit", "fill"]⟩
  | .getIntersecting => ⟨166, "GET_INTERSECTING", .exactly 2, .only ["index"]⟩
  | .fill => ⟨167, "FILL", .exactly 1, .noOptions⟩
  | .getNearest => ⟨168, "GET_NEAREST", .exactly 2, .only [
      "index", "max_results", "max_dist", "geo_system", "unit"]⟩
  | .polygonSub => ⟨171, "POLYGON_SUB", .exactly 2, .noOptions⟩

def tag (k : Kind) : Nat := k.entry.tag

def name (k : Kind) : String := k.entry.name

def signature (k : Kind) : Signature := ⟨k.entry.arity, k.entry.options⟩

def ofTag? (n : Nat) : Option Kind := all.find? fun k => k.tag == n

def ofName? (s : String) : Option Kind := all.find? fun k => k.name == s

/-- `mixCase` drops each underscore and keeps only the first letter of each word in capitals. -/
def mixCase (startOfWord : Bool) : List Char → List Char
  | [] => []
  | c :: rest =>
      if c = '_' then mixCase true rest
      else (if startOfWord then c else c.toLower) :: mixCase false rest

def mixedName (k : Kind) : String := String.ofList (mixCase true k.name.toList)

def ofMixedName? (s : String) : Option Kind := all.find? fun k => k.mixedName == s

def sortByTag (kinds : List Kind) : List Kind := kinds.mergeSort fun a b => a.tag ≤ b.tag

theorem tag_lt (k : Kind) : k.tag < 256 := by
  cases k <;> decide

end Reql.Kind
