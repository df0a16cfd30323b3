import Reql.Term.Function

/-!
The named operations of the query builder.

A method is applied to a receiver, a starter begins a query.  Both are known by the name of their
kind in small letters, and differ in how many arguments they take.
-/

namespace Reql

inductive Takes
  | nothing
  | one
  | many
  deriving DecidableEq

namespace Takes

def accepts : Takes → Nat → Bool
  | .nothing, n => n == 0
  | .one, n => n == 1
  | .many, _ => true

end Takes

structure Operation where
  kind : Kind
  takes : Takes
  deriving DecidableEq

namespace Operation

def name (o : Operation) : String := o.kind.name.toLower

def methods : List Operation :=
  [⟨.table, .one⟩, ⟨.get, .one⟩, ⟨.getAll, .many⟩, ⟨.filter, .one⟩, ⟨.map, .one⟩,
    ⟨.orderBy, .many⟩, ⟨.limit, .one⟩, ⟨.skip, .one⟩, ⟨.count, .nothing⟩, ⟨.difference, .one⟩,
    ⟨.pluck, .many⟩, ⟨.getField, .one⟩, ⟨.default, .one⟩, ⟨.insert, .one⟩, ⟨.update, .one⟩,
    ⟨.delete, .nothing⟩, ⟨.eq, .one⟩, ⟨.ne, .one⟩, ⟨.lt, .one⟩, ⟨.le, .one⟩, ⟨.gt, .one⟩,
    ⟨.ge, .one⟩, ⟨.add, .one⟩, ⟨.sub, .one⟩, ⟨.mul, .one⟩, ⟨.div, .one⟩, ⟨.and, .one⟩,
    ⟨.or, .one⟩, ⟨.not, .nothing⟩]

def starters : List Operation :=
  [⟨.db, .one⟩, ⟨.table, .one⟩, ⟨.dbList, .nothing⟩, ⟨.dbCreate, .one⟩, ⟨.dbDrop, .one⟩,
    ⟨.tableList, .nothing⟩, ⟨.args, .one⟩, ⟨.asc, .one⟩, ⟨.desc, .one⟩, ⟨.branch, .many⟩,
    ⟨.now, .nothing⟩, ⟨.uuid, .nothing⟩, ⟨.error, .one⟩, ⟨.literal, .one⟩, ⟨.range, .many⟩]

def method? (s : String) : Option Operation := methods.find? fun o => o.name == s

def starter? (s : String) : Option Operation := starters.find? fun o => o.name == s

/-- The argument of `o` is a function, so that the implicit variable may be used in it. -/
def takesFunction (o : Operation) : Bool :=
  match o.kind with
  | .filter => true
  | .map => true
  | .update => true
  | _ => false

def start (o : Operation) (args : List Arg) : Except Error Term :=
  Term.make o.kind none (.ofList args) {}

/-- `o.apply receiver` wraps the argument of an operation that `takesFunction`.  Only `filter` has
options. -/
def apply (o : Operation) (receiver : Term) (args : List Arg) (options : Options)
    (ids : IdSupply) : Except Error Term × IdSupply :=
  match o.takesFunction, args with
  | true, [a] =>
      receiver.chainWrapped o.kind a (if o.kind = .filter then options else {}) ids
  | _, args => (receiver.chain o.kind (.ofList args) {}, ids)

end Operation
end Reql
