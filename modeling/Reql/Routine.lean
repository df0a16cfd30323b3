import Reql.Method

/-!
Programs as trees of the steps that take identifiers.

Identifiers come from two supplies, one that belongs to the program and one that is shared. Only
three things take them: a function takes those of its parameters when its body is entered, whether
or not there will be a function; a term that is wrapped takes one; and so does a method whose
argument it wraps, even if the method is refused then. A `Routine` is a program that does these
three things and is free in everything else: what it does next is any function of the answers so
far, so it may make terms in other ways, look into them, and go on after a failure. Identifiers that
`Routine.run` has taken are not given back when the routine fails.
-/

namespace Reql

inductive Source
  | own
  | shared
  deriving DecidableEq

structure Supplies where
  own : IdSupply := {}
  shared : IdSupply := {}
  deriving DecidableEq, Inhabited

namespace Supplies

def get (s : Supplies) : Source → IdSupply
  | .own => s.own
  | .shared => s.shared

def set (s : Supplies) (source : Source) (ids : IdSupply) : Supplies :=
  match source with
  | .own => { s with own := ids }
  | .shared => { s with shared := ids }

def take (s : Supplies) (source : Source) : UInt64 × Supplies :=
  let (id, ids) := (s.get source).take
  (id, s.set source ids)

end Supplies

inductive Program.Failure
  | unbound (name : String)
  | noParameter
  | error (e : Error)

open Program (Failure)

inductive Routine : Type → Type 1
  | done {α : Type} (answer : Except Failure α) : Routine α
  | wrap {α : Type} (source : Source) (t : Term) (next : Term → Routine α) : Routine α
  | apply {α : Type} (source : Source) (o : Operation) (receiver : Term) (args : List Arg)
      (options : Options) (next : Except Error Term → Routine α) : Routine α
  /-- A function with `count` parameters, and a `body` that is given their variables. -/
  | function {α : Type} (source : Source) (count : Nat) (body : List Term → Routine Term)
      (next : Except Failure Term → Routine α) : Routine α

namespace Routine

variable {α β : Type}

def run {α : Type} : Routine α → Supplies → Except Failure α × Supplies
  | .done answer, s => (answer, s)
  | .wrap source t next, s =>
      let (u, ids) := t.wrap (s.get source)
      (next u).run (s.set source ids)
  | .apply source o receiver args options next, s =>
      let (answer, ids) := o.apply receiver args options (s.get source)
      (next answer).run (s.set source ids)
  | .function source count body next, s =>
      let ((ids, vars), rest) := Term.openFunction count (s.get source)
      let (answer, s) := (body vars).run (s.set source rest)
      (next (Term.closeFunction .error ids answer)).run s

/-- `b.andThen f` goes on with the answer of `b`, be it a failure. -/
def andThen (f : Except Failure α → Routine β) : Routine α → Routine β
  | .done answer => f answer
  | .wrap source t next => .wrap source t fun u => (next u).andThen f
  | .apply source o receiver args options next =>
      .apply source o receiver args options fun answer => (next answer).andThen f
  | .function source count body next =>
      .function source count body fun answer => (next answer).andThen f

def bind (b : Routine α) (f : α → Routine β) : Routine β :=
  b.andThen fun
    | .ok a => f a
    | .error e => .done (.error e)

instance : Monad Routine where
  pure a := .done (.ok a)
  bind := Routine.bind

def fail (e : Failure) : Routine α := .done (.error e)

/-- `settle result` takes no identifiers. -/
def settle (result : Except Error α) : Routine α := .done (result.mapError .error)

end Routine
end Reql
