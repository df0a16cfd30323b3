import Reql.Program

/-!
What programs do with their supplies.

While a routine runs, `Routine.ledger` notes what it does with its supplies: the
body of a function is entered, it is left with the function that comes back, or
a term is wrapped and becomes the function that `Term.wrap` gives. An entry says
how many identifiers were taken for it, and which function came into being. The
ledger of a program is that of the routine it is.
-/

namespace Reql

open Program (Failure)

/-! ### Ledgers -/

/-- What has been done with a supply. -/
inductive Entry
  /-- The body of a function was entered. -/
  | entered (count : Nat)
  /-- The body was left, and this is the function. -/
  | made (f : Term)
  /-- A term was wrapped, and this is the function. -/
  | wrapped (f : Term)

namespace Entry

def count : Entry → Nat
  | .entered count => count
  | .made _ => 0
  | .wrapped _ => 1

def function? : Entry → Option Term
  | .entered _ => none
  | .made f => some f
  | .wrapped f => some f

end Entry

/-- All that a program has done with its supplies, in order. -/
abbrev Ledger := List (Source × Entry)

namespace Ledger

variable (source : Source)

/-- The parameters of the functions whose bodies were entered and the terms that
were wrapped, counted together. -/
def drawn : Ledger → Nat
  | [] => 0
  | (source', entry) :: rest => (if source' = source then entry.count else 0) + drawn rest

def functions : Ledger → List Term
  | [] => []
  | (source', entry) :: rest =>
      (if source' = source then entry.function?.toList else []) ++ functions rest

@[simp] theorem drawn_append (ledger more : Ledger) :
    drawn source (ledger ++ more) = drawn source ledger + drawn source more := by
  induction ledger with
  | nil => exact (Nat.zero_add _).symm
  | cons entry rest ih => rw [List.cons_append, drawn, drawn, ih, Nat.add_assoc]

@[simp] theorem functions_append (ledger more : Ledger) :
    functions source (ledger ++ more) = functions source ledger ++ functions source more := by
  induction ledger with
  | nil => rfl
  | cons entry rest ih => rw [List.cons_append, functions, functions, ih, List.append_assoc]

theorem drawn_singleton (source' : Source) (entry : Entry) :
    drawn source [(source', entry)] = if source' = source then entry.count else 0 := rfl

theorem functions_singleton (source' : Source) (entry : Entry) :
    functions source [(source', entry)] =
      if source' = source then entry.function?.toList else [] :=
  List.append_nil _

end Ledger

/-! ### The ledger of a run -/

/-- The term, if it is wrapped. -/
def Term.wraps? (t : Term) : Option Term := if t.hasImplicitVar then some t else none

/-- The term that a method wraps: that of its argument, if the argument is a
function and has a term. -/
def Operation.wraps? (o : Operation) (args : List Arg) : Option Term :=
  match o.takesFunction, args with
  | true, [a] => a.toTerm.toOption.bind Term.wraps?
  | _, _ => none

namespace Routine

/-- The entry for a term that may be wrapped, with what `Term.wrap` makes of it. -/
def wrapping (source : Source) (ids : IdSupply) (t? : Option Term) : Ledger :=
  t?.toList.map fun t => (source, .wrapped (t.wrap ids).1)

def closing (source : Source) (answer : Except Failure Term) : Ledger :=
  answer.toOption.toList.map fun f => (source, .made f)

def ledger {α : Type} : Routine α → Supplies → Ledger
  | .done _, _ => []
  | .wrap source t next, s =>
      let (u, ids) := t.wrap (s.get source)
      wrapping source (s.get source) t.wraps? ++ (next u).ledger (s.set source ids)
  | .apply source o receiver args options next, s =>
      let (answer, ids) := o.apply receiver args options (s.get source)
      wrapping source (s.get source) (o.wraps? args) ++
        (next answer).ledger (s.set source ids)
  | .function source count body next, s =>
      let ((ids, vars), rest) := Term.openFunction count (s.get source)
      let inner := (body vars).run (s.set source rest)
      let answer := Term.closeFunction .error ids inner.1
      (source, .entered count) :: (body vars).ledger (s.set source rest) ++
        closing source answer ++ (next answer).ledger inner.2

end Routine

def Program.ledger (p : Program) (terms : Fields Term) (s : Supplies) : Ledger :=
  (p.eval { terms }).ledger s

end Reql
