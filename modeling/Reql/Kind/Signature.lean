/-!
What a node of a query accepts: how many positional arguments, and which optional ones.
-/

namespace Reql

/-- The accepted numbers of positional arguments; without a `max` there is no upper bound. -/
structure Arity where
  min : Nat
  max : Option Nat
  deriving DecidableEq

namespace Arity

def exactly (n : Nat) : Arity := ⟨n, some n⟩

def between (min max : Nat) : Arity := ⟨min, some max⟩

def atLeast (min : Nat) : Arity := ⟨min, none⟩

def contains (a : Arity) (count : Nat) : Bool :=
  a.min ≤ count && (match a.max with
    | some max => count ≤ max
    | none => true)

def text (a : Arity) : String :=
  match a.max with
  | some max =>
      if max = a.min then toString a.min else toString a.min ++ " to " ++ toString max
  | none => "at least " ++ toString a.min

end Arity

inductive OptionRule
  | noOptions
  | only (names : List String)
  | any
  deriving DecidableEq

namespace OptionRule

def accepts : OptionRule → String → Bool
  | .noOptions, _ => false
  | .only names, name => names.contains name
  | .any, _ => true

end OptionRule

structure Signature where
  arity : Arity
  options : OptionRule
  deriving DecidableEq

end Reql
