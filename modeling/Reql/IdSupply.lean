/-!
Supplies of identifiers for function parameters.

A supply hands out identifiers in order, one at a time or in a block, and never looks back.  The
count goes around after the greatest 64-bit number.
-/

namespace Reql

structure IdSupply where
  next : UInt64 := 1
  deriving DecidableEq, Inhabited

namespace IdSupply

def take (s : IdSupply) : UInt64 × IdSupply := (s.next, ⟨s.next + 1⟩)

/-- `s.takeBlock count` takes consecutive identifiers in one step. -/
def takeBlock (s : IdSupply) (count : Nat) : List UInt64 × IdSupply :=
  ((List.range count).map fun i => s.next + UInt64.ofNat i, ⟨s.next + UInt64.ofNat count⟩)

@[simp] theorem take_fst (s : IdSupply) : s.take.1 = s.next := rfl

@[simp] theorem next_take (s : IdSupply) : s.take.2.next = s.next + 1 := rfl

@[simp] theorem length_takeBlock (s : IdSupply) (count : Nat) :
    (s.takeBlock count).1.length = count := by
  simp [takeBlock]

@[simp] theorem next_takeBlock (s : IdSupply) (count : Nat) :
    (s.takeBlock count).2.next = s.next + UInt64.ofNat count := rfl

/-- What is asked of a supply in one step: `one` is answered by `take`, and a `block` by
`takeBlock`. -/
inductive Demand
  | one
  | block (count : Nat)
  deriving DecidableEq

def answer (s : IdSupply) : Demand → List UInt64 × IdSupply
  | .one => let (id, s) := s.take; ([id], s)
  | .block count => s.takeBlock count

def answerAll (s : IdSupply) : List Demand → List (List UInt64) × IdSupply
  | [] => ([], s)
  | demand :: rest =>
      let (ids, s) := s.answer demand
      let (more, s) := s.answerAll rest
      (ids :: more, s)

end IdSupply
end Reql
