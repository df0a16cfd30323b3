import Reql.Proofs.Program.Ledger
import Reql.Proofs.Supply
import Reql.Proofs.Term.Wrapping

/-!
What programs draw from their supplies.

The supplies of a program move by the total of its ledger, and the functions in
the ledger have their parameters from the block in between. One entry moves a
supply by one block, and blocks one after the other are a block;
`Ledger.Accounts` is the invariant that follows from this by induction on the
program.
-/

namespace Reql

/-! ### What is wrapped -/

namespace Operation

variable {o : Operation} {args : List Arg}

end Operation

/-! ### Accounts -/

/-- `Ledger.Accounts s s' ledger` says what has happened to the supplies: each
has handed out a block of as many identifiers as `drawn` counts, and the
`functions` have their parameters from it. -/
structure Ledger.Accounts (s s' : Supplies) (ledger : Ledger) : Prop where
  supplies : ∀ source, ((s.get source).takeBlock (ledger.drawn source)).2 = s'.get source
  functions : ∀ source, ∀ f ∈ ledger.functions source,
    f.parameters ⊆ ((s.get source).takeBlock (ledger.drawn source)).1

namespace Ledger

variable {s s' s'' : Supplies} {ledger more : Ledger}

theorem Accounts.append (h : Accounts s s' ledger) (hmore : Accounts s' s'' more) :
    Accounts s s'' (ledger ++ more) where
  supplies source := by
    rw [drawn_append, IdSupply.takeBlock_add, h.supplies source]
    exact hmore.supplies source
  functions source f hf := by
    rw [drawn_append, IdSupply.takeBlock_add, h.supplies source]
    rw [functions_append] at hf
    rcases List.mem_append.mp hf with hf | hf
    · exact List.Subset.trans (h.functions source f hf) (List.subset_append_left _ _)
    · exact List.Subset.trans (hmore.functions source f hf) (List.subset_append_right _ _)

/-- A function of parameters that were taken before takes none. -/
theorem Accounts.made (h : Accounts s s' ledger) {source : Source} {f : Term}
    (hf : f.parameters ⊆ ((s.get source).takeBlock (ledger.drawn source)).1) :
    Accounts s s' (ledger ++ [(source, .made f)]) := by
  have hdrawn : ∀ source', drawn source' (ledger ++ [(source, .made f)]) =
      drawn source' ledger := by
    intro source'
    rw [drawn_append, drawn_singleton, Entry.count, ite_self, Nat.add_zero]
  constructor
  · intro source'
    rw [hdrawn]
    exact h.supplies source'
  · intro source' g hg
    rw [hdrawn]
    rw [functions_append, functions_singleton] at hg
    rcases List.mem_append.mp hg with hg | hg
    · exact h.functions source' g hg
    · split at hg
      · rename_i hsource
        obtain rfl := List.mem_singleton.mp hg
        rwa [← hsource]
      · cases hg

theorem Accounts.closing (h : Accounts s s' ledger) {source : Source} {ids : List UInt64}
    (hids : ids ⊆ ((s.get source).takeBlock (ledger.drawn source)).1)
    (answer : Except Program.Failure Term) :
    Accounts s s' (ledger ++
      Routine.closing source (Term.closeFunction .error ids answer)) := by
  rw [Term.closeFunction_eq_map]
  cases answer with
  | error e =>
      have hnone : Routine.closing source (Except.map (Term.functionNode ids) (.error e)) = [] := rfl
      rwa [hnone, List.append_nil]
  | ok body =>
      have hf : (Term.functionNode ids body).parameters ⊆
          ((s.get source).takeBlock (ledger.drawn source)).1 := by
        rwa [Term.parameters_functionNode]
      exact h.made hf

end Ledger

/-! ### Runs -/

end Reql
