import Reql.Proofs.Builder.Call
import Reql.Proofs.Supply

/-!
Programs at work.

The workspace of a program holds the terms that it has obtained so far, numbered
from zero, and the parameters of the functions whose bodies it is building. An
action is a call, or it enters or leaves the body of a function. The parameters
of a function are handed out when its body is entered, in one step, and a body
that is left becomes the function. A body may also fail, and then there is no
function.

No action asks the supply more than once, so between two of them anything may
happen to it.
-/

namespace Reql

inductive Action
  | call (c : Call)
  | enter (count : Nat)
  /-- The innermost body is left, as the term of a number in `leave` and
  without a result in `fail`. -/
  | leave (n : Nat)
  | fail

namespace Action

def numbers : Action → List Nat
  | .call c => c.numbers
  | .enter _ => []
  | .leave n => [n]
  | .fail => []

def takesApart : Action → Bool
  | .call c => c.takesApart
  | _ => false

end Action

structure Workspace where
  terms : List Term := []
  /-- The parameters of the functions whose bodies are being built, the
  innermost first. -/
  opened : List (List UInt64) := []
  /-- The functions whose bodies were left, with their parameters. -/
  made : List (List UInt64 × Term) := []
  /-- The identifiers that were handed out to the program, in order. -/
  drawn : List UInt64 := []

structure Turn where
  answer : Except Error (List Term)
  workspace : Workspace
  supply : IdSupply

namespace Workspace

/-- A number without a term stands for the implicit variable. -/
def term (w : Workspace) (n : Nat) : Term := w.terms.getD n .implicitVar

def keep (w : Workspace) (answer : Except Error (List Term)) : Workspace :=
  { w with terms := w.terms ++ answer.toOption.getD [] }

def leave (w : Workspace) (n : Nat) : Except Error (List Term) × Workspace :=
  match w.opened with
  | [] => (.ok [], w)
  | ids :: rest =>
      let result := Term.closeFunction id ids (.ok (w.term n))
      (result.map List.singleton,
        { w with opened := rest, made := result.toOption.toList.map (ids, ·) ++ w.made })

def act (w : Workspace) (s : IdSupply) : Action → Turn
  | .call c =>
      let (answer, s') := c.perform w.term s
      ⟨answer, { w with drawn := w.drawn ++ s.upTo s' }.keep answer, s'⟩
  | .enter count =>
      let ((ids, vars), s') := Term.openFunction count s
      ⟨.ok vars, { w with opened := ids :: w.opened, drawn := w.drawn ++ ids }.keep (.ok vars), s'⟩
  | .leave n =>
      let (answer, w) := w.leave n
      ⟨answer, w.keep answer, s⟩
  | .fail => ⟨.ok [], { w with opened := w.opened.tail }, s⟩

/-! ### What an action changes -/

theorem act_call (w : Workspace) (s : IdSupply) (c : Call) :
    w.act s (.call c) = ⟨(c.perform w.term s).1,
      { w with drawn := w.drawn ++ s.upTo (c.perform w.term s).2 }.keep (c.perform w.term s).1,
      (c.perform w.term s).2⟩ := rfl

theorem act_enter (w : Workspace) (s : IdSupply) (count : Nat) :
    w.act s (.enter count) = ⟨.ok ((s.takeBlock count).1.map Term.var),
      { w with
        opened := (s.takeBlock count).1 :: w.opened
        drawn := w.drawn ++ (s.takeBlock count).1 }.keep
          (.ok ((s.takeBlock count).1.map Term.var)), (s.takeBlock count).2⟩ := rfl

theorem act_leave_nil {w : Workspace} (h : w.opened = []) (s : IdSupply) (n : Nat) :
    w.act s (.leave n) = ⟨.ok [], w, s⟩ := by
  obtain ⟨terms, opened, made, drawn⟩ := w
  obtain rfl : opened = [] := h
  simp [act, leave, keep, Except.toOption]

theorem act_leave_cons {w : Workspace} {ids : List UInt64} {rest : List (List UInt64)}
    (h : w.opened = ids :: rest) (s : IdSupply) (n : Nat) :
    w.act s (.leave n) = ⟨.ok [Term.functionNode ids (w.term n)],
      { w with
        terms := w.terms ++ [Term.functionNode ids (w.term n)]
        opened := rest
        made := (ids, Term.functionNode ids (w.term n)) :: w.made }, s⟩ := by
  simp only [act, leave, h, Term.closeFunction_eq_map]
  rfl

theorem terms_act (w : Workspace) (s : IdSupply) (a : Action) :
    (w.act s a).workspace.terms = w.terms ++ (w.act s a).answer.toOption.getD [] := by
  cases a with
  | call c => rfl
  | enter count => rfl
  | leave n =>
      cases h : w.opened with
      | nil =>
          rw [act_leave_nil h]
          exact (List.append_nil w.terms).symm
      | cons ids rest =>
          rw [act_leave_cons h]
          rfl
  | fail => exact (List.append_nil w.terms).symm

theorem forall_mem_terms_act {P : Term → Prop} {w : Workspace} {s : IdSupply} {a : Action}
    (hold : ∀ t ∈ w.terms, P t)
    (hnew : ∀ ts, (w.act s a).answer = .ok ts → ∀ t ∈ ts, P t) :
    ∀ t ∈ (w.act s a).workspace.terms, P t := by
  rw [terms_act]
  refine List.forall_mem_append.mpr ⟨hold, ?_⟩
  cases hanswer : (w.act s a).answer with
  | error e => exact List.forall_mem_nil _
  | ok ts => exact hnew ts hanswer

/-- The identifiers that an action adds are the next ones of the supply. -/
theorem exists_drawn_act (w : Workspace) (s : IdSupply) (a : Action) :
    ∃ ids, (w.act s a).workspace.drawn = w.drawn ++ ids ∧
      s.takeBlock ids.length = (ids, (w.act s a).supply) := by
  cases a with
  | call c =>
      refine ⟨s.upTo (c.perform w.term s).2, rfl, ?_⟩
      change s.takeBlock _ = (_, (c.perform w.term s).2)
      rcases c.supply_perform w.term s with h | h
      · rw [h, IdSupply.upTo_self]
        exact s.takeBlock_zero
      · rw [h, IdSupply.upTo_take]
        exact s.takeBlock_one
  | enter count =>
      refine ⟨(s.takeBlock count).1, rfl, ?_⟩
      rw [IdSupply.length_takeBlock]
      rfl
  | leave n =>
      refine ⟨[], ?_, s.takeBlock_zero⟩
      rw [List.append_nil]
      cases h : w.opened with
      | nil => rw [act_leave_nil h]
      | cons ids rest => rw [act_leave_cons h]
  | fail => exact ⟨[], (List.append_nil w.drawn).symm, s.takeBlock_zero⟩

/-- The parameters at hand change by entering a body and by leaving the innermost
one, and only the former adds any. -/
theorem opened_sublist_act (w : Workspace) (s : IdSupply) {a : Action}
    (ha : ∀ count, a ≠ .enter count) :
    (w.act s a).workspace.opened.flatten.Sublist w.opened.flatten := by
  cases a with
  | call c => exact List.Sublist.refl _
  | enter count => exact absurd rfl (ha count)
  | leave n =>
      cases h : w.opened with
      | nil => rw [act_leave_nil h, h]
      | cons ids rest =>
          rw [act_leave_cons h]
          exact List.sublist_append_right ids rest.flatten
  | fail =>
      change w.opened.tail.flatten.Sublist w.opened.flatten
      cases w.opened with
      | nil => exact List.Sublist.refl _
      | cons ids rest => exact List.sublist_append_right ids rest.flatten

theorem term_of_forall {P : Term → Prop} {w : Workspace} (h : ∀ t ∈ w.terms, P t)
    (himplicit : P .implicitVar) (n : Nat) : P (w.term n) := by
  rw [term, List.getD_eq_getElem?_getD]
  cases hn : w.terms[n]? with
  | none => exact himplicit
  | some t => exact h t (List.mem_of_getElem? hn)

/-! ### Identifiers in a workspace -/

section Identifiers

variable {w : Workspace} {s : IdSupply} {a : Action}

theorem mem_drawn_act {id : UInt64} (h : id ∈ w.drawn) : id ∈ (w.act s a).workspace.drawn := by
  obtain ⟨ids, hdrawn, -⟩ := w.exists_drawn_act s a
  rw [hdrawn]
  exact List.mem_append_left ids h

theorem drawn_length_le_act (w : Workspace) (s : IdSupply) (a : Action) :
    w.drawn.length ≤ (w.act s a).workspace.drawn.length := by
  obtain ⟨ids, hdrawn, -⟩ := w.exists_drawn_act s a
  rw [hdrawn, List.length_append]
  omega

theorem follows_act {first : UInt64} (h : IdSupply.Follows first w.drawn s) :
    IdSupply.Follows first (w.act s a).workspace.drawn (w.act s a).supply := by
  obtain ⟨ids, hdrawn, hids⟩ := w.exists_drawn_act s a
  rw [hdrawn]
  exact h.append hids

theorem drawn_act_of_take {c : Call} (h : (c.perform w.term s).2 = s.take.2) :
    (w.act s (.call c)).workspace.drawn = w.drawn ++ [s.next] := by
  rw [← s.upTo_take, ← h]
  rfl

theorem opened_drawn_act (h : ∀ id ∈ w.opened.flatten, id ∈ w.drawn) :
    ∀ id ∈ (w.act s a).workspace.opened.flatten, id ∈ (w.act s a).workspace.drawn := by
  intro id hid
  by_cases henter : ∃ count, a = .enter count
  · obtain ⟨count, rfl⟩ := henter
    rcases List.mem_append.mp hid with hid | hid
    · exact List.mem_append_right _ hid
    · exact mem_drawn_act (h id hid)
  · have hsub := w.opened_sublist_act s (not_exists.mp henter)
    exact mem_drawn_act (h id (hsub.subset hid))

/-- `w.Contained`: all identifiers in the workspace were drawn by its program. -/
structure Contained (w : Workspace) : Prop where
  opened : ∀ id ∈ w.opened.flatten, id ∈ w.drawn
  terms : ∀ t ∈ w.terms, t.Mentions (· ∈ w.drawn)

theorem contained_nil : Contained {} := ⟨List.forall_mem_nil _, List.forall_mem_nil _⟩

theorem Contained.term (h : w.Contained) (n : Nat) : (w.term n).Mentions (· ∈ w.drawn) :=
  term_of_forall h.terms (Term.mentions_of_plain Term.plain_implicitVar) n

theorem Contained.answer (h : w.Contained) {ts : List Term}
    (hts : (w.act s a).answer = .ok ts) :
    ∀ t ∈ ts, t.Mentions (· ∈ (w.act s a).workspace.drawn) := by
  cases a with
  | call c =>
      refine Call.perform_closed Term.closed_mentions Term.closed_mentions
        (fun t ht => ht.imp fun _ hid => mem_drawn_act hid) (fun t ht => Term.mentions_of_plain ht)
        (fun htake t ht => ?_) (fun _ t position child ht hchild s hs id hid => ?_)
        (fun n _ => h.term n) hts
      · refine Term.mentions_functionNode (List.forall_mem_singleton.mpr ?_)
          (ht.imp fun _ hid => mem_drawn_act hid)
        rw [drawn_act_of_take htake]
        exact List.mem_append_right _ (List.mem_singleton_self _)
      · exact mem_drawn_act (ht s (Term.nodes_of_child? hchild s hs) id hid)
  | enter count =>
      obtain rfl := Except.ok.inj hts
      refine List.forall_mem_map.mpr fun id hid => Term.mentions_var ?_
      exact List.mem_append_right _ hid
  | leave n =>
      cases hw : w.opened with
      | nil =>
          rw [act_leave_nil hw] at hts
          obtain rfl := Except.ok.inj hts
          exact List.forall_mem_nil _
      | cons ids rest =>
          rw [act_leave_cons hw] at hts ⊢
          obtain rfl := Except.ok.inj hts
          refine List.forall_mem_singleton.mpr (Term.mentions_functionNode (fun id hid => ?_)
            (h.term n))
          refine h.opened id ?_
          rw [hw]
          exact List.mem_append_left _ hid
  | fail =>
      obtain rfl := Except.ok.inj hts
      exact List.forall_mem_nil _

theorem Contained.act (h : w.Contained) : (w.act s a).workspace.Contained where
  opened := opened_drawn_act h.opened
  terms := forall_mem_terms_act
    (fun t ht => (h.terms t ht).imp fun _ hid => mem_drawn_act hid) fun _ hts => h.answer hts

end Identifiers

end Workspace
end Reql
