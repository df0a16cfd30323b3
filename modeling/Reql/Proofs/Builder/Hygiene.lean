import Reql.Proofs.Builder.Workspace

/-!
Functions that come from one supply.

A program that uses the parameters of a function in its body only, and takes no
terms apart, never gets a term in which a function captures the variable of
another one. Identifiers are handed out once, so what has to be kept from action
to action is where they may occur: in lists of parameters when their function
is finished, and as free variables while its body is being built. An outer body
is entered before the inner ones and a wrapper comes after the term in it, but
terms may be used again and again, so nothing can be said of the order in which
identifiers are met on the way down a term.
-/

namespace Reql

/-! ### What programs may do -/

/-- `w.Allows a`: the action uses the parameters of functions only in their
bodies, and takes no term apart. -/
structure Workspace.Allows (w : Workspace) (a : Action) : Prop where
  whole : a.takesApart = false
  within : ∀ n ∈ a.numbers, ∀ id ∈ (w.term n).free, id ∈ w.opened.flatten

theorem Workspace.allows_iff {w : Workspace} {a : Action} :
    w.Allows a ↔ a.takesApart = false ∧
      a.numbers.all (fun n => (w.term n).free.all (· ∈ w.opened.flatten)) := by
  simp only [List.all_eq_true, decide_eq_true_iff]
  exact ⟨fun h => ⟨h.whole, h.within⟩, fun h => ⟨h.1, h.2⟩⟩

instance (w : Workspace) (a : Action) : Decidable (w.Allows a) :=
  decidable_of_iff' _ Workspace.allows_iff

/-- `Reached first w s`: a sequence of allowed actions leads to `w` and `s`,
beginning with nothing and with a supply that starts at `first`. -/
inductive Reached (first : UInt64) : Workspace → IdSupply → Prop
  | start : Reached first {} ⟨first⟩
  | act {w : Workspace} {s : IdSupply} (a : Action) : Reached first w s → w.Allows a →
      Reached first (w.act s a).workspace (w.act s a).supply

/-- `t.Resolved made`: no function in `t` captures the variable of another one.
On the way from the root to a node all parameters are distinct, and around a
variable there is one function that lists it, which is the one that was made
with it. -/
structure Term.Resolved (made : List (List UInt64 × Term)) (t : Term) : Prop where
  apart : ∀ above u, t.Leads above u → ((above ++ [u]).flatMap parameters).Nodup
  bound : ∀ above u, t.Leads above u → u.kind = .var → ∃ id ids f, u = .var id ∧
    above.filter (fun s => id ∈ s.parameters) = [f] ∧
    made.filter (fun call => id ∈ call.1) = [(ids, f)]

/-! ### The invariant -/

namespace Workspace

/-- `w.Finished id`: the identifier was handed out, and not for a body that is
being built. -/
def Finished (w : Workspace) (id : UInt64) : Prop := id ∈ w.drawn ∧ id ∉ w.opened.flatten

/-- `w.Made id f`: the identifier was handed out to one function, and it is
`f`. -/
def Made (w : Workspace) (id : UInt64) (f : Term) : Prop :=
  ∃ ids, w.made.filter (fun call => id ∈ call.1) = [(ids, f)]

/-- What a workspace keeps to while its program is at work. -/
structure Orderly (first : UInt64) (w : Workspace) (s : IdSupply) : Prop where
  follows : IdSupply.Follows first w.drawn s
  apart : w.opened.flatten.Nodup
  drawn : ∀ id ∈ w.opened.flatten, id ∈ w.drawn
  made : ∀ call ∈ w.made, ∀ id ∈ call.1, w.Finished id
  terms : ∀ t ∈ w.terms, t.Hygienic w.Finished w.Made (· ∈ w.drawn)

/-- `w.Scoped t`: all free variables of `t` belong to bodies that are being
built. -/
def Scoped (w : Workspace) (t : Term) : Prop :=
  t.Hygienic w.Finished w.Made (· ∈ w.opened.flatten)

variable {first : UInt64} {w : Workspace} {s : IdSupply} {a : Action}

theorem Orderly.scoped (h : w.Orderly first s) (ha : w.Allows a) :
    ∀ n ∈ a.numbers, w.Scoped (w.term n) := by
  intro n hn
  have hterm : (w.term n).Hygienic w.Finished w.Made (· ∈ w.drawn) :=
    term_of_forall h.terms (Term.hygienic_of_plain Term.plain_implicitVar) n
  exact (hterm.of_free (ha.within n hn)).imp (fun _ h => h) (fun _ _ h => h) fun _ h => h.2

theorem Orderly.fresh (h : w.Orderly first s) {ids : List UInt64} {s' : IdSupply}
    (hids : s.takeBlock ids.length = (ids, s'))
    (hroom : first.toNat + (w.drawn ++ ids).length ≤ 18446744073709551616) :
    ids.Nodup ∧ ∀ id ∈ ids, id ∉ w.drawn := by
  have hnodup := (h.follows.append hids).nodup hroom
  obtain ⟨-, hids, hapart⟩ := List.nodup_append.mp hnodup
  exact ⟨hids, fun id hid hmem => hapart id hmem id hid rfl⟩

theorem Orderly.fresh_block (h : w.Orderly first s) {count : Nat}
    (hroom : first.toNat + (w.act s (.enter count)).workspace.drawn.length ≤
      18446744073709551616) :
    (s.takeBlock count).1.Nodup ∧ ∀ id ∈ (s.takeBlock count).1, id ∉ w.drawn := by
  have htake : s.takeBlock (s.takeBlock count).1.length =
      ((s.takeBlock count).1, (s.takeBlock count).2) := by
    rw [IdSupply.length_takeBlock]
  exact h.fresh htake hroom

theorem Orderly.finished_act (h : w.Orderly first s)
    (hroom : first.toNat + (w.act s a).workspace.drawn.length ≤ 18446744073709551616)
    {id : UInt64} (hid : w.Finished id) : (w.act s a).workspace.Finished id := by
  refine ⟨mem_drawn_act hid.1, fun hopened => ?_⟩
  by_cases henter : ∃ count, a = .enter count
  · obtain ⟨count, rfl⟩ := henter
    rcases List.mem_append.mp hopened with hnew | hopened
    · exact (h.fresh_block hroom).2 id hnew hid.1
    · exact hid.2 hopened
  · have hsub := w.opened_sublist_act s (not_exists.mp henter)
    exact hid.2 (hsub.subset hopened)

theorem Orderly.made_act (h : w.Orderly first s) {id : UInt64} {f : Term} (hf : w.Made id f) :
    (w.act s a).workspace.Made id f := by
  cases a with
  | leave n =>
      cases hw : w.opened with
      | nil =>
          rw [act_leave_nil hw]
          exact hf
      | cons ids rest =>
          obtain ⟨ids', hfilter⟩ := hf
          have hmem : (ids', f) ∈ w.made.filter (fun call => id ∈ call.1) :=
            hfilter ▸ List.mem_singleton_self _
          obtain ⟨hcall, hid⟩ := List.mem_filter.mp hmem
          have hclosed : id ∉ w.opened.flatten := (h.made _ hcall id (of_decide_eq_true hid)).2
          have hnew : id ∉ ids := fun hmem => by
            rw [hw] at hclosed
            exact hclosed (List.mem_append_left _ hmem)
          refine ⟨ids', ?_⟩
          rw [act_leave_cons hw]
          simpa [hnew] using hfilter
  | _ => exact hf

theorem Orderly.finished_leave (h : w.Orderly first s) {ids : List UInt64}
    {rest : List (List UInt64)} (hw : w.opened = ids :: rest) (n : Nat) :
    ∀ id ∈ ids, (w.act s (.leave n)).workspace.Finished id := by
  have hapart := h.apart
  rw [hw, List.flatten_cons, List.nodup_append] at hapart
  intro id hid
  rw [act_leave_cons hw]
  refine ⟨h.drawn id ?_, fun hrest => hapart.2.2 id hid id hrest rfl⟩
  rw [hw]
  exact List.mem_append_left _ hid

/-- A wrapper takes the next identifier, which no function in its body lists and
no variable there refers to. -/
theorem Orderly.scoped_wrapped (h : w.Orderly first s) {c : Call}
    (htake : (c.perform w.term s).2 = s.take.2)
    (hroom : first.toNat + (w.act s (.call c)).workspace.drawn.length ≤ 18446744073709551616)
    {t : Term} (ht : w.Scoped t) :
    (w.act s (.call c)).workspace.Scoped (Term.wrapped s.next t) := by
  have hdrawn := drawn_act_of_take htake
  have hblock : s.takeBlock [s.next].length = ([s.next], s.take.2) := s.takeBlock_one
  have hnew : s.next ∉ w.drawn :=
    (h.fresh hblock (hdrawn ▸ hroom)).2 _ (List.mem_singleton_self _)
  have hclosed : s.next ∉ w.opened.flatten := fun hmem => hnew (h.drawn _ hmem)
  refine ht.function (List.nodup_singleton _) ?_ ?_ (fun id hid => h.finished_act hroom hid)
    (fun _ _ hf => h.made_act hf) ?_ fun _ hid _ => hid
  all_goals refine List.forall_mem_singleton.mpr ?_
  · exact fun hid => hnew hid.1
  · refine ⟨?_, hclosed⟩
    rw [hdrawn]
    exact List.mem_append_right _ (List.mem_singleton_self _)
  · exact fun hid => absurd hid hclosed

/-- The function of the body that is left binds the parameters of that body, and
those of the bodies around it stay free. -/
theorem Orderly.scoped_function (h : w.Orderly first s) {ids : List UInt64}
    {rest : List (List UInt64)} (hw : w.opened = ids :: rest) {n : Nat}
    (hroom : first.toNat + (w.act s (.leave n)).workspace.drawn.length ≤ 18446744073709551616)
    (hbody : w.Scoped (w.term n)) :
    (w.act s (.leave n)).workspace.Scoped (Term.functionNode ids (w.term n)) := by
  have hnodup : ids.Nodup := by
    have hapart := h.apart
    rw [hw] at hapart
    exact hapart.of_append_left
  have hopen : ∀ id ∈ ids, id ∈ w.opened.flatten := fun id hid => by
    rw [hw]
    exact List.mem_append_left _ hid
  -- the functions made so far are finished, these parameters are not
  have hnone : ∀ id ∈ ids, w.made.filter (fun call => id ∈ call.1) = [] := by
    intro id hid
    refine List.filter_eq_nil_iff.mpr fun call hcall hmem => ?_
    exact (h.made call hcall id (of_decide_eq_true hmem)).2 (hopen id hid)
  have hfinished : ∀ id, w.Finished id → (w.act s (.leave n)).workspace.Finished id :=
    fun id hid => h.finished_act hroom hid
  have hmade : ∀ id f, w.Made id f → (w.act s (.leave n)).workspace.Made id f :=
    fun _ _ hf => h.made_act hf
  have hids := h.finished_leave hw n
  rw [act_leave_cons hw] at hfinished hmade hids ⊢
  refine hbody.function hnodup ?_ hids hfinished hmade ?_ ?_
  · exact fun id hid hfin => hfin.2 (hopen id hid)
  · intro id hid _
    exact ⟨ids, by simp [hid, hnone id hid]⟩
  · intro id hid hnot
    rw [hw] at hid
    exact (List.mem_append.mp hid).resolve_left hnot

theorem Orderly.answer (h : w.Orderly first s) (ha : w.Allows a)
    (hroom : first.toNat + (w.act s a).workspace.drawn.length ≤ 18446744073709551616)
    {ts : List Term} (hts : (w.act s a).answer = .ok ts) :
    ∀ t ∈ ts, (w.act s a).workspace.Scoped t := by
  have hgiven := h.scoped ha
  cases a with
  | call c =>
      have himp : ∀ t, w.Scoped t → (w.act s (.call c)).workspace.Scoped t := fun t ht =>
        ht.imp (fun id hid => h.finished_act hroom hid) (fun _ _ hf => h.made_act hf)
          fun _ hid => hid
      exact Call.perform_closed Term.closed_hygienic Term.closed_hygienic himp
        (fun t ht => Term.hygienic_of_plain ht)
        (fun htake t ht => h.scoped_wrapped htake hroom ht)
        (fun hc => absurd (ha.whole.symm.trans hc) Bool.false_ne_true) hgiven hts
  | enter count =>
      obtain rfl := Except.ok.inj hts
      refine List.forall_mem_map.mpr fun id hid => Term.hygienic_var ?_
      exact List.mem_append_left _ hid
  | leave n =>
      cases hw : w.opened with
      | nil =>
          rw [act_leave_nil hw] at hts
          obtain rfl := Except.ok.inj hts
          exact List.forall_mem_nil _
      | cons ids rest =>
          have hfunction := h.scoped_function hw hroom (hgiven n (List.mem_singleton_self n))
          rw [act_leave_cons hw] at hts hfunction ⊢
          obtain rfl := Except.ok.inj hts
          exact List.forall_mem_singleton.mpr hfunction
  | fail =>
      obtain rfl := Except.ok.inj hts
      exact List.forall_mem_nil _

theorem Orderly.act (h : w.Orderly first s) (ha : w.Allows a)
    (hroom : first.toNat + (w.act s a).workspace.drawn.length ≤ 18446744073709551616) :
    (w.act s a).workspace.Orderly first (w.act s a).supply where
  follows := follows_act h.follows
  apart := by
    -- only entering a body opens parameters, and these are new
    by_cases henter : ∃ count, a = .enter count
    · obtain ⟨count, rfl⟩ := henter
      obtain ⟨hnodup, hnew⟩ := h.fresh_block hroom
      refine List.nodup_append.mpr ⟨hnodup, h.apart, ?_⟩
      rintro id hid _ hmem rfl
      exact hnew id hid (h.drawn id hmem)
    · exact (w.opened_sublist_act s (not_exists.mp henter)).nodup h.apart
  drawn := opened_drawn_act h.drawn
  made := by
    -- only leaving a body adds a function, whose parameters are finished by that
    have hold : ∀ call ∈ w.made, ∀ id ∈ call.1, (w.act s a).workspace.Finished id :=
      fun call hcall id hid => h.finished_act hroom (h.made call hcall id hid)
    cases a with
    | leave n =>
        cases hw : w.opened with
        | nil =>
            rw [act_leave_nil hw]
            exact h.made
        | cons ids rest =>
            have hids := h.finished_leave hw n
            rw [act_leave_cons hw] at hold hids ⊢
            exact List.forall_mem_cons.mpr ⟨hids, hold⟩
    | _ => exact hold
  terms := by
    refine forall_mem_terms_act (fun t ht => ?_) fun ts hts t ht => ?_
    · exact (h.terms t ht).imp (fun id hid => h.finished_act hroom hid)
        (fun _ _ hf => h.made_act hf) fun id hid => mem_drawn_act hid
    · -- a variable that is free in an answer belongs to an open body
      exact (h.answer ha hroom hts t ht).imp (fun _ hid => hid) (fun _ _ hf => hf)
        (opened_drawn_act h.drawn)

end Workspace

open Workspace

theorem Reached.orderly {first : UInt64} {w : Workspace} {s : IdSupply} (h : Reached first w s)
    (hroom : first.toNat + w.drawn.length ≤ 18446744073709551616) : w.Orderly first s := by
  induction h with
  | start =>
      exact ⟨IdSupply.follows_nil first, List.nodup_nil, List.forall_mem_nil _,
        List.forall_mem_nil _, List.forall_mem_nil _⟩
  | @act w s a _ ha ih =>
      have hdrawn := w.drawn_length_le_act s a
      exact Orderly.act (ih (by omega)) ha hroom

/-- Every term that a program gets outside of function bodies is resolved, if
its supply does not go around. -/
theorem answer_resolved {first : UInt64} {w : Workspace} {s : IdSupply} {a : Action}
    (hreached : Reached first w s) (ha : w.Allows a)
    (hroom : first.toNat + (w.act s a).workspace.drawn.length < 18446744073709551616)
    (houtside : (w.act s a).workspace.opened = []) {ts : List Term}
    (hts : (w.act s a).answer = .ok ts) :
    ∀ t ∈ ts, t.Resolved (w.act s a).workspace.made := by
  have hdrawn := w.drawn_length_le_act s a
  have horderly : w.Orderly first s := hreached.orderly (by omega)
  intro t ht
  have hscoped : (w.act s a).workspace.Scoped t :=
    horderly.answer ha (Nat.le_of_lt hroom) hts t ht
  refine ⟨hscoped.apart, fun above u hu hvar => ?_⟩
  obtain ⟨id, rfl, ⟨f, hf, ids, hids⟩ | ⟨-, hfree⟩⟩ := hscoped.bound above u hu hvar
  · exact ⟨id, ids, f, rfl, hf, hids⟩
  · rw [houtside] at hfree
    cases hfree

/-- A function of two parameters. Its body maps a function over the second one
that adds the first one to its own parameter, and filters the result by a
field. -/
def Term.nestedFunctions : Term :=
  functionNode [1, 2] (.node .filter [.node .map [var 2, functionNode [3]
    (.node .add [var 3, var 1] [])] [], functionNode [4]
    (.node .getField [implicitVar, .datum (.string "active")] [])] [])

/-- The calls that make it take the identifiers of the outer function first and
that of the wrapper last. -/
theorem answer_resolved_nestedFunctions : ∃ w s, Reached 1 w s ∧ w.Allows (.leave 8) ∧
    (w.act s (.leave 8)).workspace.drawn = [1, 2, 3, 4] ∧
    (w.act s (.leave 8)).workspace.opened = [] ∧
    (w.act s (.leave 8)).answer = .ok [.nestedFunctions] ∧
    Term.nestedFunctions.Resolved (w.act s (.leave 8)).workspace.made := by
  have h : Reached 1 {} ⟨1⟩ := .start
  replace h := h.act (.enter 2) (by decide)
  replace h := h.act (.enter 1) (by decide)
  replace h := h.act (.call (.apply ⟨.add, .one⟩ (by decide) 2 [.term 0] [])) (by decide)
  replace h := h.act (.leave 3) (by decide)
  replace h := h.act (.call (.apply ⟨.map, .one⟩ (by decide) 1 [.term 4] [])) (by decide)
  replace h := h.act (.call (.given .implicitVar Term.plain_implicitVar)) (by decide)
  replace h := h.act
    (.call (.apply ⟨.getField, .one⟩ (by decide) 6 [.value (.string "active") trivial] []))
    (by decide)
  replace h := h.act (.call (.apply ⟨.filter, .one⟩ (by decide) 5 [.term 7] [])) (by decide)
  refine ⟨_, _, h, by decide, rfl, rfl, rfl, ?_⟩
  exact answer_resolved h (by decide) (by decide) rfl rfl _ (List.mem_singleton_self _)

end Reql
