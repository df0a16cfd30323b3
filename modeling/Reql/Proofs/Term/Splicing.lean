import Reql.Proofs.Term.Faults
import Reql.Proofs.Term.Misfits

/-!
Two ways to splice bundles.

A list of arguments can be collected, which takes its bundles apart as they
come, or it can be the list of the elements of an array, whose bundles are
taken apart while it is coerced. `Arg.Grouped` says what both should have in
common: bundles are runs of a list with something around them, and a container
does not depend on them. Both ways then fail at the same element, since both
are a search for the first leaf without a term; `Arg.firstRefusal?` is that
search, with the number of the leaf, and the two errors differ in how they
write the number.
-/

namespace Reql

/-! ### Grouping -/

namespace Arg

/-- `Grouped items grouped`: the second list is the first one with some of its
runs put into bundles, in which there may be bundles again. -/
inductive Grouped : List Arg → List Arg → Prop
  | nothing : Grouped [] []
  | single (a : Arg) {items grouped : List Arg} :
      Grouped items grouped → Grouped (a :: items) (a :: grouped)
  | bundle {run inner items grouped : List Arg} :
      Grouped run inner → Grouped items grouped → Grouped (run ++ items) (.bundle inner :: grouped)

theorem leavesOf_append (items more : List Arg) :
    leavesOf (items ++ more) = leavesOf items ++ leavesOf more := by
  induction items with
  | nil => rfl
  | cons a rest ih => rw [List.cons_append, leavesOf, leavesOf, ih, List.append_assoc]

theorem Grouped.leavesOf_eq {items grouped : List Arg} (h : Grouped items grouped) :
    leavesOf grouped = leavesOf items := by
  induction h with
  | nothing => rfl
  | single a _ ih => rw [leavesOf, leavesOf, ih]
  | bundle _ _ ihRun ih => rw [leavesOf, leaves, ihRun, ih, leavesOf_append]

theorem Grouped.append {items grouped more others : List Arg} (h : Grouped items grouped)
    (hmore : Grouped more others) : Grouped (items ++ more) (grouped ++ others) := by
  induction h with
  | nothing => exact hmore
  | single a _ ih => exact .single a ih
  | bundle hrun _ _ ih =>
      rw [List.append_assoc]
      exact .bundle hrun ih

mutual

theorem grouped_leaves : ∀ a : Arg, Grouped a.leaves [a]
  | .bundle items => by
      have h : Grouped (leavesOf items ++ []) [.bundle items] :=
        .bundle (grouped_leavesOf items) .nothing
      rwa [List.append_nil] at h
  | .term _ => .single _ .nothing
  | .value _ => .single _ .nothing
  | .array _ => .single _ .nothing
  | .object _ => .single _ .nothing

theorem grouped_leavesOf : ∀ items : List Arg, Grouped (leavesOf items) items
  | [] => .nothing
  | a :: rest => (grouped_leaves a).append (grouped_leavesOf rest)

end

mutual

theorem ne_bundle_of_mem_leaves : ∀ a : Arg, ∀ l ∈ a.leaves, ∀ inner, l ≠ .bundle inner
  | .bundle items => ne_bundle_of_mem_leavesOf items
  | .term _ => List.forall_mem_singleton.mpr fun _ => Arg.noConfusion
  | .value _ => List.forall_mem_singleton.mpr fun _ => Arg.noConfusion
  | .array _ => List.forall_mem_singleton.mpr fun _ => Arg.noConfusion
  | .object _ => List.forall_mem_singleton.mpr fun _ => Arg.noConfusion

theorem ne_bundle_of_mem_leavesOf : ∀ items : List Arg, ∀ l ∈ leavesOf items, ∀ inner,
    l ≠ .bundle inner
  | [] => List.forall_mem_nil _
  | a :: rest =>
      List.forall_mem_append.mpr ⟨ne_bundle_of_mem_leaves a, ne_bundle_of_mem_leavesOf rest⟩

end

theorem leavesOf_eq_self {items : List Arg} (h : ∀ a ∈ items, ∀ inner, a ≠ .bundle inner) :
    leavesOf items = items := by
  induction items with
  | nil => rfl
  | cons a rest ih =>
      obtain ⟨ha, hrest⟩ := List.forall_mem_cons.mp h
      rw [leavesOf, leaves_eq_self ha, ih hrest]
      rfl

/-- The leaves are the one list without bundles that can be grouped into the
list. -/
theorem grouped_without_bundles_iff {flat items : List Arg} :
    Grouped flat items ∧ (∀ a ∈ flat, ∀ inner, a ≠ .bundle inner) ↔ flat = leavesOf items := by
  constructor
  · rintro ⟨hgrouped, hflat⟩
    rw [hgrouped.leavesOf_eq, leavesOf_eq_self hflat]
  · rintro rfl
    exact ⟨grouped_leavesOf items, ne_bundle_of_mem_leavesOf items⟩

/-! ### The first leaf without a term -/

/-- `firstRefusal? items` is the number of the first argument without a term,
and why it has none. -/
def firstRefusal? (items : List Arg) : Option (Nat × Refusal) :=
  items.zipIdx.findSome? fun numbered => (failure? numbered.1.coerce).map (numbered.2, ·)

theorem firstRefusal?_eq_none_iff {items : List Arg} :
    firstRefusal? items = none ↔ ∃ ts, List.Forall₂ (fun a t => a.coerce = .ok t) items ts := by
  simp only [firstRefusal?, exists_forall₂_iff, List.findSome?_eq_none_iff, Option.map_eq_none_iff,
    failure?_eq_none_iff]
  exact forall_mem_zipIdx_iff (P := fun a : Arg => ∃ t, a.coerce = .ok t)

theorem exists_of_firstRefusal? {items : List Arg} {number : Nat} {r : Refusal}
    (h : firstRefusal? items = some (number, r)) :
    ∃ before a after, items = before ++ a :: after ∧ before.length = number ∧
      (∀ other ∈ before, ∃ t, other.coerce = .ok t) ∧ a.coerce = .error r := by
  obtain ⟨front, ⟨a, index⟩, back, hsplit, ha, hfront⟩ := List.findSome?_eq_some_iff.mp h
  obtain ⟨before, rest, rfl, rfl, hrest⟩ := List.zipIdx_eq_append_iff.mp hsplit
  obtain ⟨_, after, rfl, hhead, -⟩ := List.zipIdx_eq_cons_iff.mp hrest.symm
  obtain ⟨rfl, rfl⟩ := Prod.mk.inj hhead
  obtain ⟨r', hr', heq⟩ := Option.map_eq_some_iff.mp ha
  obtain ⟨hnumber, rfl⟩ := Prod.mk.inj heq
  refine ⟨before, a, after, rfl, by omega, ?_, failure?_eq_some_iff.mp hr'⟩
  simp only [Option.map_eq_none_iff, failure?_eq_none_iff] at hfront
  exact (forall_mem_zipIdx_iff (P := fun a : Arg => ∃ t, a.coerce = .ok t)).mp hfront

/-- Collected arguments report the first refusal at the number of the
argument. -/
theorem failure?_freeze_eq (args : Arguments) :
    failure? args.freeze =
      (firstRefusal? args.items).map fun found => found.2.toError (.argument found.1) := by
  rw [Arguments.freeze, Arguments.failure?_freezeFrom, firstRefusal?, List.map_findSome?]
  refine congrArg (List.findSome? · args.items.zipIdx) (funext fun numbered => ?_)
  rw [Function.comp_apply, Option.map_map]
  rfl

/-- An array reports the first refusal among its leaves one step further
down. -/
theorem failure?_toTerm_array (items : List Arg) :
    failure? (array items).toTerm = (firstRefusal? (leavesOf items)).map fun found =>
      (found.2.under (.index found.1)).toError .value := by
  rw [toTerm, coerceFrom, failure?_mapError, coerce, failure?_bind_ok, failure?_coerceItems,
    firstFailure?, numbered, List.findSome?_map, firstRefusal?, List.map_findSome?,
    List.map_findSome?]
  refine congrArg (List.findSome? · (leavesOf items).zipIdx) (funext fun numbered => ?_)
  rw [Function.comp_apply, Function.comp_apply, Function.comp_apply, Option.map_map, Option.map_map]
  rfl

end Arg

/-! ### The two places -/

theorem Place.text_argument (index : Nat) (steps : List Step) :
    text ⟨.argument index, steps⟩ =
      "$args[" ++ toString index ++ "]" ++ String.join (steps.map Step.text) := rfl

theorem Place.text_index (index : Nat) (steps : List Step) :
    text ⟨.value, .index index :: steps⟩ =
      "$[" ++ toString index ++ "]" ++ String.join (steps.map Step.text) := by
  have hopen : "$[" = "$" ++ "[" := rfl
  rw [text, List.map_cons, String.join_cons, Step.text, Origin.text, hopen]
  simp only [String.append_assoc]

/-- A list can be collected or made into an array, in either case with its
bundles spliced. What is collected does not depend on how the list is put into
bundles: it is the one list without bundles that can be grouped into the given
one. The array has a term exactly if all that is collected has one, with those
terms as its elements. If one of them has none, both report the first such
element with the reason and the steps below it, and differ in the words for its
place only. -/
theorem Arguments.collected_agree_with_array (items : List Arg) :
    (∀ flat, Arg.Grouped flat items ∧ (∀ a ∈ flat, ∀ inner, a ≠ .bundle inner) ↔
        flat = (ofList items).items) ∧
      (∀ (args : Arguments) (grouped : List Arg), Arg.Grouped items grouped →
        args.extend grouped = args.extend items) ∧
      ((∃ ts, (ofList items).freeze = .ok ts ∧ (Arg.array items).toTerm = .ok (.array ts)) ∨
        ∃ before a after r, (ofList items).items = before ++ a :: after ∧
          (∀ other ∈ before, ∃ t, other.coerce = .ok t) ∧ a.coerce = .error r ∧
          ∃ place place', (ofList items).freeze = .error (.construction place r.reason) ∧
            (Arg.array items).toTerm = .error (.construction place' r.reason) ∧
            place.text = "$args[" ++ toString before.length ++ "]" ++
              String.join (r.steps.map Step.text) ∧
            place'.text = "$[" ++ toString before.length ++ "]" ++
              String.join (r.steps.map Step.text)) := by
  refine ⟨fun flat => ?_, fun args grouped h => ?_, ?_⟩
  · rw [items_ofList]
    exact Arg.grouped_without_bundles_iff
  · have hitems : (args.extend grouped).items = (args.extend items).items := by
      rw [items_extend, items_extend, h.leavesOf_eq]
    exact congrArg Arguments.mk hitems
  · rw [items_ofList]
    have hcollected := Arg.failure?_freeze_eq (ofList items)
    have harray := Arg.failure?_toTerm_array items
    rw [items_ofList] at hcollected
    cases hfirst : Arg.firstRefusal? (Arg.leavesOf items) with
    | none =>
        obtain ⟨ts, hts⟩ := Arg.firstRefusal?_eq_none_iff.mp hfirst
        refine .inl ⟨ts, ?_, ?_⟩
        · rwa [freeze_eq_ok_iff, items_ofList]
        · exact Arg.toTerm_eq_ok_iff.mpr (Arg.coerce_array_iff.mpr ⟨ts, hts, rfl⟩)
    | some found =>
        obtain ⟨number, r⟩ := found
        obtain ⟨before, a, after, hsplit, rfl, hbefore, ha⟩ := Arg.exists_of_firstRefusal? hfirst
        rw [hfirst, Option.map_some, failure?_eq_some_iff] at hcollected harray
        exact .inr ⟨before, a, after, r, hsplit, hbefore, ha, _, _, hcollected, harray,
          Place.text_argument _ _, Place.text_index _ _⟩

/-- Two elements in bundles, and an object with a number that is not finite. -/
def Arg.bundledRow : List Arg :=
  [.value .null, .bundle [.bundle [], .term .implicitVar], .object [("a", .value (.number .nan))]]

def Arg.bundledTwice : List Arg :=
  [.bundle [.value .null, .bundle [.bundle [], .term .implicitVar]],
    .object [("a", .value (.number .nan))]]

/-- The object is the third element in both, whatever the bundles. -/
theorem Arguments.collected_agree_with_array_bundledRow :
    (Arg.Grouped Arg.bundledRow Arg.bundledTwice ∧
      extend {} Arg.bundledTwice = extend {} Arg.bundledRow) ∧
    ∃ place place' reason, (ofList Arg.bundledRow).freeze = .error (.construction place reason) ∧
      (Arg.array Arg.bundledRow).toTerm = .error (.construction place' reason) ∧
      place.text = "$args[2].a" ∧ place'.text = "$[2].a" := by
  obtain ⟨-, hextend, -⟩ := collected_agree_with_array Arg.bundledRow
  have hgrouped : Arg.Grouped Arg.bundledRow Arg.bundledTwice :=
    .bundle (.single _ (.single _ .nothing)) (.single _ .nothing)
  -- the empty bundle has no number, so the object has the third one
  have hcollected : (ofList Arg.bundledRow).freeze =
      .error (.construction ⟨.argument 2, [.key "a"]⟩ (.notFinite .nan)) := rfl
  have harray : (Arg.array Arg.bundledRow).toTerm =
      .error (.construction ⟨.value, [.index 2, .key "a"]⟩ (.notFinite .nan)) := rfl
  exact ⟨⟨hgrouped, hextend {} _ hgrouped⟩, _, _, _, hcollected, harray, rfl, rfl⟩

end Reql
