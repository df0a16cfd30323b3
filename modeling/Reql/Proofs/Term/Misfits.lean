import Reql.Proofs.Term.Coercion

/-!
Where coercion fails.

A value ends in scalars, in terms, and in bundles that stand where no list
takes them up. `Arg.ends` lists these ends from left to right, each with the
steps that lead to it; the elements of an array are numbered after its bundles
have been spliced. Coercion fails at the first end that has no term, and names
the steps to it. If all ends have one, so has the value, and its term has the
shape of the value.

Both the ends and the failures of a value come from its parts, one step further
down. `End.ofParts` and `firstFailure?` put them together for elements and
fields alike, and `firstFailure?_eq` is the one argument that a search through
the former finds what the latter fails with.
-/

namespace Reql

/-! ### Ends -/

/-- A part of a value that has no parts itself, and the steps that lead to
it. -/
structure End where
  steps : List Step
  value : Arg

namespace End

def here (a : Arg) : End := ⟨[], a⟩

def under (step : Step) (e : End) : End := ⟨step :: e.steps, e.value⟩

def ofParts (parts : List (Step × List End)) : List End :=
  parts.flatMap fun part => part.2.map (under part.1)

/-- `e.misfit?` is why the end has no term, if it has none: it is a number that
is not finite, or a bundle. -/
def misfit? (e : End) : Option Misfit :=
  match e.value with
  | .value (.number x) => if x.isFinite then none else some (.notFinite x)
  | .bundle _ => some .strayBundle
  | _ => none

def refusal? (e : End) : Option Refusal := e.misfit?.map fun reason => ⟨e.steps, reason⟩

theorem findSome?_map_under (step : Step) (ends : List End) :
    (ends.map (under step)).findSome? refusal? =
      (ends.findSome? refusal?).map (Refusal.under step) := by
  induction ends with
  | nil => rfl
  | cons e rest ih =>
      have hunder : (e.under step).refusal? = e.refusal?.map (Refusal.under step) := by
        rw [refusal?, refusal?, Option.map_map]
        rfl
      rw [List.map_cons, List.findSome?_cons, List.findSome?_cons, hunder, ih]
      cases e.refusal? <;> rfl

end End

namespace Datum

mutual

def ends : Datum → List End
  | .array items => End.ofParts (numbered .index (endsOfItems items) 0)
  | .object fields => End.ofParts (labelled .key (endsOfFields fields))
  | d => [.here (.value d)]

def endsOfItems : List Datum → List (List End)
  | [] => []
  | d :: rest => d.ends :: endsOfItems rest

def endsOfFields : List (String × Datum) → List (String × List End)
  | [] => []
  | (name, d) :: rest => (name, d.ends) :: endsOfFields rest

end

theorem ends_scalar {d : Datum} (h : d.isScalar = true) : d.ends = [.here (.value d)] := by
  cases d with
  | array items => cases h
  | object fields => cases h
  | _ => rfl

theorem endsOfItems_eq_map (items : List Datum) : endsOfItems items = items.map ends := by
  induction items with
  | nil => rfl
  | cons d rest ih => rw [endsOfItems, ih, List.map_cons]

theorem endsOfFields_eq_mapValues (fields : Fields Datum) :
    endsOfFields fields = Fields.mapValues ends fields := by
  induction fields with
  | nil => rfl
  | cons f rest ih =>
      obtain ⟨name, d⟩ := f
      rw [endsOfFields, ih, Fields.mapValues_cons]

end Datum

namespace Arg

mutual

def ends : Arg → List End
  | .term t => [.here (.term t)]
  | .value d => d.ends
  | .array items => End.ofParts (numbered .index (endsOfItems items) 0)
  | .object fields => End.ofParts (labelled .key (endsOfFields fields))
  | .bundle items => [.here (.bundle items)]

/-- `endsOfElement a` are the ends of each value for which an element of a list
stands. -/
def endsOfElement : Arg → List (List End)
  | .bundle items => endsOfItems items
  | .term t => [[.here (.term t)]]
  | .value d => [d.ends]
  | .array items => [End.ofParts (numbered .index (endsOfItems items) 0)]
  | .object fields => [End.ofParts (labelled .key (endsOfFields fields))]

def endsOfItems : List Arg → List (List End)
  | [] => []
  | a :: rest => a.endsOfElement ++ endsOfItems rest

def endsOfFields : List (String × Arg) → List (String × List End)
  | [] => []
  | (name, a) :: rest => (name, a.ends) :: endsOfFields rest

end

mutual

theorem endsOfElement_eq_map : ∀ a : Arg, a.endsOfElement = a.leaves.map ends
  | .bundle items => endsOfItems_eq_map items
  | .term _ => rfl
  | .value _ => rfl
  | .array _ => rfl
  | .object _ => rfl

/-- The elements of an array are its leaves. -/
theorem endsOfItems_eq_map : ∀ items : List Arg, endsOfItems items = (leavesOf items).map ends
  | [] => rfl
  | a :: rest => by
      rw [endsOfItems, leavesOf, List.map_append, endsOfElement_eq_map a, endsOfItems_eq_map rest]

end

theorem endsOfFields_eq_mapValues (fields : Fields Arg) :
    endsOfFields fields = Fields.mapValues ends fields := by
  induction fields with
  | nil => rfl
  | cons f rest ih =>
      obtain ⟨name, a⟩ := f
      rw [endsOfFields, ih, Fields.mapValues_cons]

end Arg

/-! ### The first end without a term -/

/-- If each part fails at its first end without a term, so does the whole. -/
theorem firstFailure?_eq {α : Type} {coerce : α → Except Refusal Term} {ends : α → List End}
    {parts : List (Step × α)}
    (h : ∀ part ∈ parts, failure? (coerce part.2) = (ends part.2).findSome? End.refusal?) :
    firstFailure? Refusal.under coerce parts =
      (End.ofParts (parts.map fun part => (part.1, ends part.2))).findSome? End.refusal? := by
  induction parts with
  | nil => rfl
  | cons part rest ih =>
      obtain ⟨hpart, hrest⟩ := List.forall_mem_cons.mp h
      rw [firstFailure?_cons, ih hrest, failure?_mapError, hpart, List.map_cons, End.ofParts,
        End.ofParts, List.flatMap_cons, List.findSome?_append, End.findSome?_map_under]

namespace Datum

theorem failure?_coerceItems (items : List Datum) (index : Nat) :
    failure? (coerceItems items index) =
      firstFailure? Refusal.under coerce (numbered .index items index) := by
  induction items generalizing index with
  | nil => rfl
  | cons d rest ih =>
      rw [coerceItems, failure?_bind_cons, ih, numbered_cons, firstFailure?_cons]
      rfl

theorem failure?_coerceFields (fields : Fields Datum) :
    failure? (coerceFields fields) =
      firstFailure? Refusal.under coerce (labelled .key fields) := by
  induction fields with
  | nil => rfl
  | cons f rest ih =>
      obtain ⟨name, d⟩ := f
      rw [coerceFields, failure?_bind_cons, ih]
      exact (firstFailure?_cons _ _ _).symm

theorem failure?_coerce (d : Datum) : failure? d.coerce = d.ends.findSome? End.refusal? := by
  induction d using Datum.induction with
  | scalar d hscalar =>
      rw [ends_scalar hscalar]
      cases d with
      | number x =>
          rw [coerce, List.findSome?_singleton, End.refusal?, End.misfit?]
          simp only [End.here]
          split
          · rfl
          · rfl
      | array items => cases hscalar
      | object fields => cases hscalar
      | _ => rfl
  | array items ih =>
      rw [coerce, failure?_bind_ok, failure?_coerceItems, ends, endsOfItems_eq_map,
        numbered_map]
      refine firstFailure?_eq fun part hpart => ?_
      obtain ⟨index, hindex, -⟩ := mem_numbered hpart
      exact ih part.2 (List.mem_of_getElem? hindex)
  | object fields ih =>
      rw [coerce, failure?_bind_ok, failure?_coerceFields, ends, endsOfFields_eq_mapValues,
        labelled_mapValues]
      refine firstFailure?_eq fun part hpart => ?_
      obtain ⟨field, hfield, heq, -⟩ := mem_labelled hpart
      rw [← heq]
      exact ih field hfield

end Datum

namespace Arg

theorem length_coerceElement {a : Arg} {index : Nat} {ts : List Term}
    (h : a.coerceElement index = .ok ts) : ts.length = a.leaves.length :=
  ((coerceElement_eq_ok_iff a).mp h).length_eq.symm

theorem failure?_coerceElement_of_ne {a : Arg} (h : ∀ items, a ≠ .bundle items) (index : Nat) :
    failure? (a.coerceElement index) =
      firstFailure? Refusal.under coerce (numbered .index a.leaves index) := by
  rw [coerceElement_eq h, failure?_bind_ok, leaves_eq_self h, numbered_cons, firstFailure?_cons]
  exact (Option.or_none).symm

mutual

theorem failure?_coerceElement : ∀ (a : Arg) (index : Nat),
    failure? (a.coerceElement index) =
      firstFailure? Refusal.under coerce (numbered .index a.leaves index)
  | .bundle items, index => failure?_coerceItems items index
  | .term _, index => failure?_coerceElement_of_ne (fun _ => Arg.noConfusion) index
  | .value _, index => failure?_coerceElement_of_ne (fun _ => Arg.noConfusion) index
  | .array _, index => failure?_coerceElement_of_ne (fun _ => Arg.noConfusion) index
  | .object _, index => failure?_coerceElement_of_ne (fun _ => Arg.noConfusion) index

/-- The elements of an array are coerced one after the other, numbered as they
stand after bundles have been spliced. -/
theorem failure?_coerceItems : ∀ (items : List Arg) (index : Nat),
    failure? (coerceItems items index) =
      firstFailure? Refusal.under coerce (numbered .index (leavesOf items) index)
  | [], _ => rfl
  | a :: rest, index => by
      rw [coerceItems, leavesOf, numbered_append, firstFailure?_append,
        ← failure?_coerceElement a index, ← failure?_coerceItems rest]
      refine failure?_bind fun ts hts => ?_
      rw [failure?_bind_ok, length_coerceElement hts]

end

theorem failure?_coerceFields (fields : Fields Arg) :
    failure? (coerceFields fields) =
      firstFailure? Refusal.under coerce (labelled .key fields) := by
  induction fields with
  | nil => rfl
  | cons f rest ih =>
      obtain ⟨name, a⟩ := f
      rw [coerceFields, failure?_bind_cons, ih]
      exact (firstFailure?_cons _ _ _).symm

/-- A value fails at its first end without a term. -/
theorem failure?_coerce (a : Arg) : failure? a.coerce = a.ends.findSome? End.refusal? := by
  induction a using Arg.induction with
  | term t => rfl
  | value d => exact d.failure?_coerce
  | array items ih =>
      rw [coerce, failure?_bind_ok, failure?_coerceItems, ends, endsOfItems_eq_map,
        numbered_map]
      refine firstFailure?_eq fun part hpart => ?_
      obtain ⟨index, hindex, -⟩ := mem_numbered hpart
      exact ih part.2 (List.mem_of_getElem? hindex)
  | object fields ih =>
      rw [coerce, failure?_bind_ok, failure?_coerceFields, ends, endsOfFields_eq_mapValues,
        labelled_mapValues]
      refine firstFailure?_eq fun part hpart => ?_
      obtain ⟨field, hfield, heq, -⟩ := mem_labelled hpart
      rw [← heq]
      exact ih field hfield
  | bundle items _ => rfl

end Arg

/-! ### The shape of a coerced value -/

/-- `Datum.Mirrors d t`: scalars are data, and arrays and objects are the
operations that build them. -/
inductive Datum.Mirrors : Datum → Term → Prop
  | scalar {d : Datum} : d.isScalar = true → Mirrors d (.datum d)
  | array {items : List Datum} {ts : List Term} : items.length = ts.length →
      (∀ pair ∈ items.zip ts, Mirrors pair.1 pair.2) → Mirrors (.array items) (.array ts)
  | object {fields : Fields Datum} {ts : Fields Term} : Fields.names fields = Fields.names ts →
      (∀ pair ∈ fields.zip ts, Mirrors pair.1.2 pair.2.2) → Mirrors (.object fields) (.object ts)

/-- `Arg.Mirrors a t`: the terms in the value stand where they stood, and
bundles are spliced. -/
inductive Arg.Mirrors : Arg → Term → Prop
  | term (t : Term) : Mirrors (.term t) t
  | value {d : Datum} {t : Term} : d.Mirrors t → Mirrors (.value d) t
  | array {items : List Arg} {ts : List Term} : (leavesOf items).length = ts.length →
      (∀ pair ∈ (leavesOf items).zip ts, Mirrors pair.1 pair.2) → Mirrors (.array items) (.array ts)
  | object {fields : Fields Arg} {ts : Fields Term} : Fields.names fields = Fields.names ts →
      (∀ pair ∈ fields.zip ts, Mirrors pair.1.2 pair.2.2) → Mirrors (.object fields) (.object ts)

theorem forall_mem_zip_of_forall₂ {α β : Type} {R S : α → β → Prop} {xs : List α} {ys : List β}
    (h : List.Forall₂ R xs ys) (hRS : ∀ x ∈ xs, ∀ y, R x y → S x y) :
    ∀ pair ∈ xs.zip ys, S pair.1 pair.2 := fun _ hpair =>
  hRS _ (List.of_mem_zip hpair).1 _ ((List.forall₂_iff_zip.mp h).2 hpair)

theorem Datum.mirrors_of_coerce {d : Datum} {t : Term} (h : d.coerce = .ok t) : d.Mirrors t := by
  induction d using Datum.induction generalizing t with
  | scalar d hscalar =>
      rw [coerce_scalar hscalar h]
      exact .scalar hscalar
  | array items ih =>
      obtain ⟨ts, hts, rfl⟩ := coerce_array_iff.mp h
      exact .array hts.length_eq (forall_mem_zip_of_forall₂ hts fun d hd _ => ih d hd)
  | object fields ih =>
      obtain ⟨ts, hts, rfl⟩ := coerce_object_iff.mp h
      exact .object hts.names_eq.symm
        (forall_mem_zip_of_forall₂ hts fun f hf _ hft => ih f hf hft.2)

theorem Arg.mirrors_of_coerce {a : Arg} {t : Term} (h : a.coerce = .ok t) : a.Mirrors t := by
  induction a using Arg.induction generalizing t with
  | term s =>
      obtain rfl := Except.ok.inj h
      exact .term s
  | value d => exact .value (Datum.mirrors_of_coerce h)
  | array items ih =>
      obtain ⟨ts, hts, rfl⟩ := coerce_array_iff.mp h
      exact .array hts.length_eq (forall_mem_zip_of_forall₂ hts fun a ha _ => ih a ha)
  | object fields ih =>
      obtain ⟨ts, hts, rfl⟩ := coerce_object_iff.mp h
      exact .object hts.names_eq.symm
        (forall_mem_zip_of_forall₂ hts fun f hf _ hft => ih f hf hft.2)
  | bundle items _ => cases h

/-! ### The report -/

theorem Arg.failure?_toTerm (a : Arg) :
    failure? a.toTerm = (a.ends.findSome? End.refusal?).map (Refusal.toError .value) := by
  rw [toTerm, coerceFrom, failure?_mapError, failure?_coerce]

theorem End.refusal?_eq_none_iff {e : End} : e.refusal? = none ↔ e.misfit? = none :=
  Option.map_eq_none_iff

/-- A value has a term exactly if all its ends have one, and the term has the
shape of the value. Otherwise the error is about the first end without a term,
and its place is written as the steps from the value to that end. -/
theorem Arg.toTerm_reports_first_misfit (a : Arg) :
    ((∃ t, a.toTerm = .ok t) ↔ ∀ e ∈ a.ends, e.misfit? = none) ∧
      (∀ t, a.toTerm = .ok t → a.Mirrors t) ∧
      ∀ before e after reason, a.ends = before ++ e :: after →
        (∀ other ∈ before, other.misfit? = none) → e.misfit? = some reason →
        ∃ place, a.toTerm = .error (.construction place reason) ∧ place.steps = e.steps ∧
          place.text = "$" ++ String.join (e.steps.map Step.text) := by
  refine ⟨?_, fun t h => mirrors_of_coerce (toTerm_eq_ok_iff.mp h), ?_⟩
  · rw [← failure?_eq_none_iff, failure?_toTerm, Option.map_eq_none_iff,
      List.findSome?_eq_none_iff]
    simp only [End.refusal?_eq_none_iff]
  · intro before e after reason hends hbefore he
    refine ⟨⟨.value, e.steps⟩, ?_, rfl, rfl⟩
    have hnone : before.findSome? End.refusal? = none :=
      List.findSome?_eq_none_iff.mpr fun other hother =>
        End.refusal?_eq_none_iff.mpr (hbefore other hother)
    have hrefusal : e.refusal? = some ⟨e.steps, reason⟩ := by
      rw [End.refusal?, he]
      rfl
    rw [← failure?_eq_some_iff, failure?_toTerm, hends, List.findSome?_append, hnone,
      Option.none_or, List.findSome?_cons, hrefusal]
    rfl

/-- Bundles with and without elements in an array, and in an object in it a list
with a number that is not finite and a bundle that no list takes up. -/
def Arg.spoiltList : Arg :=
  .array [.bundle [], .bundle [.value .null, .bundle [.term .implicitVar]],
    .object [("a", .value (.array [.null, .number .nan])), ("b", .bundle [])]]

/-- The ends before the number. -/
def Arg.beforeNaN : List End :=
  [⟨[.index 0], .value .null⟩, ⟨[.index 1], .term .implicitVar⟩,
    ⟨[.index 2, .key "a", .index 0], .value .null⟩]

/-- The object is the third element, since the first bundle has none and the
second one has two. Without the object there is a term. -/
theorem Arg.toTerm_reports_first_misfit_spoiltList :
    (spoiltList.ends = beforeNaN ++ ⟨[.index 2, .key "a", .index 1], .value (.number .nan)⟩ ::
          [⟨[.index 2, .key "b"], .bundle []⟩] ∧
        (∀ other ∈ beforeNaN, other.misfit? = none) ∧
        ∃ place, spoiltList.toTerm = .error (.construction place (.notFinite .nan)) ∧
          place.text = "$[2].a[1]") ∧
      (array [.bundle [], .term .implicitVar]).toTerm = .ok (.array [.implicitVar]) ∧
        (array [.bundle [], .term .implicitVar]).Mirrors (.array [.implicitVar]) := by
  have hends : spoiltList.ends =
      beforeNaN ++ ⟨[.index 2, .key "a", .index 1], .value (.number .nan)⟩ ::
        [⟨[.index 2, .key "b"], .bundle []⟩] := rfl
  have hbefore : ∀ other ∈ beforeNaN, other.misfit? = none := by
    simp [beforeNaN, End.misfit?]
  obtain ⟨place, herror, -, htext⟩ :=
    (toTerm_reports_first_misfit spoiltList).2.2 _ _ _ (.notFinite .nan) hends hbefore rfl
  have hok : (array [.bundle [], .term .implicitVar]).toTerm = .ok (.array [.implicitVar]) := rfl
  exact ⟨⟨hends, hbefore, place, herror, htext⟩, hok,
    (toTerm_reports_first_misfit _).2.1 _ hok⟩

end Reql
