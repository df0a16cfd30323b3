import Reql.Arg.Coerce
import Reql.Proofs.Fields
import Reql.Proofs.Term.Nodes

/-!
What coercion gives.

A successful coercion of a list gives one term for each of its leaves, in
order, and one of an object gives one term for each name. Both follow the
recursion of the functions once; everything else in this file is about single
values. In particular a coerced value is a well-formed term if the terms in
it are, provided that no object in it names a field twice.
-/

namespace Reql

/-! ### Data -/

namespace Datum

/-- What holds of scalars, and of an array or object whenever it holds of its
parts, holds of all data. -/
@[elab_as_elim]
theorem induction {P : Datum → Prop} (scalar : ∀ d, d.isScalar = true → P d)
    (array : ∀ items, (∀ d ∈ items, P d) → P (.array items))
    (object : ∀ fields, (∀ f ∈ fields, P f.2) → P (.object fields)) (d : Datum) : P d :=
  @Datum.rec P (fun items => ∀ d ∈ items, P d) (fun fields => ∀ f ∈ fields, P f.2) (fun f => P f.2)
    (scalar _ rfl) (fun _ => scalar _ rfl) (fun _ => scalar _ rfl) (fun _ => scalar _ rfl)
    (fun _ => scalar _ rfl) (fun _ => scalar _ rfl) array object
    (List.forall_mem_nil _) (fun _ _ h hs => List.forall_mem_cons.mpr ⟨h, hs⟩)
    (List.forall_mem_nil _) (fun _ _ h hs => List.forall_mem_cons.mpr ⟨h, hs⟩)
    (fun _ _ h => h) d

mutual

/-- `d.Distinct`: in every object of the datum the names are distinct. -/
def Distinct : Datum → Prop
  | .array items => DistinctItems items
  | .object fields => Fields.Distinct fields ∧ DistinctFields fields
  | .null => True
  | .boolean _ => True
  | .integer _ => True
  | .unsigned _ => True
  | .number _ => True
  | .string _ => True

def DistinctItems : List Datum → Prop
  | [] => True
  | d :: rest => d.Distinct ∧ DistinctItems rest

def DistinctFields : List (String × Datum) → Prop
  | [] => True
  | (_, d) :: rest => d.Distinct ∧ DistinctFields rest

end

theorem distinctItems_iff {items : List Datum} :
    DistinctItems items ↔ ∀ d ∈ items, d.Distinct := by
  induction items with
  | nil => simp [DistinctItems]
  | cons d rest ih => simp [DistinctItems, ih]

theorem distinctFields_iff {fields : Fields Datum} :
    DistinctFields fields ↔ ∀ f ∈ fields, f.2.Distinct := by
  induction fields with
  | nil => simp [DistinctFields]
  | cons f rest ih =>
      obtain ⟨name, d⟩ := f
      simp [DistinctFields, ih]

theorem coerceItems_eq_ok_iff {items : List Datum} {index : Nat} {ts : List Term} :
    coerceItems items index = .ok ts ↔ List.Forall₂ (fun d t => d.coerce = .ok t) items ts := by
  induction items generalizing index ts with
  | nil => simp [coerceItems, eq_comm]
  | cons d rest ih =>
      rw [coerceItems, bind_cons_eq_ok_iff, List.forall₂_cons_left_iff]
      simp only [Step.down, mapError_eq_ok_iff, ih]

theorem coerceFields_eq_ok_iff {fields : Fields Datum} {ts : Fields Term} :
    coerceFields fields = .ok ts ↔ Fields.Aligned (fun d t => d.coerce = .ok t) fields ts := by
  induction fields generalizing ts with
  | nil => simp [coerceFields, eq_comm]
  | cons f rest ih =>
      obtain ⟨name, d⟩ := f
      rw [coerceFields, bind_cons_eq_ok_iff, Fields.aligned_cons_left_iff]
      simp only [Step.down, mapError_eq_ok_iff, ih]

theorem coerce_scalar {d : Datum} {t : Term} (hd : d.isScalar = true) (h : d.coerce = .ok t) :
    t = .datum d := by
  cases d with
  | number x =>
      rw [coerce] at h
      split at h
      · exact (Except.ok.inj h).symm
      · cases h
  | array items => cases hd
  | object fields => cases hd
  | _ => exact (Except.ok.inj h).symm

theorem coerce_array_iff {items : List Datum} {t : Term} :
    (Datum.array items).coerce = .ok t ↔
      ∃ ts, List.Forall₂ (fun d t => d.coerce = .ok t) items ts ∧ t = .array ts := by
  simp only [coerce, bind_ok_eq_ok_iff, coerceItems_eq_ok_iff]

theorem coerce_object_iff {fields : Fields Datum} {t : Term} :
    (Datum.object fields).coerce = .ok t ↔
      ∃ ts, Fields.Aligned (fun d t => d.coerce = .ok t) fields ts ∧ t = .object ts := by
  simp only [coerce, bind_ok_eq_ok_iff, coerceFields_eq_ok_iff]

end Datum

/-! ### Terms of fixed shape -/

namespace Term

theorem wellFormed_array {items : List Term} (h : ∀ t ∈ items, t.WellFormed) :
    (array items).WellFormed := by
  refine wellFormed_node_iff.mpr ⟨lawful_node_iff.mpr ⟨by decide, rfl, ?_, ?_⟩, h, ?_⟩
  · intro name hname
    exact absurd hname List.not_mem_nil
  · exact Fields.distinct_nil
  · intro o ho
    exact absurd ho List.not_mem_nil

theorem wellFormed_object {fields : Fields Term} (hdistinct : Fields.Distinct fields)
    (h : ∀ o ∈ fields, o.2.WellFormed) : (object fields).WellFormed :=
  wellFormed_node_iff.mpr
    ⟨lawful_node_iff.mpr ⟨by decide, rfl, fun _ _ => rfl, hdistinct⟩, List.forall_mem_nil _, h⟩

theorem wellFormed_var (id : UInt64) : (var id).WellFormed :=
  wellFormed_node_iff.mpr ⟨lawful_node_iff.mpr
      ⟨by decide, rfl, List.forall_mem_nil _, Fields.distinct_nil⟩,
    List.forall_mem_singleton.mpr (wellFormed_datum _), List.forall_mem_nil _⟩

theorem wellFormed_implicitVar : implicitVar.WellFormed :=
  wellFormed_node_iff.mpr ⟨lawful_node_iff.mpr
      ⟨by decide, rfl, List.forall_mem_nil _, Fields.distinct_nil⟩,
    List.forall_mem_nil _, List.forall_mem_nil _⟩

end Term

theorem Datum.coerce_wellFormed {d : Datum} {t : Term} (hd : d.Distinct)
    (h : d.coerce = .ok t) : t.WellFormed := by
  induction d using Datum.induction generalizing t with
  | scalar d hscalar =>
      rw [coerce_scalar hscalar h]
      exact Term.wellFormed_datum d
  | array items ih =>
      obtain ⟨ts, hts, rfl⟩ := coerce_array_iff.mp h
      refine Term.wellFormed_array fun t ht => ?_
      obtain ⟨d, hmem, hdt⟩ := exists_left_of_forall₂ hts t ht
      exact ih d hmem (distinctItems_iff.mp hd d hmem) hdt
  | object fields ih =>
      obtain ⟨ts, hts, rfl⟩ := coerce_object_iff.mp h
      refine Term.wellFormed_object (hts.distinct hd.1) fun o ho => ?_
      obtain ⟨f, hmem, hft⟩ := hts.exists_left o ho
      exact ih f hmem (distinctFields_iff.mp hd.2 f hmem) hft

/-! ### Arguments -/

namespace Arg

/-- Induction over arguments. Bundles are seen through: the elements of an
array are its leaves. -/
@[elab_as_elim]
theorem induction {P : Arg → Prop} (term : ∀ t, P (.term t)) (value : ∀ d, P (.value d))
    (array : ∀ items, (∀ a ∈ leavesOf items, P a) → P (.array items))
    (object : ∀ fields, (∀ f ∈ fields, P f.2) → P (.object fields))
    (bundle : ∀ items, (∀ a ∈ leavesOf items, P a) → P (.bundle items)) (a : Arg) : P a := by
  have hleaf : ∀ a : Arg, a.leaves = [a] → P a → P a ∧ ∀ l ∈ a.leaves, P l := by
    intro a hleaves ha
    rw [hleaves]
    exact ⟨ha, List.forall_mem_singleton.mpr ha⟩
  -- a bundle has leaves of its own, so the hypothesis is about an argument and its leaves
  have hboth : P a ∧ ∀ l ∈ a.leaves, P l :=
    @Arg.rec (fun a => P a ∧ ∀ l ∈ a.leaves, P l) (fun items => ∀ l ∈ leavesOf items, P l)
      (fun fields => ∀ f ∈ fields, P f.2) (fun f => P f.2)
      (fun t => hleaf _ rfl (term t)) (fun d => hleaf _ rfl (value d))
      (fun items ih => hleaf _ rfl (array items ih))
      (fun fields ih => hleaf _ rfl (object fields ih))
      (fun items ih => ⟨bundle items ih, ih⟩)
      (List.forall_mem_nil _) (fun _ _ h hs => List.forall_mem_append.mpr ⟨h.2, hs⟩)
      (List.forall_mem_nil _) (fun _ _ h hs => List.forall_mem_cons.mpr ⟨h, hs⟩)
      (fun _ _ h => h.1) a
  exact hboth.1

mutual

/-- `a.Admissible P`: what can be given once the terms that satisfy `P` are at
hand. The terms in `a` satisfy `P`, and no object in it names a field twice. -/
def Admissible (P : Term → Prop) : Arg → Prop
  | .term t => P t
  | .value d => d.Distinct
  | .array items => AdmissibleItems P items
  | .object fields => Fields.Distinct fields ∧ AdmissibleFields P fields
  | .bundle items => AdmissibleItems P items

def AdmissibleItems (P : Term → Prop) : List Arg → Prop
  | [] => True
  | a :: rest => a.Admissible P ∧ AdmissibleItems P rest

def AdmissibleFields (P : Term → Prop) : List (String × Arg) → Prop
  | [] => True
  | (_, a) :: rest => a.Admissible P ∧ AdmissibleFields P rest

end

variable {P : Term → Prop}

theorem admissibleItems_iff {items : List Arg} :
    AdmissibleItems P items ↔ ∀ a ∈ items, a.Admissible P := by
  induction items with
  | nil => simp [AdmissibleItems]
  | cons a rest ih => simp [AdmissibleItems, ih]

theorem admissibleFields_iff {fields : Fields Arg} :
    AdmissibleFields P fields ↔ ∀ f ∈ fields, f.2.Admissible P := by
  induction fields with
  | nil => simp [AdmissibleFields]
  | cons f rest ih =>
      obtain ⟨name, a⟩ := f
      simp [AdmissibleFields, ih]

mutual

theorem admissible_leaves : ∀ a : Arg, a.Admissible P → ∀ l ∈ a.leaves, l.Admissible P
  | .bundle items, h => admissible_leavesOf items h
  | .term _, h => List.forall_mem_singleton.mpr h
  | .value _, h => List.forall_mem_singleton.mpr h
  | .array _, h => List.forall_mem_singleton.mpr h
  | .object _, h => List.forall_mem_singleton.mpr h

theorem admissible_leavesOf : ∀ items : List Arg, AdmissibleItems P items →
    ∀ l ∈ leavesOf items, l.Admissible P
  | [], _ => List.forall_mem_nil _
  | a :: rest, h =>
      List.forall_mem_append.mpr ⟨admissible_leaves a h.1, admissible_leavesOf rest h.2⟩

end

section Imp

variable {P Q : Term → Prop}

mutual

theorem Admissible.imp (hPQ : ∀ t, P t → Q t) : ∀ {a : Arg}, a.Admissible P → a.Admissible Q
  | .term t, h => hPQ t h
  | .value _, h => h
  | .array _, h => AdmissibleItems.imp hPQ h
  | .object _, h => ⟨h.1, AdmissibleFields.imp hPQ h.2⟩
  | .bundle _, h => AdmissibleItems.imp hPQ h

theorem AdmissibleItems.imp (hPQ : ∀ t, P t → Q t) :
    ∀ {items : List Arg}, AdmissibleItems P items → AdmissibleItems Q items
  | [], h => h
  | _ :: _, h => ⟨Admissible.imp hPQ h.1, AdmissibleItems.imp hPQ h.2⟩

theorem AdmissibleFields.imp (hPQ : ∀ t, P t → Q t) :
    ∀ {fields : List (String × Arg)}, AdmissibleFields P fields → AdmissibleFields Q fields
  | [], h => h
  | _ :: _, h => ⟨Admissible.imp hPQ h.1, AdmissibleFields.imp hPQ h.2⟩

end

end Imp

theorem leaves_eq_self {a : Arg} (h : ∀ items, a ≠ .bundle items) : a.leaves = [a] := by
  cases a with
  | bundle items => exact absurd rfl (h items)
  | _ => rfl

/-- An element that is no bundle is coerced like any other value. -/
theorem coerceElement_eq {a : Arg} (h : ∀ items, a ≠ .bundle items) (index : Nat) :
    a.coerceElement index = (do
      let t ← Step.down (.index index) a.coerce
      .ok [t]) := by
  cases a with
  | bundle items => exact absurd rfl (h items)
  | term t => rfl
  | _ => simp only [coerceElement, coerce]

theorem coerceElement_eq_ok_iff_of_ne {a : Arg} (h : ∀ items, a ≠ .bundle items) {index : Nat}
    {ts : List Term} :
    a.coerceElement index = .ok ts ↔ List.Forall₂ (fun a t => a.coerce = .ok t) a.leaves ts := by
  rw [coerceElement_eq h, leaves_eq_self h, bind_ok_eq_ok_iff, List.forall₂_cons_left_iff]
  simp [Step.down, mapError_eq_ok_iff]

mutual

theorem coerceElement_eq_ok_iff {ts : List Term} : ∀ (a : Arg) {index : Nat},
    a.coerceElement index = .ok ts ↔ List.Forall₂ (fun a t => a.coerce = .ok t) a.leaves ts
  | .bundle items, _ => coerceItems_eq_ok_iff items
  | .term _, _ => coerceElement_eq_ok_iff_of_ne (fun _ => Arg.noConfusion)
  | .value _, _ => coerceElement_eq_ok_iff_of_ne (fun _ => Arg.noConfusion)
  | .array _, _ => coerceElement_eq_ok_iff_of_ne (fun _ => Arg.noConfusion)
  | .object _, _ => coerceElement_eq_ok_iff_of_ne (fun _ => Arg.noConfusion)

/-- The elements of an array give the terms of their leaves, wherever the
count of the indices starts. -/
theorem coerceItems_eq_ok_iff {ts : List Term} : ∀ (items : List Arg) {index : Nat},
    coerceItems items index = .ok ts ↔
      List.Forall₂ (fun a t => a.coerce = .ok t) (leavesOf items) ts
  | [], _ => by simp [coerceItems, leavesOf, eq_comm]
  | a :: rest, index => by
      rw [coerceItems, leavesOf, forall₂_append_left_iff, bind_eq_ok_iff]
      simp only [bind_ok_eq_ok_iff, coerceElement_eq_ok_iff a, coerceItems_eq_ok_iff rest,
        exists_and_left]

end

theorem coerceFields_eq_ok_iff {fields : Fields Arg} {ts : Fields Term} :
    coerceFields fields = .ok ts ↔ Fields.Aligned (fun a t => a.coerce = .ok t) fields ts := by
  induction fields generalizing ts with
  | nil => simp [coerceFields, eq_comm]
  | cons f rest ih =>
      obtain ⟨name, a⟩ := f
      rw [coerceFields, bind_cons_eq_ok_iff, Fields.aligned_cons_left_iff]
      simp only [Step.down, mapError_eq_ok_iff, ih]

theorem coerce_array_iff {items : List Arg} {t : Term} :
    (Arg.array items).coerce = .ok t ↔
      ∃ ts, List.Forall₂ (fun a t => a.coerce = .ok t) (leavesOf items) ts ∧ t = .array ts := by
  simp only [coerce, bind_ok_eq_ok_iff, coerceItems_eq_ok_iff]

theorem coerce_object_iff {fields : Fields Arg} {t : Term} :
    (Arg.object fields).coerce = .ok t ↔
      ∃ ts, Fields.Aligned (fun a t => a.coerce = .ok t) fields ts ∧ t = .object ts := by
  simp only [coerce, bind_ok_eq_ok_iff, coerceFields_eq_ok_iff]

theorem coerce_wellFormed {a : Arg} {t : Term} (ha : a.Admissible Term.WellFormed)
    (h : a.coerce = .ok t) : t.WellFormed := by
  induction a using induction generalizing t with
  | term s =>
      rw [← Except.ok.inj h]
      exact ha
  | value d => exact Datum.coerce_wellFormed ha h
  | array items ih =>
      obtain ⟨ts, hts, rfl⟩ := coerce_array_iff.mp h
      refine Term.wellFormed_array fun t ht => ?_
      obtain ⟨l, hl, hlt⟩ := exists_left_of_forall₂ hts t ht
      exact ih l hl (admissible_leavesOf items ha l hl) hlt
  | object fields ih =>
      obtain ⟨ts, hts, rfl⟩ := coerce_object_iff.mp h
      refine Term.wellFormed_object (hts.distinct ha.1) fun o ho => ?_
      obtain ⟨f, hf, hft⟩ := hts.exists_left o ho
      exact ih f hf (admissibleFields_iff.mp ha.2 f hf) hft
  | bundle items => cases h

theorem toTerm_eq_ok_iff {a : Arg} {t : Term} : a.toTerm = .ok t ↔ a.coerce = .ok t :=
  mapError_eq_ok_iff

theorem toTerm_value_eq_ok_iff {d : Datum} {t : Term} :
    (value d).toTerm = .ok t ↔ d.coerce = .ok t :=
  toTerm_eq_ok_iff

end Arg
end Reql
