import Reql.Proofs.Json

/-!
The two ways from a JSON value to a datum, and the way back.

One way looks at the class of a number, the other one offers the value to one
kind of datum after the other. They come to the same datum because each kind
accepts only what it holds exactly, up to the kind of floating-point numbers,
which comes after both kinds of integers. The induction is on the value; at the
leaves nothing but the order of the trials matters.

The way back changes a datum only where it holds a number that is not finite,
or an unsigned number that a signed one can hold. No JSON value becomes such a
datum.
-/

namespace Reql.Datum

/-! ### Leaves -/

mutual

def scalars : Datum → List Datum
  | .array items => scalarsOfItems items
  | .object fields => scalarsOfFields fields
  | d => [d]

def scalarsOfItems : List Datum → List Datum
  | [] => []
  | d :: rest => d.scalars ++ scalarsOfItems rest

def scalarsOfFields : List (String × Datum) → List Datum
  | [] => []
  | (_, d) :: rest => d.scalars ++ scalarsOfFields rest

end

theorem mem_scalars_array {s : Datum} {items : List Datum} :
    s ∈ (array items).scalars ↔ ∃ d ∈ items, s ∈ d.scalars := by
  rw [scalars]
  induction items with
  | nil => simp [scalarsOfItems]
  | cons d rest ih => simp [scalarsOfItems, ih]

theorem mem_scalars_object {s : Datum} {fields : Fields Datum} :
    s ∈ (object fields).scalars ↔ ∃ f ∈ fields, s ∈ f.2.scalars := by
  rw [scalars]
  induction fields with
  | nil => simp [scalarsOfFields]
  | cons f rest ih =>
      obtain ⟨name, d⟩ := f
      simp [scalarsOfFields, ih]

/-- `d.Exact`: all numbers in `d` are finite, and the unsigned ones among them
are too large to be signed. -/
structure Exact (d : Datum) : Prop where
  finite : ∀ x, .number x ∈ d.scalars → x.isFinite = true
  large : ∀ n, .unsigned n ∈ d.scalars → 9223372036854775808 ≤ n.toNat

theorem exact_array_iff {items : List Datum} :
    (array items).Exact ↔ ∀ d ∈ items, d.Exact := by
  constructor
  · intro h d hd
    exact ⟨fun x hx => h.finite x (mem_scalars_array.mpr ⟨d, hd, hx⟩),
      fun n hn => h.large n (mem_scalars_array.mpr ⟨d, hd, hn⟩)⟩
  · intro h
    refine ⟨fun x hx => ?_, fun n hn => ?_⟩
    · obtain ⟨d, hd, hx⟩ := mem_scalars_array.mp hx
      exact (h d hd).finite x hx
    · obtain ⟨d, hd, hn⟩ := mem_scalars_array.mp hn
      exact (h d hd).large n hn

theorem exact_object_iff {fields : Fields Datum} :
    (object fields).Exact ↔ ∀ f ∈ fields, f.2.Exact := by
  constructor
  · intro h f hf
    exact ⟨fun x hx => h.finite x (mem_scalars_object.mpr ⟨f, hf, hx⟩),
      fun n hn => h.large n (mem_scalars_object.mpr ⟨f, hf, hn⟩)⟩
  · intro h
    refine ⟨fun x hx => ?_, fun n hn => ?_⟩
    · obtain ⟨f, hf, hx⟩ := mem_scalars_object.mp hx
      exact (h f hf).finite x hx
    · obtain ⟨f, hf, hn⟩ := mem_scalars_object.mp hn
      exact (h f hf).large n hn

theorem exact_scalar_iff {d : Datum} (hd : d.isScalar = true) :
    d.Exact ↔ ∃ w, d.toScalar? = some w ∧ d.narrow = d := by
  cases d with
  | number x =>
      have hfinite : (number x).Exact ↔ x.isFinite = true :=
        ⟨fun h => h.finite x (List.mem_singleton_self _),
          fun h => ⟨by simpa [scalars] using h, by simp [scalars]⟩⟩
      rw [hfinite]
      constructor
      · intro hx
        refine ⟨.number (.float x hx), ?_, rfl⟩
        rw [toScalar?, Json.Number.ofDouble?, dif_pos hx]
        rfl
      · rintro ⟨w, hw, -⟩
        exact (toScalar?_number_eq_some hw).1
  | unsigned n =>
      have hlarge : (unsigned n).Exact ↔ 9223372036854775808 ≤ n.toNat :=
        ⟨fun h => h.large n (List.mem_singleton_self _),
          fun h => ⟨by simp [scalars], by simpa [scalars] using h⟩⟩
      rw [hlarge]
      constructor
      · intro hn
        exact ⟨_, rfl, ofUInt64_of_le hn⟩
      · rintro ⟨-, -, hnarrow⟩
        by_contra hsmall
        rw [narrow, ofUInt64_of_lt (by omega)] at hnarrow
        cases hnarrow
  | array items => cases hd
  | object fields => cases hd
  | _ => exact iff_of_true ⟨by simp [scalars], by simp [scalars]⟩ ⟨_, rfl, rfl⟩

/-! ### The two ways to a datum -/

theorem readUntagged_of_trials {v : Json} {d : Datum}
    (h : (scalarTrials.findSome? fun trial => trial v) = some d) : readUntagged v = some d := by
  unfold readUntagged
  rw [h]
  rfl

theorem readUntagged_number (n : Json.Number) :
    readUntagged (.number n) = some (ofNumber n) := by
  refine readUntagged_of_trials ?_
  cases n with
  | integer n inRange =>
      by_cases hsigned : InSignedRange n
      · have hread : readInteger (.number (.integer n inRange)) = some (.integer (.ofInt n)) :=
          if_pos hsigned
        simp only [scalarTrials, List.findSome?_cons, readNull, readBoolean, hread, ofNumber,
          if_pos hsigned]
      · have hunsigned : InUnsignedRange n := by omega
        have hpass : readInteger (.number (.integer n inRange)) = none := if_neg hsigned
        have hread : readUnsigned (.number (.integer n inRange)) =
            some (.unsigned (.ofNat n.toNat)) := if_pos hunsigned
        simp only [scalarTrials, List.findSome?_cons, readNull, readBoolean, hpass, hread, ofNumber,
          if_neg hsigned]
  | float x finite => rfl

theorem readUntagged_scalar {v : Json} (h : v.isScalar = true) :
    readUntagged v = some (ofJson v) := by
  cases v with
  | number n => exact readUntagged_number n
  | array items => cases h
  | object fields => cases h
  | _ => rfl

theorem readUntaggedItems_eq {items : List Json}
    (h : ∀ v ∈ items, readUntagged v = some (ofJson v)) :
    readUntaggedItems items = some (ofJsonItems items) := by
  induction items with
  | nil => rfl
  | cons v rest ih =>
      obtain ⟨hv, hrest⟩ := List.forall_mem_cons.mp h
      rw [readUntaggedItems, hv, ih hrest]
      rfl

theorem readUntaggedFields_eq {fields : Fields Json}
    (h : ∀ f ∈ fields, readUntagged f.2 = some (ofJson f.2)) :
    readUntaggedFields fields = some (ofJsonFields fields) := by
  induction fields with
  | nil => rfl
  | cons f rest ih =>
      obtain ⟨name, v⟩ := f
      obtain ⟨hv, hrest⟩ := List.forall_mem_cons.mp h
      rw [readUntaggedFields, hv, ih hrest]
      rfl

/-- The first kind that accepts a value is the one of its class. -/
theorem readUntagged_eq (v : Json) : readUntagged v = some (ofJson v) := by
  induction v using Json.induction with
  | scalar v hscalar => exact readUntagged_scalar hscalar
  | array items ih =>
      have hscalars : (scalarTrials.findSome? fun trial => trial (.array items)) = none := rfl
      rw [readUntagged, hscalars, ofJson, ← Option.map_some, ← readUntaggedItems_eq ih]
      rfl
  | object fields ih =>
      have hscalars : (scalarTrials.findSome? fun trial => trial (.object fields)) = none := rfl
      rw [readUntagged, hscalars, ofJson, ← Option.map_some, ← readUntaggedFields_eq ih]
      rfl

/-! ### The way back -/

theorem toJsonItems_eq_map (items : List Datum) : toJsonItems items = items.map toJson := by
  induction items with
  | nil => rfl
  | cons d rest ih => rw [toJsonItems, ih, List.map_cons]

theorem toJsonFields_eq_mapValues (fields : Fields Datum) :
    toJsonFields fields = Fields.mapValues toJson fields := by
  induction fields with
  | nil => rfl
  | cons f rest ih =>
      obtain ⟨name, d⟩ := f
      rw [toJsonFields, ih, Fields.mapValues_cons]

theorem toJson_of_toScalar? {d : Datum} {w : Json} (h : d.toScalar? = some w) : d.toJson = w := by
  cases d with
  | number x =>
      obtain ⟨n, hn, rfl⟩ := Option.map_eq_some_iff.mp h
      rw [toJson, jsonOfDouble, hn]
  | array items => cases h
  | object fields => cases h
  | _ => exact Option.some.inj h

theorem toJson_ofJson (v : Json) : (ofJson v).toJson = v := by
  induction v using Json.induction with
  | scalar v hscalar => exact toJson_of_toScalar? (toScalar?_ofJson hscalar)
  | array items ih =>
      have hitems : ∀ v ∈ items, (toJson ∘ ofJson) v = id v := ih
      rw [ofJson, toJson, ofJsonItems_eq_map, toJsonItems_eq_map, List.map_map,
        List.map_congr_left hitems, List.map_id]
  | object fields ih =>
      rw [ofJson, toJson, ofJsonFields_eq_mapValues, toJsonFields_eq_mapValues,
        Fields.mapValues_mapValues, Fields.mapValues_eq_self ih]

theorem exact_ofJson (v : Json) : (ofJson v).Exact := by
  induction v using Json.induction with
  | scalar v hscalar =>
      have hsent : (ofJson v).toScalar? = some v := toScalar?_ofJson hscalar
      exact (exact_scalar_iff (isScalar_ofJson hscalar)).mpr
        ⟨v, hsent, (ofJson_of_toScalar? hsent).2.symm⟩
  | array items ih =>
      rw [ofJson, ofJsonItems_eq_map, exact_array_iff, List.forall_mem_map]
      exact ih
  | object fields ih =>
      rw [ofJson, ofJsonFields_eq_mapValues, exact_object_iff, Fields.mapValues,
        List.forall_mem_map]
      exact ih

theorem ofJson_toJson {d : Datum} (h : d.Exact) : ofJson d.toJson = d := by
  induction d using Datum.induction with
  | scalar d hscalar =>
      obtain ⟨w, hw, hnarrow⟩ := (exact_scalar_iff hscalar).mp h
      rw [toJson_of_toScalar? hw, (ofJson_of_toScalar? hw).2, hnarrow]
  | array items ih =>
      have hitems : ∀ d ∈ items, (ofJson ∘ toJson) d = id d := fun d hd =>
        ih d hd (exact_array_iff.mp h d hd)
      rw [toJson, ofJson, toJsonItems_eq_map, ofJsonItems_eq_map, List.map_map,
        List.map_congr_left hitems, List.map_id]
  | object fields ih =>
      have hfields : ∀ f ∈ fields, ofJson f.2.toJson = f.2 := fun f hf =>
        ih f hf (exact_object_iff.mp h f hf)
      rw [toJson, ofJson, toJsonFields_eq_mapValues, ofJsonFields_eq_mapValues,
        Fields.mapValues_mapValues, Fields.mapValues_eq_self hfields]

/-- Both ways lead from a JSON value to the same datum, from which the value
can be written again, members in order and integers as integers. In it an
unsigned number is too large to be signed, and the data that can be recovered
from their JSON form, on either way, are those that are exact. -/
theorem json_routes_agree :
    (∀ v : Json, readUntagged v = some (ofJson v) ∧ (ofJson v).toJson = v ∧
      ∀ n, .unsigned n ∈ (ofJson v).scalars → 9223372036854775808 ≤ n.toNat) ∧
    ∀ d : Datum, (∀ x, .number x ∈ d.scalars → x.isFinite = true) →
      (∀ n, .unsigned n ∈ d.scalars → 9223372036854775808 ≤ n.toNat) →
        ofJson d.toJson = d ∧ readUntagged d.toJson = some d := by
  refine ⟨fun v => ⟨readUntagged_eq v, toJson_ofJson v, (exact_ofJson v).large⟩, ?_⟩
  intro d hfinite hlarge
  have hback : ofJson d.toJson = d := ofJson_toJson ⟨hfinite, hlarge⟩
  refine ⟨hback, ?_⟩
  rw [readUntagged_eq, hback]

/-- A negative zero, a whole number and the greatest signed and the least
larger number, with the names out of order. -/
def edges : Datum :=
  .object [("z", .number (.ofCode true 0)),
    ("a", .array [.number (.ofInt 1), .integer Int64.maxValue, .unsigned 9223372036854775808]),
    ("m", .object [])]

/-- None of them changes on the way out and back. -/
theorem json_routes_agree_edges :
    ((∀ x, .number x ∈ edges.scalars → x.isFinite = true) ∧
      ∀ n, .unsigned n ∈ edges.scalars → 9223372036854775808 ≤ n.toNat) ∧
    ofJson edges.toJson = edges ∧ readUntagged edges.toJson = some edges := by
  have hfinite : ∀ x, .number x ∈ edges.scalars → x.isFinite = true := by
    simp [edges, scalars, scalarsOfFields, scalarsOfItems]
    decide
  have hlarge : ∀ n, .unsigned n ∈ edges.scalars → 9223372036854775808 ≤ n.toNat := by
    simp [edges, scalars, scalarsOfFields, scalarsOfItems]
  exact ⟨⟨hfinite, hlarge⟩, json_routes_agree.2 edges hfinite hlarge⟩

end Reql.Datum
