import Mathlib.Data.Nat.Init
import Reql.Proofs.Wire.RoundTrip

/-!
JSON documents as data.

A document is sent as the term that builds it: scalars as they are, an array
as the operation that makes an array, and an object as the one that makes an
object. The document can be read off again, because what belongs to an
operation stands outside the two brackets of its arguments and options, and
what belongs to the document inside. An array that looks like an operation is
therefore not taken for one.
-/

namespace Reql

namespace Json

mutual

/-- `v.wireOf` is how a document is sent, and `unwire` reads the document off
that. -/
def wireOf : Json → Json
  | .array items => .array [.number (.integer 2 (by decide)), .array (wireItems items)]
  | .object [] => .array [.number (.integer 3 (by decide)), .array []]
  | .object fields =>
      .array [.number (.integer 3 (by decide)), .array [], .object (wireFields fields)]
  | v => v

def wireItems : List Json → List Json
  | [] => []
  | v :: rest => v.wireOf :: wireItems rest

def wireFields : List (String × Json) → List (String × Json)
  | [] => []
  | (name, v) :: rest => (name, v.wireOf) :: wireFields rest

end

mutual

def unwire : Json → Json
  | .array [.number (.integer 2 _), .array items] => .array (unwireItems items)
  | .array [.number (.integer 3 _), .array []] => .object []
  | .array [.number (.integer 3 _), .array [], .object fields] => .object (unwireFields fields)
  | v => v

def unwireItems : List Json → List Json
  | [] => []
  | v :: rest => v.unwire :: unwireItems rest

def unwireFields : List (String × Json) → List (String × Json)
  | [] => []
  | (name, v) :: rest => (name, v.unwire) :: unwireFields rest

end

theorem wireItems_eq_map (items : List Json) : wireItems items = items.map wireOf := by
  induction items with
  | nil => rfl
  | cons v rest ih => rw [wireItems, ih, List.map_cons]

theorem wireFields_eq_mapValues (fields : Fields Json) :
    wireFields fields = Fields.mapValues wireOf fields := by
  induction fields with
  | nil => rfl
  | cons f rest ih =>
      obtain ⟨name, v⟩ := f
      rw [wireFields, ih, Fields.mapValues_cons]

theorem wireOf_scalar {v : Json} (h : v.isScalar = true) : v.wireOf = v := by
  cases v with
  | array items => cases h
  | object fields => cases h
  | _ => rfl

theorem wireOf_array (items : List Json) :
    (array items).wireOf = assemble Kind.makeArray.numeral (items.map wireOf) [] := by
  rw [wireOf, wireItems_eq_map]
  rfl

theorem wireOf_object (fields : Fields Json) :
    (object fields).wireOf =
      assemble Kind.makeObj.numeral [] (Fields.mapValues wireOf fields) := by
  cases fields with
  | nil => rfl
  | cons f rest =>
      rw [wireOf, wireFields_eq_mapValues]
      · rfl
      · simp

mutual

theorem unwire_wireOf : ∀ v : Json, v.wireOf.unwire = v
  | .null => rfl
  | .bool _ => rfl
  | .number _ => rfl
  | .string _ => rfl
  | .array items => by rw [wireOf, unwire, unwireItems_wireItems items]
  | .object [] => rfl
  | .object ((name, v) :: rest) => by
      simp only [wireOf, wireFields, unwire, unwireFields, unwire_wireOf v,
        unwireFields_wireFields rest]

theorem unwireItems_wireItems : ∀ items : List Json, unwireItems (wireItems items) = items
  | [] => rfl
  | v :: rest => by
      rw [wireItems, unwireItems, unwire_wireOf v, unwireItems_wireItems rest]

theorem unwireFields_wireFields :
    ∀ fields : List (String × Json), unwireFields (wireFields fields) = fields
  | [] => rfl
  | (name, v) :: rest => by
      rw [wireFields, unwireFields, unwire_wireOf v, unwireFields_wireFields rest]

end

end Json

theorem Datum.coerce_ofJson_scalar {v : Json} (h : v.isScalar = true) :
    (ofJson v).coerce = .ok (.datum (ofJson v)) := by
  cases v with
  | number n =>
      cases n with
      | integer n inRange =>
          rw [ofJson, ofNumber]
          split
          · rfl
          · rfl
      | float x finite => exact if_pos finite
  | array items => cases h
  | object fields => cases h
  | _ => rfl

namespace Json

/-- `Builds v t`: the term that a document becomes has nothing to narrow and is
sent as `wireOf` says. -/
structure Builds (v : Json) (t : Term) : Prop where
  coerced : (Datum.ofJson v).coerce = .ok t
  sent : t.encode = .ok v.wireOf
  narrow : t.mapData Datum.narrow = t

theorem builds_scalar {v : Json} (h : v.isScalar = true) : Builds v (.datum (Datum.ofJson v)) := by
  have hsent : (Datum.ofJson v).toScalar? = some v := Datum.toScalar?_ofJson h
  refine ⟨Datum.coerce_ofJson_scalar h, ?_, ?_⟩
  · rw [wireOf_scalar h]
    exact Term.encode_datum_iff.mpr hsent
  · rw [Term.mapData, ← (Datum.ofJson_of_toScalar? hsent).2]

theorem builds_array {items : List Json} {ts : List Term} (h : List.Forall₂ Builds items ts) :
    Builds (.array items) (.array ts) := by
  have hcoerce : List.Forall₂ (fun d t => d.coerce = .ok t) (items.map Datum.ofJson) ts :=
    List.forall₂_map_left_iff.mpr (h.imp fun _ _ h => h.coerced)
  have hnarrow : ∀ t ∈ ts, t.mapData Datum.narrow = t := fun t ht =>
    let ⟨_, _, hvt⟩ := exists_left_of_forall₂ h t ht
    hvt.narrow
  refine ⟨?_, ?_, ?_⟩
  · rw [Datum.ofJson, Datum.ofJsonItems_eq_map]
    exact Datum.coerce_array_iff.mpr ⟨ts, hcoerce, rfl⟩
  · refine Term.encode_node_iff.mpr ⟨_, [], ?_, .nil, wireOf_array items⟩
    exact forall₂_map_of_forall₂ h fun v _ t hvt => hvt.sent
  · rw [Term.array, Term.mapData_node, List.map_congr_left hnarrow, List.map_id']
    rfl

theorem builds_object {fields : Fields Json} {ts : Fields Term}
    (h : Fields.Aligned Builds fields ts) : Builds (.object fields) (.object ts) := by
  have hcoerce : Fields.Aligned (fun d t => d.coerce = .ok t)
      (Fields.mapValues Datum.ofJson fields) ts :=
    Fields.aligned_mapValues_left_iff.mpr (h.imp fun _ _ h => ⟨h.1, h.2.coerced⟩)
  have hnarrow : ∀ o ∈ ts, o.2.mapData Datum.narrow = o.2 := fun o ho =>
    let ⟨_, _, hvt⟩ := h.exists_left o ho
    hvt.narrow
  refine ⟨?_, ?_, ?_⟩
  · rw [Datum.ofJson, Datum.ofJsonFields_eq_mapValues]
    exact Datum.coerce_object_iff.mpr ⟨ts, hcoerce, rfl⟩
  · refine Term.encode_node_iff.mpr ⟨[], _, .nil, ?_, wireOf_object fields⟩
    exact h.mapValues_right fun f _ t hvt => hvt.sent
  · rw [Term.object, Term.mapData_node, Fields.mapValues_eq_self hnarrow]
    rfl

theorem exists_builds (v : Json) : ∃ t, Builds v t := by
  induction v using Json.induction with
  | scalar v hscalar => exact ⟨_, builds_scalar hscalar⟩
  | array items ih =>
      obtain ⟨ts, hts⟩ := exists_forall₂_iff.mpr ih
      exact ⟨_, builds_array hts⟩
  | object fields ih =>
      obtain ⟨ts, hts⟩ := Fields.exists_aligned_iff.mpr ih
      exact ⟨_, builds_object hts⟩

/-- Every document becomes a term that crosses the wire and comes back as it
was, and documents that differ are sent differently. -/
theorem document_crosses :
    (∀ v : Json, v.Distinct → ∃ t, (Arg.value (Datum.ofJson v)).toTerm = .ok t ∧
      t.encode = .ok v.wireOf ∧ v.wireOf.decode = .ok t) ∧
    (∀ v : Json, v.wireOf.unwire = v) ∧ ∀ v w : Json, v.wireOf = w.wireOf → v = w := by
  refine ⟨fun v hv => ?_, unwire_wireOf, fun v w h => ?_⟩
  · obtain ⟨t, hcoerce, hencode, hnarrow⟩ := exists_builds v
    have hwell : t.WellFormed := Datum.coerce_wellFormed (Datum.distinct_ofJson hv) hcoerce
    refine ⟨t, Arg.toTerm_value_eq_ok_iff.mpr hcoerce, hencode, ?_⟩
    rw [Term.decode_of_encode hwell hencode, hnarrow]
  · rw [← unwire_wireOf v, h, unwire_wireOf]

/-- A document that reads as the table `x` if it is taken for an operation. -/
def likeOperation : Json := .array [Kind.table.numeral, .array [.string "x"]]

/-- The document is sent in a form of its own, and an array comes back. -/
theorem document_crosses_likeOperation :
    likeOperation.Distinct ∧
      likeOperation.decode = .ok (.node .table [.datum (.string "x")] []) ∧
      likeOperation.wireOf.decode =
        .ok (.array [.datum (.integer (.ofInt 15)), .array [.datum (.string "x")]]) := by
  have hdistinct : likeOperation.Distinct := by
    simp [likeOperation, Distinct, DistinctItems, Kind.numeral]
  obtain ⟨t, hterm, -, hdecode⟩ := document_crosses.1 likeOperation hdistinct
  have hbuilds : Builds likeOperation (.array [.datum (Datum.ofJson Kind.table.numeral),
      .array [.datum (.string "x")]]) :=
    builds_array (.cons (builds_scalar rfl)
      (.cons (builds_array (.cons (builds_scalar rfl) .nil)) .nil))
  have hnumber : Datum.ofJson Kind.table.numeral = .integer (.ofInt 15) := by
    have htag : Kind.table.tag = 15 := rfl
    simp [Kind.numeral, Datum.ofJson, Datum.ofNumber, htag, InSignedRange]
  obtain rfl := Except.ok.inj (hbuilds.coerced.symm.trans (Arg.toTerm_value_eq_ok_iff.mp hterm))
  rw [hnumber] at hdecode
  exact ⟨hdistinct, rfl, hdecode⟩

end Json
end Reql
