import Reql.Proofs.Wire.RoundTrip

/-!
Canonical JSON values.

A query can be spelled in several ways: an object may stand for the operation
that builds it, empty options may be given or left out, and so may empty
arguments. `Json.canon` is the spelling of the encoder. It is a projection of
the accepted values onto those that the encoder writes.

An object is a map, which the type of its fields leaves open; `Json.Distinct`
says that no name occurs twice in it.
-/

namespace Reql

namespace Json

mutual

/-- `v.canon` is the canonical spelling. Objects become operations, arguments
are always written and options only if there are any. -/
def canon : Json → Json
  | .object fields => assemble Kind.makeObj.numeral [] (canonFields fields)
  | .array [head] => .array [head, .array []]
  | .array [head, .array args] => .array [head, .array (canonItems args)]
  | .array [head, .array args, .object options] =>
      assemble head (canonItems args) (canonFields options)
  | v => v

def canonItems : List Json → List Json
  | [] => []
  | v :: rest => v.canon :: canonItems rest

def canonFields : List (String × Json) → List (String × Json)
  | [] => []
  | (name, v) :: rest => (name, v.canon) :: canonFields rest

end

theorem canonItems_eq_map (items : List Json) : canonItems items = items.map canon := by
  induction items with
  | nil => rfl
  | cons v rest ih => rw [canonItems, ih, List.map_cons]

theorem canonFields_eq_mapValues (fields : Fields Json) :
    canonFields fields = Fields.mapValues canon fields := by
  induction fields with
  | nil => rfl
  | cons f rest ih =>
      obtain ⟨name, v⟩ := f
      rw [canonFields, ih, Fields.mapValues_cons]

theorem canon_scalar {v : Json} (h : v.isScalar = true) : v.canon = v := by
  cases v with
  | array items => cases h
  | object fields => cases h
  | _ => rfl

theorem canon_object (fields : Fields Json) :
    (object fields).canon =
      assemble Kind.makeObj.numeral [] (Fields.mapValues canon fields) := by
  rw [canon, canonFields_eq_mapValues]

theorem canon_array {items : List Json} {head : Json} {args : List Json} {options : Fields Json}
    (h : Parts items head args options) :
    (array items).canon = assemble head (args.map canon) (Fields.mapValues canon options) := by
  cases h with
  | head => rfl
  | args => rw [canon, canonItems_eq_map]; rfl
  | options => rw [canon, canonItems_eq_map, canonFields_eq_mapValues]

/-- A decoded term is encoded in the canonical spelling. -/
theorem encode_of_decode {v : Json} {t : Term} (hv : v.Distinct) (h : v.decode = .ok t) :
    t.encode = .ok v.canon := by
  induction v using induction_parts generalizing t with
  | scalar v hscalar =>
      rw [decode_scalar hscalar] at h
      obtain rfl := Except.ok.inj h
      rw [canon_scalar hscalar]
      exact Term.encode_datum_iff.mpr (Datum.toScalar?_ofJson hscalar)
  | object fields ih =>
      obtain ⟨hnames, hvalues⟩ := distinct_object_iff.mp hv
      obtain ⟨named, hnamed, rfl⟩ := decode_object_iff.mp h
      rw [Fields.ofList_of_distinct (hnamed.distinct hnames)]
      refine Term.encode_node_iff.mpr ⟨[], _, .nil, ?_, canon_object fields⟩
      exact hnamed.mapValues_right fun f hf t hft => ih f hf (hvalues f hf) hft
  | array items ih =>
      obtain ⟨kind, args, options, terms, named, hparts, hterms, hnamed, h⟩ :=
        decode_array_iff.mp h
      obtain ⟨-, -, -, rfl⟩ := makeOperation_eq_ok_iff.mp h
      obtain ⟨ihArgs, ihOptions⟩ := ih _ args options hparts
      obtain ⟨hargs, hnames, hoptions⟩ := hparts.distinct hv
      rw [Fields.ofList_of_distinct (hnamed.distinct hnames)]
      refine Term.encode_node_iff.mpr ⟨_, _, ?_, ?_, canon_array hparts⟩
      · exact forall₂_map_of_forall₂ hterms fun v hmem t hvt => ihArgs v hmem (hargs v hmem) hvt
      · exact hnamed.mapValues_right fun o ho t hot => ihOptions o ho (hoptions o ho) hot

/-- Decoding leaves nothing to narrow. -/
theorem mapData_narrow_of_decode {v : Json} {t : Term} (h : v.decode = .ok t) :
    t.mapData Datum.narrow = t := by
  refine @forall_of_decode (fun t => t.mapData Datum.narrow = t) ?_ ?_ v t h
  · intro v hscalar
    rw [Term.mapData, ← (Datum.ofJson_of_toScalar? (Datum.toScalar?_ofJson hscalar)).2]
  · intro kind args options _ hargs hoptions
    have hmap : args.map (Term.mapData Datum.narrow) = args :=
      (List.map_congr_left hargs).trans (List.map_id' args)
    rw [Term.mapData_node, hmap, Fields.mapValues_eq_self hoptions]

theorem decode_canon {v : Json} {t : Term} (hv : v.Distinct) (h : v.decode = .ok t) :
    v.canon.decode = .ok t := by
  rw [Term.decode_of_encode (decode_wellFormed h) (encode_of_decode hv h),
    mapData_narrow_of_decode h]

theorem distinct_canon {v : Json} {t : Term} (hv : v.Distinct) (h : v.decode = .ok t) :
    v.canon.Distinct :=
  Term.encode_distinct (decode_wellFormed h) (encode_of_decode hv h)

/-- Both spellings of a value stand for the same term, which is encoded in
only one way. -/
theorem canon_canon {v : Json} {t : Term} (hv : v.Distinct) (h : v.decode = .ok t) :
    v.canon.canon = v.canon := by
  have hfirst : t.encode = .ok v.canon := encode_of_decode hv h
  have hsecond : t.encode = .ok v.canon.canon :=
    encode_of_decode (distinct_canon hv h) (decode_canon hv h)
  exact Except.ok.inj (hsecond.symm.trans hfirst)

/-- Decoding and encoding again gives the canonical spelling, and what can be
written in this way are the accepted values that are canonical already. -/
theorem canon_projection :
    (∀ (v : Json) (t : Term), v.Distinct → v.decode = .ok t →
      t.encode = .ok v.canon ∧ v.canon.decode = .ok t ∧ v.canon.canon = v.canon) ∧
    ∀ w : Json, (∃ (v : Json) (t : Term), v.Distinct ∧ v.decode = .ok t ∧ t.encode = .ok w) ↔
      w.Distinct ∧ (∃ t, w.decode = .ok t) ∧ w.canon = w := by
  refine ⟨fun v t hv h => ⟨encode_of_decode hv h, decode_canon hv h, canon_canon hv h⟩, ?_⟩
  intro w
  constructor
  · rintro ⟨v, t, hv, hdecode, hencode⟩
    obtain rfl := Except.ok.inj ((encode_of_decode hv hdecode).symm.trans hencode)
    exact ⟨distinct_canon hv hdecode, ⟨t, decode_canon hv hdecode⟩, canon_canon hv hdecode⟩
  · rintro ⟨hw, ⟨t, hdecode⟩, hcanon⟩
    have hencode : t.encode = .ok w := by
      rw [encode_of_decode hw hdecode, hcanon]
    exact ⟨w, t, hw, hdecode, hencode⟩

/-- An object with an array of an empty object, for which empty options are
given. -/
def nestedSpellings : Json :=
  .object [("k", .array [Kind.makeArray.numeral, .array [.object []], .object []])]

theorem canon_nestedSpellings :
    (nestedSpellings.Distinct ∧
        nestedSpellings.decode = .ok (.object [("k", .array [.object []])])) ∧
      Term.encode (.object [("k", .array [.object []])]) = .ok (.array [Kind.makeObj.numeral,
        .array [], .object [("k", .array [Kind.makeArray.numeral,
          .array [.array [Kind.makeObj.numeral, .array []]]])]]) := by
  have hdistinct : nestedSpellings.Distinct := by
    simp [nestedSpellings, Distinct, DistinctItems, DistinctFields, Fields.Distinct, Kind.numeral]
  have hdecode : nestedSpellings.decode = .ok (.object [("k", .array [.object []])]) := rfl
  exact ⟨⟨hdistinct, hdecode⟩, (canon_projection.1 _ _ hdistinct hdecode).1⟩

end Json
end Reql
