import Reql.Proofs.Term.Obtained
import Reql.Proofs.Wire.Encoding

/-!
Decoding undoes encoding.

The decoder checks every operation against the catalog once more, so what it
needs is that the encoded term is well-formed; this is the invariant of all
terms that the library builds. The one thing that does not come back is the
type of an unsigned number that a signed one can hold.
-/

namespace Reql

namespace Term

/-- A well-formed term comes back from the wire with its data narrowed. -/
theorem decode_of_encode {t : Term} {w : Json} (ht : t.WellFormed) (h : t.encode = .ok w) :
    w.decode = .ok (t.mapData Datum.narrow) := by
  induction t generalizing w with
  | datum value =>
      obtain ⟨hscalar, hvalue⟩ := Datum.ofJson_of_toScalar? (encode_datum_iff.mp h)
      rw [Json.decode_scalar hscalar, hvalue, mapData]
  | node kind args options ihArgs ihOptions =>
      obtain ⟨hlawful, hargs, hoptions⟩ := wellFormed_node_iff.mp ht
      obtain ⟨hkind, harity, haccepted, hdistinct⟩ := lawful_node_iff.mp hlawful
      obtain ⟨ws, ms, hws, hms, rfl⟩ := encode_node_iff.mp h
      obtain ⟨items, hitems, hparts⟩ := Json.exists_parts_assemble kind.numeral ws ms
      have hterms : List.Forall₂ (fun v t => v.decode = .ok t) ws
          (args.map (mapData Datum.narrow)) :=
        forall₂_map_of_forall₂ hws fun t ht w htw => ihArgs t ht (hargs t ht) htw
      have hnamed : Fields.Aligned (fun v t => v.decode = .ok t) ms
          (Fields.mapValues (mapData Datum.narrow) options) :=
        hms.mapValues_right fun o ho m hom => ihOptions o ho (hoptions o ho) hom
      have hnames : Fields.names (Fields.mapValues (mapData Datum.narrow) options) =
          Fields.names options := Fields.names_mapValues _ _
      rw [hitems, mapData_node, Json.decode_array_iff]
      refine ⟨kind, ws, ms, _, _, hparts, hterms, hnamed, Json.makeOperation_eq_ok_iff.mpr ?_⟩
      rw [List.length_map, Fields.ofList_of_distinct (Fields.distinct_mapValues hdistinct), hnames]
      exact ⟨hkind, harity, haccepted, rfl⟩

theorem mapData_narrow_eq_self {t : Term}
    (h : ∀ n, .datum (.unsigned n) ∈ t.nodes → 9223372036854775808 ≤ n.toNat) :
    t.mapData Datum.narrow = t := by
  refine mapData_eq_self fun value hvalue => ?_
  cases value with
  | unsigned n => exact Datum.ofUInt64_of_le (h n hvalue)
  | _ => rfl

end Term

/-- A term that the library builds comes back from the wire as it was, but for
unsigned numbers that a signed one can hold, which come back signed. -/
theorem Obtainable.decode_encode {t : Term} {w : Json} (ht : Obtainable t)
    (h : t.encode = .ok w) :
    w.decode = .ok (t.mapData Datum.narrow) ∧
      ((∀ n, .datum (.unsigned n) ∈ t.nodes → 9223372036854775808 ≤ n.toNat) →
        w.decode = .ok t) := by
  have hdecode : w.decode = .ok (t.mapData Datum.narrow) :=
    Term.decode_of_encode ht.wellFormed h
  refine ⟨hdecode, fun hlarge => ?_⟩
  rw [hdecode, Term.mapData_narrow_eq_self hlarge]

/-- Five and the least number beyond the signed range. -/
def Term.unsignedPair : Term :=
  .array [.datum (.unsigned 5), .datum (.unsigned 9223372036854775808)]

/-- The first number comes back signed, and a table comes back as it was. -/
theorem decode_encode_unsignedPair :
    (Obtainable .unsignedPair ∧ Term.unsignedPair.encode = .ok (.array [Kind.makeArray.numeral,
        .array [.number (.ofUInt64 5), .number (.ofUInt64 9223372036854775808)]])) ∧
      Json.decode (.array [Kind.makeArray.numeral,
          .array [.number (.ofUInt64 5), .number (.ofUInt64 9223372036854775808)]]) =
        .ok (.array [.datum (.integer 5), .datum (.unsigned 9223372036854775808)]) ∧
      Json.decode (.array [Kind.table.numeral, .array [.string "users"]]) = .ok .users := by
  have hpool : Obtained [.unsignedPair] :=
    .next (.coerce (.array [.value (.unsigned 5), .value (.unsigned 9223372036854775808)]))
      .nothing ⟨trivial, trivial, trivial⟩
  have hobtainable : Obtainable .unsignedPair := ⟨_, hpool, List.mem_singleton_self _⟩
  have hpair : Term.unsignedPair.encode = .ok (.array [Kind.makeArray.numeral,
      .array [.number (.ofUInt64 5), .number (.ofUInt64 9223372036854775808)]]) := rfl
  have husers : Term.users.encode = .ok (.array [Kind.table.numeral, .array [.string "users"]]) :=
    rfl
  have hfive : Datum.narrow (.unsigned 5) = .integer 5 := Datum.ofUInt64_of_lt (by decide)
  have hlarge : Datum.narrow (.unsigned 9223372036854775808) = .unsigned 9223372036854775808 :=
    Datum.ofUInt64_of_le (by decide)
  refine ⟨⟨hobtainable, hpair⟩, ?_, ?_⟩
  · rw [(Obtainable.decode_encode hobtainable hpair).1, Term.unsignedPair,
      Term.array, Term.mapData_node, List.map_cons, List.map_singleton, Term.mapData,
      Term.mapData, hfive, hlarge]
    rfl
  · refine (Obtainable.decode_encode obtainable_users husers).2 fun n hn => ?_
    simp [Term.users, Term.nodes, Term.nodesOfArgs, Term.nodesOfOptions] at hn

end Reql
