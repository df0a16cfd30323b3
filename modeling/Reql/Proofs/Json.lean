import Reql.Native
import Reql.Proofs.Term.Coercion

/-!
JSON values and data.

A value that has been made from a typed one names no member of an object
twice, and neither does the datum of such a value. Typed values and data can
therefore be coerced without a further condition.

A scalar is sent as what it was read from. In the other direction one thing
changes: an unsigned number that a signed one can hold is read as the signed
one. `Datum.narrow` is this change.
-/

namespace Reql

namespace Json

/-- What holds of scalars, and of an array or object whenever it holds of its
parts, holds of all JSON values. -/
@[elab_as_elim]
theorem induction {P : Json → Prop} (scalar : ∀ v, v.isScalar = true → P v)
    (array : ∀ items, (∀ v ∈ items, P v) → P (.array items))
    (object : ∀ fields, (∀ f ∈ fields, P f.2) → P (.object fields)) (v : Json) : P v :=
  @Json.rec P (fun items => ∀ v ∈ items, P v) (fun fields => ∀ f ∈ fields, P f.2) (fun f => P f.2)
    (scalar _ rfl) (fun _ => scalar _ rfl) (fun _ => scalar _ rfl) (fun _ => scalar _ rfl)
    array object
    (List.forall_mem_nil _) (fun _ _ h hs => List.forall_mem_cons.mpr ⟨h, hs⟩)
    (List.forall_mem_nil _) (fun _ _ h hs => List.forall_mem_cons.mpr ⟨h, hs⟩)
    (fun _ _ h => h) v

theorem distinctItems_iff {items : List Json} :
    DistinctItems items ↔ ∀ v ∈ items, v.Distinct := by
  induction items with
  | nil => simp [DistinctItems]
  | cons v rest ih => simp [DistinctItems, ih]

theorem distinctFields_iff {fields : Fields Json} :
    DistinctFields fields ↔ ∀ f ∈ fields, f.2.Distinct := by
  induction fields with
  | nil => simp [DistinctFields]
  | cons f rest ih =>
      obtain ⟨name, v⟩ := f
      simp [DistinctFields, ih]

theorem distinct_of_isScalar {v : Json} (h : v.isScalar = true) : v.Distinct := by
  cases v with
  | array items => cases h
  | object fields => cases h
  | _ => trivial

theorem distinct_array_iff {items : List Json} :
    (array items).Distinct ↔ ∀ v ∈ items, v.Distinct :=
  distinctItems_iff

theorem distinct_object_iff {fields : Fields Json} :
    (object fields).Distinct ↔ Fields.Distinct fields ∧ ∀ f ∈ fields, f.2.Distinct := by
  rw [Distinct, distinctFields_iff]

theorem distinct_object_ofList {pairs : List (String × Json)}
    (h : ∀ pair ∈ pairs, pair.2.Distinct) : (object (Fields.ofList pairs)).Distinct :=
  distinct_object_iff.mpr ⟨Fields.distinct_ofList pairs, Fields.forall_mem_ofList h⟩

theorem distinct_object_singleton {name : String} {v : Json} (h : v.Distinct) :
    (object [(name, v)]).Distinct :=
  distinct_object_iff.mpr ⟨List.nodup_singleton name, List.forall_mem_singleton.mpr h⟩

end Json

/-! ### Data from JSON values -/

namespace Datum

theorem ofJsonItems_eq_map (items : List Json) : ofJsonItems items = items.map ofJson := by
  induction items with
  | nil => rfl
  | cons v rest ih => rw [ofJsonItems, ih, List.map_cons]

theorem ofJsonFields_eq_mapValues (fields : Fields Json) :
    ofJsonFields fields = Fields.mapValues ofJson fields := by
  induction fields with
  | nil => rfl
  | cons f rest ih =>
      obtain ⟨name, v⟩ := f
      rw [ofJsonFields, ih, Fields.mapValues_cons]

theorem isScalar_ofNumber (n : Json.Number) : (ofNumber n).isScalar = true := by
  cases n with
  | integer n inRange =>
      rw [ofNumber]
      split
      · rfl
      · rfl
  | float x finite => rfl

theorem isScalar_ofJson {v : Json} (h : v.isScalar = true) : (ofJson v).isScalar = true := by
  cases v with
  | number n => exact isScalar_ofNumber n
  | array items => cases h
  | object fields => cases h
  | _ => rfl

theorem distinct_of_isScalar {d : Datum} (h : d.isScalar = true) : d.Distinct := by
  cases d with
  | array items => cases h
  | object fields => cases h
  | _ => trivial

theorem distinct_ofJson {v : Json} (hv : v.Distinct) : (ofJson v).Distinct := by
  induction v using Json.induction with
  | scalar v hscalar =>
      cases v with
      | number n => exact distinct_of_isScalar (isScalar_ofNumber n)
      | array items => cases hscalar
      | object fields => cases hscalar
      | _ => trivial
  | array items ih =>
      rw [ofJson, ofJsonItems_eq_map, Distinct, distinctItems_iff, List.forall_mem_map]
      exact fun v hmem => ih v hmem (Json.distinct_array_iff.mp hv v hmem)
  | object fields ih =>
      obtain ⟨hnames, hvalues⟩ := Json.distinct_object_iff.mp hv
      rw [ofJson, ofJsonFields_eq_mapValues, Distinct, distinctFields_iff]
      refine ⟨Fields.distinct_mapValues hnames, ?_⟩
      rw [Fields.mapValues, List.forall_mem_map]
      exact fun f hmem => ih f hmem (hvalues f hmem)

/-! ### Scalars -/

/-- `d.narrow`: an unsigned number that fits a signed one becomes one.
Everything else stays as it is. -/
def narrow : Datum → Datum
  | .unsigned n => ofUInt64 n
  | d => d

theorem ofUInt64_of_lt {n : UInt64} (h : n.toNat < 9223372036854775808) :
    ofUInt64 n = .integer (Int64.ofInt n.toNat) := by
  have hrange : InSignedRange n.toNat := by omega
  unfold ofUInt64
  rw [if_pos hrange]

theorem ofUInt64_of_le {n : UInt64} (h : 9223372036854775808 ≤ n.toNat) :
    ofUInt64 n = .unsigned n := by
  have hrange : ¬ InSignedRange n.toNat := by omega
  unfold ofUInt64
  rw [if_neg hrange]

theorem ofNumber_ofInt64 (n : Int64) : ofNumber (.ofInt64 n) = .integer n := by
  have hrange : InSignedRange n.toInt := ⟨n.le_toInt, n.toInt_lt⟩
  rw [Json.Number.ofInt64, ofNumber, if_pos hrange, Int64.ofInt_toInt]

theorem ofNumber_ofUInt64 (n : UInt64) : ofNumber (.ofUInt64 n) = ofUInt64 n := by
  unfold Json.Number.ofUInt64 ofNumber ofUInt64
  by_cases hrange : InSignedRange n.toNat
  · simp only [if_pos hrange]
  · simp only [if_neg hrange, Int.toNat_natCast, UInt64.ofNat_toNat]

theorem toScalar?_ofNumber (n : Json.Number) : (ofNumber n).toScalar? = some (.number n) := by
  cases n with
  | integer n inRange =>
      rw [ofNumber]
      split
      · rename_i hsigned
        have hn : (Int64.ofInt n).toInt = n := Int64.toInt_ofInt_of_le hsigned.1 hsigned.2
        simp only [toScalar?, Json.Number.ofInt64, hn]
      · rename_i hunsigned
        have hn : ((UInt64.ofNat n.toNat).toNat : Int) = n := by
          rw [UInt64.toNat_ofNat']
          omega
        simp only [toScalar?, Json.Number.ofUInt64, hn]
  | float x finite => simp [ofNumber, toScalar?, Json.Number.ofDouble?, finite]

theorem toScalar?_ofJson {v : Json} (h : v.isScalar = true) : (ofJson v).toScalar? = some v := by
  cases v with
  | number n => exact toScalar?_ofNumber n
  | array items => cases h
  | object fields => cases h
  | _ => rfl

theorem toScalar?_number_eq_some {x : Double} {v : Json} (h : (number x).toScalar? = some v) :
    ∃ hx, v = .number (.float x hx) := by
  obtain ⟨n, hn, rfl⟩ := Option.map_eq_some_iff.mp h
  rw [Json.Number.ofDouble?] at hn
  split at hn
  · rename_i hx
    exact ⟨hx, congrArg _ (Option.some.inj hn).symm⟩
  · cases hn

/-- What a datum is sent as is a scalar, and its datum is the one that was
sent, narrowed. -/
theorem ofJson_of_toScalar? {d : Datum} {w : Json} (h : d.toScalar? = some w) :
    w.isScalar = true ∧ ofJson w = d.narrow := by
  cases d with
  | integer n =>
      obtain rfl := Option.some.inj h
      exact ⟨rfl, ofNumber_ofInt64 n⟩
  | unsigned n =>
      obtain rfl := Option.some.inj h
      exact ⟨rfl, ofNumber_ofUInt64 n⟩
  | number x =>
      obtain ⟨hx, rfl⟩ := toScalar?_number_eq_some h
      exact ⟨rfl, rfl⟩
  | array items => cases h
  | object fields => cases h
  | _ =>
      obtain rfl := Option.some.inj h
      exact ⟨rfl, rfl⟩

end Datum

/-! ### Typed values -/

namespace Native

theorem jsonOfDouble_distinct (x : Double) : (Datum.jsonOfDouble x).Distinct := by
  rw [Datum.jsonOfDouble]
  split
  · trivial
  · trivial

theorem jsonOfInt_distinct {n : Int} {json : Json} (h : jsonOfInt n = .ok json) :
    json.Distinct := by
  rw [jsonOfInt] at h
  split at h
  · rw [← Except.ok.inj h]
    trivial
  · cases h

mutual

theorem toJson_distinct {json : Json} : ∀ v : Native, v.toJson = .ok json → json.Distinct
  | .unit, h => by cases h; trivial
  | .bool _, h => by cases h; trivial
  | .integer _, h => jsonOfInt_distinct h
  | .float x, h => by cases h; exact jsonOfDouble_distinct x
  | .single x, h => by cases h; exact jsonOfDouble_distinct x.toDouble
  | .char _, h => by cases h; trivial
  | .string _, h => by cases h; trivial
  | .bytes bs, h => by
      cases h
      rw [Json.distinct_array_iff, List.forall_mem_map]
      exact fun _ _ => trivial
  | .present v, h => toJson_distinct v h
  | .newtype v, h => toJson_distinct v h
  | .sequence vs, h => by
      obtain ⟨items, hitems, rfl⟩ := bind_ok_eq_ok_iff.mp h
      exact Json.distinct_array_iff.mpr (toJsonItems_distinct vs hitems)
  | .map entries, h => by
      obtain ⟨members, hmembers, rfl⟩ := bind_ok_eq_ok_iff.mp h
      exact Json.distinct_object_ofList (toJsonEntries_distinct entries hmembers)
  | .struct fields, h => by
      obtain ⟨members, hmembers, rfl⟩ := bind_ok_eq_ok_iff.mp h
      exact Json.distinct_object_ofList (toJsonFields_distinct fields hmembers)
  | .unitVariant _, h => by cases h; trivial
  | .newtypeVariant _ v, h => by
      obtain ⟨content, hcontent, rfl⟩ := bind_ok_eq_ok_iff.mp h
      exact Json.distinct_object_singleton (toJson_distinct v hcontent)
  | .tupleVariant _ vs, h => by
      obtain ⟨items, hitems, rfl⟩ := bind_ok_eq_ok_iff.mp h
      exact Json.distinct_object_singleton
        (Json.distinct_array_iff.mpr (toJsonItems_distinct vs hitems))
  | .structVariant _ fields, h => by
      obtain ⟨members, hmembers, rfl⟩ := bind_ok_eq_ok_iff.mp h
      exact Json.distinct_object_singleton
        (Json.distinct_object_ofList (toJsonFields_distinct fields hmembers))

theorem toJsonItems_distinct {items : List Json} :
    ∀ vs : List Native, toJsonItems vs = .ok items → ∀ v ∈ items, v.Distinct
  | [], h => by cases h; exact List.forall_mem_nil _
  | v :: rest, h => by
      obtain ⟨item, more, hitem, hmore, rfl⟩ := bind_cons_eq_ok_iff.mp h
      exact List.forall_mem_cons.mpr ⟨toJson_distinct v hitem, toJsonItems_distinct rest hmore⟩

theorem toJsonEntries_distinct {members : List (String × Json)} :
    ∀ entries : List (Native × Native), toJsonEntries entries = .ok members →
      ∀ m ∈ members, m.2.Distinct
  | [], h => by cases h; exact List.forall_mem_nil _
  | (_, v) :: rest, h => by
      obtain ⟨name, -, h⟩ := bind_eq_ok_iff.mp h
      obtain ⟨member, more, hmember, hmore, rfl⟩ := bind_cons_eq_ok_iff.mp h
      exact List.forall_mem_cons.mpr
        ⟨toJson_distinct v hmember, toJsonEntries_distinct rest hmore⟩

theorem toJsonFields_distinct {members : List (String × Json)} :
    ∀ fields : List (String × Native), toJsonFields fields = .ok members →
      ∀ m ∈ members, m.2.Distinct
  | [], h => by cases h; exact List.forall_mem_nil _
  | (_, v) :: rest, h => by
      obtain ⟨member, more, hmember, hmore, rfl⟩ := bind_cons_eq_ok_iff.mp h
      exact List.forall_mem_cons.mpr
        ⟨toJson_distinct v hmember, toJsonFields_distinct rest hmore⟩

end

theorem toTerm_wellFormed {v : Native} {t : Term} (h : v.toTerm = .ok t) : t.WellFormed := by
  rw [toTerm] at h
  split at h
  · rename_i json hjson
    exact Datum.coerce_wellFormed (Datum.distinct_ofJson (toJson_distinct v hjson))
      (Arg.toTerm_eq_ok_iff.mp h)
  · cases h

end Native
end Reql
