import Reql.Proofs.Wire.Decoding

/-!
The grammar of the wire format.

`Json.Accepted` says of a JSON value alone, without any decoding, when it is
a query, and `Json.reading` is the term that can be read off from it node by
node. The decoder accepts just these values and gives just these terms. For
the latter the objects have to be maps, that is, their names distinct.
-/

namespace Reql.Json

/-- `v.Accepted` is the grammar of the values that the decoder is to accept. -/
inductive Accepted : Json → Prop
  | scalar {v : Json} : v.isScalar = true → Accepted v
  | object {fields : Fields Json} : (∀ f ∈ fields, Accepted f.2) → Accepted (.object fields)
  /-- An array of the number of a kind, accepted arguments and accepted
  options, of which there are as many and with such names as the kind
  allows. -/
  | operation {items args : List Json} {options : Fields Json} {kind : Kind} :
      Parts items kind.numeral args options → kind ≠ .datum →
      (∀ v ∈ args, Accepted v) → (∀ o ∈ options, Accepted o.2) →
      kind.signature.arity.contains args.length = true →
      (∀ name ∈ Fields.names options, kind.signature.options.accepts name = true) →
      Accepted (.array items)

def headKind (head : Json) : Kind := (head.natural?.bind Kind.ofTag?).getD .datum

mutual

/-- `v.reading` is the term that can be read off from an accepted value. -/
def reading : Json → Term
  | .object fields => .node .makeObj [] (readingFields fields)
  | .array [head] => .node head.headKind [] []
  | .array [head, .array args] => .node head.headKind (readingItems args) []
  | .array [head, .array args, .object options] =>
      .node head.headKind (readingItems args) (readingFields options)
  | v => .datum (.ofJson v)

def readingItems : List Json → List Term
  | [] => []
  | v :: rest => v.reading :: readingItems rest

def readingFields : List (String × Json) → List (String × Term)
  | [] => []
  | (name, v) :: rest => (name, v.reading) :: readingFields rest

end

theorem readingItems_eq_map (items : List Json) : readingItems items = items.map reading := by
  induction items with
  | nil => rfl
  | cons v rest ih => rw [readingItems, ih, List.map_cons]

theorem readingFields_eq_mapValues (fields : Fields Json) :
    readingFields fields = Fields.mapValues reading fields := by
  induction fields with
  | nil => rfl
  | cons f rest ih =>
      obtain ⟨name, v⟩ := f
      rw [readingFields, ih, Fields.mapValues_cons]

theorem headKind_numeral (kind : Kind) : kind.numeral.headKind = kind := by
  have hn : kind.numeral.natural? = some kind.tag := natural?_eq_some_iff.mpr ⟨_, rfl⟩
  have hk : Kind.ofTag? kind.tag = some kind := Kind.ofTag?_eq_some_iff.mpr rfl
  rw [headKind, hn, Option.bind_some, hk, Option.getD_some]

theorem reading_scalar {v : Json} (h : v.isScalar = true) : v.reading = .datum (.ofJson v) := by
  cases v with
  | array items => cases h
  | object fields => cases h
  | _ => rfl

theorem reading_object (fields : Fields Json) :
    (object fields).reading = .object (Fields.mapValues reading fields) := by
  rw [reading, readingFields_eq_mapValues, Term.object]

theorem reading_array {items args : List Json} {options : Fields Json} {kind : Kind}
    (h : Parts items kind.numeral args options) :
    (array items).reading =
      .node kind (args.map reading) (Fields.mapValues reading options) := by
  cases h with
  | head => rw [reading, headKind_numeral]; rfl
  | args => rw [reading, headKind_numeral, readingItems_eq_map]; rfl
  | options =>
      rw [reading, headKind_numeral, readingItems_eq_map, readingFields_eq_mapValues]

theorem accepted_of_decode {v : Json} {t : Term} (h : v.decode = .ok t) : v.Accepted := by
  induction v using induction_parts generalizing t with
  | scalar v hscalar => exact .scalar hscalar
  | object fields ih =>
      obtain ⟨named, hnamed, -⟩ := decode_object_iff.mp h
      refine .object fun f hf => ?_
      obtain ⟨s, hs⟩ := Fields.exists_aligned_iff.mp ⟨named, hnamed⟩ f hf
      exact ih f hf hs
  | array items ih =>
      obtain ⟨kind, args, options, terms, named, hparts, hterms, hnamed, h⟩ :=
        decode_array_iff.mp h
      obtain ⟨hkind, harity, haccepted, -⟩ := makeOperation_eq_ok_iff.mp h
      obtain ⟨ihArgs, ihOptions⟩ := ih _ args options hparts
      rw [← hterms.length_eq] at harity
      rw [hnamed.names_eq] at haccepted
      refine .operation hparts hkind (fun v hv => ?_) (fun o ho => ?_) harity haccepted
      · obtain ⟨s, hs⟩ := exists_forall₂_iff.mp ⟨terms, hterms⟩ v hv
        exact ihArgs v hv hs
      · obtain ⟨s, hs⟩ := Fields.exists_aligned_iff.mp ⟨named, hnamed⟩ o ho
        exact ihOptions o ho hs

theorem Accepted.exists_decode {v : Json} (h : v.Accepted) : ∃ t, v.decode = .ok t := by
  induction h with
  | scalar hscalar => exact ⟨_, decode_scalar hscalar⟩
  | @object fields _ ih =>
      have hfields : ∃ named, Fields.Aligned (fun v t => v.decode = .ok t) fields named :=
        Fields.exists_aligned_iff.mpr ih
      obtain ⟨named, hnamed⟩ := hfields
      exact ⟨_, decode_object_iff.mpr ⟨named, hnamed, rfl⟩⟩
  | @operation items args options kind hparts hkind _ _ harity haccepted ihArgs ihOptions =>
      obtain ⟨terms, hterms⟩ := exists_forall₂_iff.mpr ihArgs
      have hoptions : ∃ named, Fields.Aligned (fun v t => v.decode = .ok t) options named :=
        Fields.exists_aligned_iff.mpr ihOptions
      obtain ⟨named, hnamed⟩ := hoptions
      rw [hterms.length_eq] at harity
      rw [← hnamed.names_eq] at haccepted
      have hmake : makeOperation kind terms named = .ok (.node kind terms (Fields.ofList named)) :=
        makeOperation_eq_ok_iff.mpr ⟨hkind, harity, haccepted, rfl⟩
      exact ⟨_, decode_array_iff.mpr
        ⟨kind, args, options, terms, named, hparts, hterms, hnamed, hmake⟩⟩

theorem eq_reading_of_decode {v : Json} {t : Term} (hv : v.Distinct) (h : v.decode = .ok t) :
    t = v.reading := by
  induction v using induction_parts generalizing t with
  | scalar v hscalar =>
      rw [decode_scalar hscalar] at h
      rw [reading_scalar hscalar, Except.ok.inj h]
  | object fields ih =>
      obtain ⟨hnames, hvalues⟩ := distinct_object_iff.mp hv
      obtain ⟨named, hnamed, rfl⟩ := decode_object_iff.mp h
      have heq : named = Fields.mapValues reading fields :=
        hnamed.eq_mapValues fun f hf t hft => ih f hf (hvalues f hf) hft
      rw [Fields.ofList_of_distinct (hnamed.distinct hnames), heq, reading_object]
  | array items ih =>
      obtain ⟨kind, args, options, terms, named, hparts, hterms, hnamed, h⟩ :=
        decode_array_iff.mp h
      obtain ⟨-, -, -, rfl⟩ := makeOperation_eq_ok_iff.mp h
      obtain ⟨ihArgs, ihOptions⟩ := ih _ args options hparts
      obtain ⟨hargs, hnames, hoptions⟩ := hparts.distinct hv
      have hterms : terms = args.map reading :=
        eq_map_of_forall₂ hterms fun v hmem t hvt => ihArgs v hmem (hargs v hmem) hvt
      have heq : named = Fields.mapValues reading options :=
        hnamed.eq_mapValues fun o ho t hot => ihOptions o ho (hoptions o ho) hot
      rw [Fields.ofList_of_distinct (hnamed.distinct hnames), hterms, heq, reading_array hparts]

/-- The decoder accepts the values of the grammar and no others, and gives the
term that can be read off. -/
theorem decode_iff_accepted :
    (∀ v : Json, (∃ t, v.decode = .ok t) ↔ v.Accepted) ∧
      ∀ v : Json, v.Distinct → ∀ t, v.decode = .ok t ↔ v.Accepted ∧ t = v.reading := by
  refine ⟨fun v => ⟨fun ⟨_, h⟩ => accepted_of_decode h, Accepted.exists_decode⟩, ?_⟩
  intro v hv t
  constructor
  · intro h
    exact ⟨accepted_of_decode h, eq_reading_of_decode hv h⟩
  · rintro ⟨haccepted, rfl⟩
    obtain ⟨t, h⟩ := haccepted.exists_decode
    rw [h, eq_reading_of_decode hv h]

/-- The sum of a number and of an object read as it stands. -/
def sumWithObject : Json :=
  .array [Kind.add.numeral, .array [.number (.ofUInt64 1), .object [("k", .null)]]]

theorem decode_sumWithObject :
    sumWithObject.Distinct ∧ sumWithObject.decode =
      .ok (.node .add [.datum (.ofNumber (.ofUInt64 1)), .object [("k", .datum .null)]] []) := by
  have hdistinct : sumWithObject.Distinct := by
    simp [sumWithObject, Distinct, DistinctItems, DistinctFields, Fields.Distinct, Kind.numeral]
  have hobject : Accepted (.object [("k", .null)]) :=
    .object (List.forall_mem_singleton.mpr (.scalar rfl))
  have haccepted : sumWithObject.Accepted :=
    .operation (.args _ _) (by decide)
      (List.forall_mem_cons.mpr ⟨.scalar rfl, List.forall_mem_singleton.mpr hobject⟩)
      (List.forall_mem_nil _) rfl (List.forall_mem_nil _)
  exact ⟨hdistinct, (decode_iff_accepted.2 _ hdistinct _).mpr ⟨haccepted, rfl⟩⟩

end Reql.Json
