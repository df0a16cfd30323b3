import Mathlib.Data.List.Nodup
import Reql.Proofs.Json
import Reql.Proofs.Term.Making
import Reql.Wire.Decode

/-!
What the decoder accepts, one node at a time.

A scalar is a datum, an object is the operation that builds it, and an array
is an operation if its elements are the number of a kind, a list of arguments
and an object of options, the last two of which may be missing.
`Json.Parts` is this view of the elements, and `Json.induction_parts` is the
induction that goes with it: the children of an operation lie two levels
below its array.
-/

namespace Reql

/-! ### Numbers of kinds -/

namespace Kind

theorem tags_nodup : (all.map tag).Nodup := by decide +kernel

theorem tag_injective : Function.Injective tag := fun k l h =>
  List.inj_on_of_nodup_map tags_nodup (mem_all k) (mem_all l) h

theorem ofTag?_eq_some_iff {n : Nat} {k : Kind} : ofTag? n = some k ↔ k.tag = n := by
  have htag : ∀ {l : Kind}, ofTag? n = some l → l.tag = n := fun {l} h => by
    simpa using List.find?_some h
  constructor
  · exact htag
  · intro h
    have hfound : (ofTag? n).isSome = true :=
      List.find?_isSome.mpr ⟨k, mem_all k, beq_iff_eq.mpr h⟩
    obtain ⟨l, hl⟩ := Option.isSome_iff_exists.mp hfound
    rw [hl, tag_injective ((htag hl).trans h.symm)]

theorem tag_inWordRange (k : Kind) : InWordRange k.tag := by
  have h := k.tag_lt
  omega

def numeral (k : Kind) : Json := .number (.integer k.tag k.tag_inWordRange)

end Kind

namespace Json

theorem natural?_eq_some_iff {head : Json} {n : Nat} :
    head.natural? = some n ↔ ∃ h, head = .number (.integer n h) := by
  unfold natural?
  constructor
  · intro h
    split at h
    · rename_i m inRange
      split at h
      · have hm : (n : Int) = m := by
          have hn := Option.some.inj h
          omega
        subst hm
        exact ⟨inRange, rfl⟩
      · cases h
    · cases h
  · rintro ⟨h, rfl⟩
    simp

/-- The head of an operation is the number of its kind. Data are no
operations. -/
theorem operation_eq_ok_iff {head : Json} {k : Kind} :
    head.operation = .ok k ↔ head = k.numeral ∧ k ≠ .datum := by
  rw [operation]
  constructor
  · intro h
    split at h
    · cases h
    · rename_i n hn
      obtain ⟨inRange, rfl⟩ := natural?_eq_some_iff.mp hn
      split at h
      · cases h
      · cases h
      · rename_i l hne hl
        cases h
        obtain rfl := Kind.ofTag?_eq_some_iff.mp hl
        exact ⟨rfl, hne⟩
  · rintro ⟨rfl, hk⟩
    have hn : k.numeral.natural? = some k.tag := natural?_eq_some_iff.mpr ⟨_, rfl⟩
    have ht : Kind.ofTag? k.tag = some k := Kind.ofTag?_eq_some_iff.mpr rfl
    simp only [hn, ht]

/-! ### Operations from decoded children -/

/-- Decoded children stay as they are, so an operation is made of them when
the catalog accepts them. -/
theorem makeOperation_eq_ok_iff {kind : Kind} {args : List Term} {options : Fields Term}
    {t : Term} :
    makeOperation kind args options = .ok t ↔
      kind ≠ .datum ∧ kind.signature.arity.contains args.length = true ∧
        (∀ name ∈ Fields.names options, kind.signature.options.accepts name = true) ∧
        t = .node kind args (Fields.ofList options) := by
  have hmake : makeOperation kind args options = Term.make kind none
      (.ofList (args.map .term)) (.ofList (Fields.mapValues .term options)) := rfl
  rw [hmake, Term.make_eq_ok_iff, Arguments.freeze_ofList_terms]
  simp only [Options.freezeFor_ofList_terms_eq_ok_iff]
  constructor
  · rintro ⟨hkind, terms, named, hterms, ⟨haccepted, rfl⟩, harity, rfl⟩
    obtain rfl := Except.ok.inj hterms
    exact ⟨hkind, harity, haccepted, rfl⟩
  · rintro ⟨hkind, harity, haccepted, rfl⟩
    exact ⟨hkind, args, _, rfl, ⟨haccepted, rfl⟩, harity, rfl⟩

/-! ### The view of an array -/

/-- `Parts items head args options`: the elements of the array of an operation
are a head, the arguments and the options. What is missing is empty. -/
inductive Parts : List Json → Json → List Json → Fields Json → Prop
  | head (head : Json) : Parts [head] head [] []
  | args (head : Json) (args : List Json) : Parts [head, .array args] head args []
  | options (head : Json) (args : List Json) (options : Fields Json) :
      Parts [head, .array args, .object options] head args options

theorem Parts.distinct {items : List Json} {head : Json} {args : List Json}
    {options : Fields Json} (h : Parts items head args options) (hitems : (array items).Distinct) :
    (∀ v ∈ args, v.Distinct) ∧ Fields.Distinct options ∧ ∀ o ∈ options, o.2.Distinct := by
  have hmem := distinct_array_iff.mp hitems
  cases h with
  | head => exact ⟨List.forall_mem_nil _, Fields.distinct_nil, List.forall_mem_nil _⟩
  | args =>
      exact ⟨distinct_array_iff.mp (hmem (.array args) (by simp)), Fields.distinct_nil,
        List.forall_mem_nil _⟩
  | options =>
      exact ⟨distinct_array_iff.mp (hmem (.array args) (by simp)),
        distinct_object_iff.mp (hmem (.object options) (by simp))⟩

/-- What holds of scalars, of an object whenever it holds of its members, and
of an array whenever it holds of the arguments and options in it, holds of
all JSON values. -/
@[elab_as_elim]
theorem induction_parts {P : Json → Prop} (scalar : ∀ v, v.isScalar = true → P v)
    (object : ∀ fields, (∀ f ∈ fields, P f.2) → P (.object fields))
    (array : ∀ items, (∀ head args options, Parts items head args options →
      (∀ v ∈ args, P v) ∧ ∀ o ∈ options, P o.2) → P (.array items)) (v : Json) : P v := by
  -- an array is two levels above its arguments, so the hypothesis looks one level down
  have hboth : P v ∧ (∀ items, v = .array items → ∀ a ∈ items, P a) ∧
      ∀ fields, v = .object fields → ∀ f ∈ fields, P f.2 := by
    induction v using Json.induction with
    | scalar v hscalar =>
        refine ⟨scalar v hscalar, ?_, ?_⟩
        · rintro items rfl
          cases hscalar
        · rintro fields rfl
          cases hscalar
    | array items ih =>
        refine ⟨array items ?_, ?_, ?_⟩
        · rintro head args options hparts
          cases hparts with
          | head => exact ⟨List.forall_mem_nil _, List.forall_mem_nil _⟩
          | args =>
              exact ⟨(ih (.array args) (by simp)).2.1 args rfl, List.forall_mem_nil _⟩
          | options =>
              exact ⟨(ih (.array args) (by simp)).2.1 args rfl,
                (ih (.object options) (by simp)).2.2 options rfl⟩
        · rintro _ ⟨⟩ a ha
          exact (ih a ha).1
        · rintro _ ⟨⟩
    | object fields ih =>
        refine ⟨object fields fun f hf => (ih f hf).1, ?_, ?_⟩
        · rintro _ ⟨⟩
        · rintro _ ⟨⟩ f hf
          exact (ih f hf).1
  exact hboth.1

/-! ### Decoding -/

theorem decodeItems_eq_ok_iff {items : List Json} {index : Nat} {ts : List Term} :
    decodeItems items index = .ok ts ↔ List.Forall₂ (fun v t => v.decode = .ok t) items ts := by
  induction items generalizing index ts with
  | nil => simp [decodeItems, eq_comm]
  | cons v rest ih =>
      rw [decodeItems, bind_cons_eq_ok_iff, List.forall₂_cons_left_iff]
      simp only [mapError_eq_ok_iff, ih]

theorem decodeFields_eq_ok_iff {step : String → WireStep} {fields : Fields Json}
    {ts : Fields Term} :
    decodeFields step fields = .ok ts ↔ Fields.Aligned (fun v t => v.decode = .ok t) fields ts := by
  induction fields generalizing ts with
  | nil => simp [decodeFields, eq_comm]
  | cons f rest ih =>
      obtain ⟨name, v⟩ := f
      rw [decodeFields, bind_cons_eq_ok_iff, Fields.aligned_cons_left_iff]
      simp only [mapError_eq_ok_iff, ih]

theorem decode_scalar {v : Json} (h : v.isScalar = true) :
    v.decode = .ok (.datum (.ofJson v)) := by
  cases v with
  | array items => cases h
  | object fields => cases h
  | _ => rfl

theorem decode_object_iff {fields : Fields Json} {t : Term} :
    (object fields).decode = .ok t ↔
      ∃ named, Fields.Aligned (fun v t => v.decode = .ok t) fields named ∧
        t = .object (Fields.ofList named) := by
  rw [decode, bind_eq_ok_iff]
  simp only [decodeFields_eq_ok_iff, makeOperation_eq_ok_iff]
  refine exists_congr fun named => and_congr_right fun _ => ?_
  exact ⟨fun h => h.2.2.2, fun h => ⟨by decide, rfl, fun _ _ => rfl, h⟩⟩

theorem decodeArgs_eq_ok_iff {v : Json} {ts : List Term} :
    decodeArgs v = .ok ts ↔
      ∃ args, v = .array args ∧ List.Forall₂ (fun v t => v.decode = .ok t) args ts := by
  cases v <;> simp [decodeArgs, decodeItems_eq_ok_iff]

theorem decodeOptions_eq_ok_iff {v : Json} {ts : Fields Term} :
    decodeOptions v = .ok ts ↔
      ∃ options, v = .object options ∧
        Fields.Aligned (fun v t => v.decode = .ok t) options ts := by
  cases v <;> simp [decodeOptions, decodeFields_eq_ok_iff]

/-- An array is an operation if it has the parts of one and the catalog
accepts what they decode to. -/
theorem decode_array_iff {items : List Json} {t : Term} :
    (array items).decode = .ok t ↔
      ∃ kind args options terms named, Parts items (Kind.numeral kind) args options ∧
        List.Forall₂ (fun v t => v.decode = .ok t) args terms ∧
        Fields.Aligned (fun v t => v.decode = .ok t) options named ∧
        makeOperation kind terms named = .ok t := by
  constructor
  · intro h
    rcases items with _ | ⟨head, _ | ⟨second, _ | ⟨third, _ | ⟨_, _⟩⟩⟩⟩
    · cases h
    · obtain ⟨kind, hhead, hmake⟩ := bind_eq_ok_iff.mp h
      obtain ⟨rfl, -⟩ := operation_eq_ok_iff.mp hhead
      exact ⟨kind, [], [], [], [], .head _, .nil, .nil, hmake⟩
    · obtain ⟨kind, hhead, hrest⟩ := bind_eq_ok_iff.mp h
      obtain ⟨terms, hargs, hmake⟩ := bind_eq_ok_iff.mp hrest
      obtain ⟨rfl, -⟩ := operation_eq_ok_iff.mp hhead
      obtain ⟨args, rfl, hterms⟩ := decodeArgs_eq_ok_iff.mp hargs
      exact ⟨kind, args, [], terms, [], .args _ _, hterms, .nil, hmake⟩
    · obtain ⟨kind, hhead, hrest⟩ := bind_eq_ok_iff.mp h
      obtain ⟨terms, hargs, hrest⟩ := bind_eq_ok_iff.mp hrest
      obtain ⟨named, hoptions, hmake⟩ := bind_eq_ok_iff.mp hrest
      obtain ⟨rfl, -⟩ := operation_eq_ok_iff.mp hhead
      obtain ⟨args, rfl, hterms⟩ := decodeArgs_eq_ok_iff.mp hargs
      obtain ⟨options, rfl, hnamed⟩ := decodeOptions_eq_ok_iff.mp hoptions
      exact ⟨kind, args, options, terms, named, .options _ _ _, hterms, hnamed, hmake⟩
    · cases h
  · rintro ⟨kind, args, options, terms, named, hparts, hterms, hnamed, h⟩
    have hhead : kind.numeral.operation = .ok kind :=
      operation_eq_ok_iff.mpr ⟨rfl, (makeOperation_eq_ok_iff.mp h).1⟩
    have hargs : decodeArgs (.array args) = .ok terms :=
      decodeArgs_eq_ok_iff.mpr ⟨args, rfl, hterms⟩
    have hoptions : decodeOptions (.object options) = .ok named :=
      decodeOptions_eq_ok_iff.mpr ⟨options, rfl, hnamed⟩
    cases hparts with
    | head =>
        obtain rfl := List.forall₂_nil_left_iff.mp hterms
        obtain rfl := Fields.aligned_nil_left_iff.mp hnamed
        rw [decode, hhead]
        exact h
    | args =>
        obtain rfl := Fields.aligned_nil_left_iff.mp hnamed
        rw [decode, hhead, hargs]
        exact h
    | options =>
        rw [decode, hhead, hargs, hoptions]
        exact h

/-- What holds of the data of scalars, and of a lawful operation whenever it
holds of its children, holds of all decoded terms. -/
theorem forall_of_decode {P : Term → Prop}
    (scalar : ∀ v : Json, v.isScalar = true → P (.datum (.ofJson v)))
    (node : ∀ kind args options, (Term.node kind args options).Lawful → (∀ s ∈ args, P s) →
      (∀ o ∈ options, P o.2) → P (.node kind args options))
    {v : Json} {t : Term} (h : v.decode = .ok t) : P t := by
  induction v using induction_parts generalizing t with
  | scalar v hscalar =>
      rw [decode_scalar hscalar] at h
      obtain rfl := Except.ok.inj h
      exact scalar v hscalar
  | object fields ih =>
      obtain ⟨named, hnamed, rfl⟩ := decode_object_iff.mp h
      refine node _ _ _ ?_ (List.forall_mem_nil _) (Fields.forall_mem_ofList fun o ho => ?_)
      · exact Term.lawful_node_iff.mpr
          ⟨by decide, rfl, fun _ _ => rfl, Fields.distinct_ofList named⟩
      · obtain ⟨f, hf, hft⟩ := hnamed.exists_left o ho
        exact ih f hf hft
  | array items ih =>
      obtain ⟨kind, args, options, terms, named, hparts, hterms, hnamed, h⟩ :=
        decode_array_iff.mp h
      obtain ⟨hkind, harity, haccepted, rfl⟩ := makeOperation_eq_ok_iff.mp h
      obtain ⟨ihArgs, ihOptions⟩ := ih _ args options hparts
      refine node _ _ _ ?_ (fun s hs => ?_) (Fields.forall_mem_ofList fun o ho => ?_)
      · refine Term.lawful_node_iff.mpr ⟨hkind, harity, ?_, Fields.distinct_ofList named⟩
        intro name hname
        exact haccepted name (Fields.mem_names_ofList.mp hname)
      · obtain ⟨v, hv, hvs⟩ := exists_left_of_forall₂ hterms s hs
        exact ihArgs v hv hvs
      · obtain ⟨f, hf, hft⟩ := hnamed.exists_left o ho
        exact ihOptions f hf hft

/-- Decoded terms are well-formed, even if names occur twice on the wire. -/
theorem decode_wellFormed {v : Json} {t : Term} (h : v.decode = .ok t) : t.WellFormed := by
  refine forall_of_decode (fun _ _ => Term.wellFormed_datum _) ?_ h
  intro kind args options hlawful hargs hoptions
  exact Term.wellFormed_node_iff.mpr ⟨hlawful, hargs, hoptions⟩

end Json

theorem Term.ofText_wellFormed {text : String} {t : Term} (h : ofText text = .ok t) :
    t.WellFormed := by
  obtain ⟨json, -, hdecode⟩ := bind_eq_ok_iff.mp h
  exact Json.decode_wellFormed hdecode

end Reql
