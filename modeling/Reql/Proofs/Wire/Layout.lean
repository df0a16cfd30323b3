import Reql.Proofs.Wire.Equality
import Reql.Proofs.Wire.Sendable
import Reql.Proofs.Wire.Text

/-!
Equal terms and their texts.

Equality of terms looks options up by name and takes zero for its negative. The
encoder writes options in the order in which they stand, and the sign of a
zero. So terms that are equal need not have the same text. They do have it
exactly when they are laid out alike, which is a second comparison of the two
terms; together the two comparisons leave no difference.
-/

namespace Reql

/-! ### Layout -/

def Datum.sign? : Datum → Option Bool
  | .number x => some x.negative
  | _ => none

namespace Term

mutual

/-- `a.sameLayout b`: the same options in the same order at all nodes, and the
same signs of floating-point numbers. -/
def sameLayout : Term → Term → Bool
  | .datum d, .datum d' => d.sign? == d'.sign?
  | .node _ as os, .node _ bs ps => sameLayoutArgs as bs && sameLayoutOptions os ps
  | _, _ => false

def sameLayoutArgs : List Term → List Term → Bool
  | [], [] => true
  | a :: as, b :: bs => a.sameLayout b && sameLayoutArgs as bs
  | _, _ => false

def sameLayoutOptions : List (String × Term) → List (String × Term) → Bool
  | [], [] => true
  | (name, a) :: os, (name', b) :: ps =>
      name == name' && a.sameLayout b && sameLayoutOptions os ps
  | _, _ => false

end

theorem sameLayoutArgs_iff {as bs : List Term} :
    sameLayoutArgs as bs = true ↔ List.Forall₂ (fun a b => a.sameLayout b = true) as bs := by
  induction as generalizing bs with
  | nil => cases bs <;> simp [sameLayoutArgs]
  | cons a as ih => cases bs <;> simp [sameLayoutArgs, ih]

theorem sameLayoutOptions_iff {os ps : Fields Term} :
    sameLayoutOptions os ps = true ↔ Fields.Aligned (fun a b => a.sameLayout b = true) os ps := by
  induction os generalizing ps with
  | nil => cases ps <;> simp [sameLayoutOptions]
  | cons o os ih => cases ps <;> simp [sameLayoutOptions, Fields.Aligned, ih]

theorem sameLayout_node_iff {k k' : Kind} {as bs : List Term} {os ps : Fields Term} :
    (node k as os).sameLayout (.node k' bs ps) = true ↔
      List.Forall₂ (fun a b => a.sameLayout b = true) as bs ∧
        Fields.Aligned (fun a b => a.sameLayout b = true) os ps := by
  rw [sameLayout, Bool.and_eq_true, sameLayoutArgs_iff, sameLayoutOptions_iff]

end Term

/-! ### Nothing else is lost -/

theorem Double.eq_of_code {x y : Double} (hcode : x.code = y.code)
    (hsign : x.negative = y.negative) : x = y := by
  have hbits : x.bits.toNat = y.bits.toNat := by
    have hx := x.bits.toNat_lt
    have hy := y.bits.toNat_lt
    rw [negative, negative, decide_eq_decide] at hsign
    rw [code, code] at hcode
    simp only [signWeight] at *
    omega
  obtain ⟨bits⟩ := x
  obtain ⟨bits'⟩ := y
  exact congrArg Double.mk (UInt64.toNat_inj.mp hbits)

theorem Double.eq_of_same {x y : Double} (h : x.same y = true) (hsign : x.negative = y.negative) :
    x = y := by
  simp only [same, Bool.and_eq_true, Bool.or_eq_true, beq_iff_eq] at h
  refine eq_of_code ?_ hsign
  rcases h.2 with hbits | ⟨hx, hy⟩
  · rw [code, code, hbits]
  · rw [hx, hy]

theorem Datum.eq_of_same {d d' : Datum} (hd : d.isScalar = true) (h : d.same d' = true)
    (hsign : d.sign? = d'.sign?) : d = d' := by
  cases d with
  | null =>
      cases d' with
      | null => rfl
      | _ => cases h
  | boolean b =>
      cases d' with
      | boolean b' => rw [eq_of_beq h]
      | _ => cases h
  | integer n =>
      cases d' with
      | integer n' => rw [eq_of_beq h]
      | _ => cases h
  | unsigned n =>
      cases d' with
      | unsigned n' => rw [eq_of_beq h]
      | _ => cases h
  | number x =>
      cases d' with
      | number y => rw [Double.eq_of_same h (Option.some.inj hsign)]
      | _ => cases h
  | string s =>
      cases d' with
      | string s' => rw [eq_of_beq h]
      | _ => cases h
  | array items => exact absurd hd Bool.false_ne_true
  | object fields => exact absurd hd Bool.false_ne_true

namespace Term

/-- Terms that are equal and laid out alike are identical, if they can be
encoded. -/
theorem eq_of_same {a b : Term} (ha : a.WellFormed) (hb : b.WellFormed) (hsend : a.Sendable)
    (h : a.same b = true) (hlayout : a.sameLayout b = true) : a = b := by
  induction a generalizing b with
  | datum d =>
      cases b with
      | datum d' =>
          rw [Datum.eq_of_same (sendable_datum_iff.mp hsend).1 h (eq_of_beq hlayout)]
      | node k' bs ps => cases h
  | node k as os ihArgs ihOptions =>
      cases b with
      | datum d' => cases h
      | node k' bs ps =>
          obtain ⟨hroot, has, hos⟩ := wellFormed_node_iff.mp ha
          obtain ⟨hroot', hbs, hps⟩ := wellFormed_node_iff.mp hb
          obtain ⟨hasSend, hosSend⟩ := sendable_node_iff.mp hsend
          have hdistinct := (lawful_node_iff.mp hroot).2.2.2
          have hdistinct' := (lawful_node_iff.mp hroot').2.2.2
          obtain ⟨rfl, hsameArgs, hsameOptions⟩ := (same_node_iff hdistinct hdistinct').mp h
          obtain ⟨hargs, hoptions⟩ := sameLayout_node_iff.mp hlayout
          have hboth : List.Forall₂ (fun a b => a.same b = true ∧ a.sameLayout b = true) as bs :=
            .mp (fun _ _ => And.intro) hsameArgs hargs
          have heqArgs : as = bs := eq_of_forall₂ hboth fun a hmem b hmem' hab =>
            ihArgs a hmem (has a hmem) (hbs b hmem') (hasSend a hmem) hab.1 hab.2
          -- the layout gives the names in order, and equality the values by their names
          have heqOptions : os = ps := eq_of_forall₂ hoptions fun o hmem p hmem' hop => by
            have hsame := hsameOptions o.1
            rw [Fields.get?_of_mem hdistinct hmem, hop.1, Fields.get?_of_mem hdistinct' hmem',
              Option.rel_some_some] at hsame
            exact Prod.ext hop.1 (ihOptions o hmem (hos o hmem) (hps p hmem') (hosSend o hmem)
              hsame hop.2)
          rw [heqArgs, heqOptions]

end Term

/-! ### The same value, the same layout -/

theorem Datum.sign?_narrow (d : Datum) : d.narrow.sign? = d.sign? := by
  cases d with
  | unsigned n =>
      rcases Nat.lt_or_ge n.toNat 9223372036854775808 with h | h
      · rw [narrow, ofUInt64_of_lt h]
        rfl
      · rw [narrow, ofUInt64_of_le h]
  | _ => rfl

theorem Datum.sign?_eq_of_toScalar? {d d' : Datum} {w : Json} (hd : d.toScalar? = some w)
    (hd' : d'.toScalar? = some w) : d.sign? = d'.sign? := by
  rw [← d.sign?_narrow, ← d'.sign?_narrow, ← (ofJson_of_toScalar? hd).2,
    ← (ofJson_of_toScalar? hd').2]

namespace Json

theorem assemble_inj {head head' : Json} {args args' : List Json} {options options' : Fields Json}
    (h : assemble head args options = assemble head' args' options') :
    head = head' ∧ args = args' ∧ options = options' := by
  cases options <;> cases options' <;> simp [assemble] at h <;> simp [h]

/-- A value with distinct names is determined by its text. -/
theorem text_inj {v w : Json} (hv : v.Distinct) (hw : w.Distinct) (h : v.text = w.text) :
    v = w := by
  have hread : ∀ u : Json, u.Distinct → read u.text = .ok u := fun u hu => by
    rw [text, read_write hu .compact (fun _ _ c hc => by cases hc), List.all_nil, if_pos rfl]
  exact Except.ok.inj ((hread v hv).symm.trans (h ▸ hread w hw))

end Json

namespace Term

theorem sameLayout_of_encode {a b : Term} {w : Json} (ha : a.encode = .ok w)
    (hb : b.encode = .ok w) : a.sameLayout b = true := by
  induction a generalizing b w with
  | datum d =>
      cases b with
      | datum d' =>
          rw [sameLayout, beq_iff_eq]
          exact Datum.sign?_eq_of_toScalar? (encode_datum_iff.mp ha) (encode_datum_iff.mp hb)
      | node k' bs ps => cases (isScalar_of_encode ha).symm.trans (isScalar_of_encode hb)
  | node k as os ihArgs ihOptions =>
      cases b with
      | datum d' => cases (isScalar_of_encode ha).symm.trans (isScalar_of_encode hb)
      | node k' bs ps =>
          obtain ⟨ws, ms, hws, hms, rfl⟩ := encode_node_iff.mp ha
          obtain ⟨ws', ms', hws', hms', heq⟩ := encode_node_iff.mp hb
          obtain ⟨-, rfl, rfl⟩ := Json.assemble_inj heq
          refine sameLayout_node_iff.mpr ⟨?_, ?_⟩
          · exact forall₂_of_common_right hws hws' fun a hmem b w => ihArgs a hmem
          · exact forall₂_of_common_right hms hms' fun o hmem p m ho hp =>
              ⟨ho.1.trans hp.1.symm, ihOptions o hmem ho.2 hp.2⟩

/-! ### Texts -/

/-- Equal terms have the same text exactly when they are laid out alike. -/
theorem same_text_iff_sameLayout {e : Encoder} {a b : Term} {u v : String} (ha : a.WellFormed)
    (hb : b.WellFormed) (hu : e.encodeText a = .ok u) (hv : e.encodeText b = .ok v)
    (h : a.same b = true) : u = v ↔ a.sameLayout b = true := by
  obtain ⟨x, hx, hxu⟩ := bind_eq_ok_iff.mp hu
  obtain ⟨y, hy, hyv⟩ := bind_eq_ok_iff.mp hv
  obtain rfl := Except.ok.inj hxu
  obtain rfl := Except.ok.inj hyv
  have hax : a.encode = .ok x := (Encoder.encode_eq_ok_iff.mp hx).1
  have hby : b.encode = .ok y := (Encoder.encode_eq_ok_iff.mp hy).1
  constructor
  · intro htext
    obtain rfl := Json.text_inj (encode_distinct ha hax) (encode_distinct hb hby) htext
    exact sameLayout_of_encode hax hby
  · intro hlayout
    obtain rfl := eq_of_same ha hb (exists_encode_iff.mp ⟨x, hax⟩) h hlayout
    rw [Except.ok.inj (hx.symm.trans hy)]

/-- An object, and the same one with its options in the other order. -/
def oneTwo : Term := .object [("a", .datum (.integer 1)), ("b", .datum (.integer 2))]

def twoOne : Term := .object [("b", .datum (.integer 2)), ("a", .datum (.integer 1))]

/-- The order of the options can be read off the texts. -/
theorem same_text_iff_sameLayout_oneTwo :
    (oneTwo.WellFormed ∧ twoOne.WellFormed ∧ oneTwo.same twoOne = true) ∧
      ∃ u v, Encoder.encodeText {} oneTwo = .ok u ∧ Encoder.encodeText {} twoOne = .ok v ∧
        (u = v ↔ oneTwo.sameLayout twoOne = true) ∧ u ≠ v := by
  have hone : oneTwo.WellFormed := wellFormed_pair (by decide) _ _
  have htwo : twoOne.WellFormed := wellFormed_pair (by decide) _ _
  have hsame : oneTwo.same twoOne = true := by decide
  have hlayout : ¬ oneTwo.sameLayout twoOne = true := by decide
  have htexts := same_text_iff_sameLayout (e := {}) hone htwo rfl rfl hsame
  exact ⟨⟨hone, htwo, hsame⟩, _, _, rfl, rfl, htexts, fun h => hlayout (htexts.mp h)⟩

/-- Equality does not determine the text: the options can stand in another
order, and a zero can be negative. -/
theorem same_with_different_texts :
    (oneTwo.same twoOne = true ∧
      Encoder.encodeText {} oneTwo = .ok "[3,[],\x7b\"a\":1,\"b\":2\x7d]" ∧
      Encoder.encodeText {} twoOne = .ok "[3,[],\x7b\"b\":2,\"a\":1\x7d]") ∧
    (datum (.number (.ofCode false 0))).same (.datum (.number (.ofCode true 0))) = true ∧
      Encoder.encodeText {} (.datum (.number (.ofCode false 0))) = .ok "0.0" ∧
      Encoder.encodeText {} (.datum (.number (.ofCode true 0))) = .ok "-0.0" := by
  have htext : ∀ {t : Term} {w : Json} {s : String}, t.encode = .ok w → w.text = s →
      Encoder.encodeText {} t = .ok s := by
    intro t w s hw hs
    rw [← hs]
    exact bind_eq_ok_iff.mpr ⟨w, hw, rfl⟩
  refine ⟨⟨by decide, ?_, ?_⟩, by decide, ?_, ?_⟩
  · exact htext rfl (by decide)
  · exact htext rfl (by decide)
  · exact htext rfl (by decide)
  · exact htext rfl (by decide)

end Term

end Reql
