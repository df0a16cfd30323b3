import Reql.Proofs.Wire.RoundTrip

/-!
Equality of terms and of what is sent.

Two JSON values are the same when their numbers agree within each class, and
their objects give the same to every name, in whatever order. Encoding carries
equality of terms over to this relation and back. Nothing is lost on the way,
since a scalar, an operation without options and one with options are told
apart by their shape, and every kind has its own number. The one exception are
unsigned numbers that a signed one can hold, which are sent like the signed
one.
-/

namespace Reql

namespace Json

/-- `v.Same w` is the equality of JSON values. Integers are never equal to
floating-point numbers, zero is equal to its negative, and an object is looked
at by names. -/
inductive Same : Json → Json → Prop
  | null : Same .null .null
  | bool (b : Bool) : Same (.bool b) (.bool b)
  | integer (n : Int) (h : InWordRange n) :
      Same (.number (.integer n h)) (.number (.integer n h))
  | float {x y : Double} {hx : x.isFinite = true} {hy : y.isFinite = true} (h : x.same y = true) :
      Same (.number (.float x hx)) (.number (.float y hy))
  | string (s : String) : Same (.string s) (.string s)
  | array {vs ws : List Json} (h : List.Forall₂ Same vs ws) : Same (.array vs) (.array ws)
  | object {fs gs : Fields Json}
      (h : ∀ name, Option.Rel Same (Fields.get? fs name) (Fields.get? gs name)) :
      Same (.object fs) (.object gs)

theorem same_array_iff {vs ws : List Json} :
    Same (.array vs) (.array ws) ↔ List.Forall₂ Same vs ws := by
  constructor
  · rintro (_ | _ | _ | _ | _ | h | _)
    exact h
  · exact .array

theorem same_object_iff {fs gs : Fields Json} :
    Same (.object fs) (.object gs) ↔
      ∀ name, Option.Rel Same (Fields.get? fs name) (Fields.get? gs name) := by
  constructor
  · rintro (_ | _ | _ | _ | _ | _ | h)
    exact h
  · exact .object

theorem Same.isScalar_eq {v w : Json} (h : v.Same w) : v.isScalar = w.isScalar := by
  cases h <;> rfl

theorem Same.eq_of_integer {n : Int} {h : InWordRange n} {w : Json}
    (hw : Same (.number (.integer n h)) w) : w = .number (.integer n h) := by
  cases hw
  rfl

theorem same_numeral_iff {k k' : Kind} : Same k.numeral k'.numeral ↔ k = k' := by
  constructor
  · intro h
    have htag : (k'.tag : Int) = k.tag := by simpa [Kind.numeral] using h.eq_of_integer
    exact (Kind.tag_injective (Int.ofNat_inj.mp htag)).symm
  · rintro rfl
    exact .integer _ _

theorem same_assemble_iff {head head' : Json} {args args' : List Json}
    {options options' : Fields Json} :
    Same (assemble head args options) (assemble head' args' options') ↔
      Same head head' ∧ List.Forall₂ Same args args' ∧
        ∀ name, Option.Rel Same (Fields.get? options name) (Fields.get? options' name) := by
  have hnil : ∀ o : String × Json, ∀ rest,
      ¬ ∀ name, Option.Rel Same (Fields.get? [] name) (Fields.get? (o :: rest) name) := by
    rintro ⟨name, v⟩ rest h
    have := h name
    simp [Fields.get?] at this
  have hcons : ∀ o : String × Json, ∀ rest,
      ¬ ∀ name, Option.Rel Same (Fields.get? (o :: rest) name) (Fields.get? [] name) := by
    rintro ⟨name, v⟩ rest h
    have := h name
    simp [Fields.get?] at this
  cases options with
  | nil =>
      cases options' with
      | nil => simp [assemble, same_array_iff, Fields.get?]
      | cons o rest => simp [assemble, same_array_iff, hnil]
  | cons o rest =>
      cases options' with
      | nil => simp [assemble, same_array_iff, hcons]
      | cons o' rest' => simp [assemble, same_array_iff, same_object_iff]

end Json

/-! ### Data -/

namespace Datum

theorem same_of_toScalar? {d d' : Datum} {v w : Json} (hv : d.toScalar? = some v)
    (hw : d'.toScalar? = some w) (h : d.same d' = true) : v.Same w := by
  cases d with
  | null =>
      cases d' with
      | null =>
          cases hv
          cases hw
          exact .null
      | _ => cases h
  | boolean b =>
      cases d' with
      | boolean b' =>
          cases hv
          cases hw
          rw [eq_of_beq h]
          exact .bool b'
      | _ => cases h
  | integer n =>
      cases d' with
      | integer n' =>
          cases hv
          cases hw
          rw [eq_of_beq h]
          exact .integer _ _
      | _ => cases h
  | unsigned n =>
      cases d' with
      | unsigned n' =>
          cases hv
          cases hw
          rw [eq_of_beq h]
          exact .integer _ _
      | _ => cases h
  | number x =>
      cases d' with
      | number y =>
          obtain ⟨hx, rfl⟩ := toScalar?_number_eq_some hv
          obtain ⟨hy, rfl⟩ := toScalar?_number_eq_some hw
          exact .float h
      | _ => cases h
  | string s =>
      cases d' with
      | string s' =>
          cases hv
          cases hw
          rw [eq_of_beq h]
          exact .string s'
      | _ => cases h
  | array items => cases hv
  | object fields => cases hv

theorem same_ofJson {v w : Json} (hv : v.isScalar = true) (h : v.Same w) :
    (ofJson v).same (ofJson w) = true := by
  cases h with
  | null => rfl
  | bool b => exact beq_self_eq_true b
  | integer n hn =>
      rw [ofJson, ofNumber]
      split
      · exact beq_self_eq_true _
      · exact beq_self_eq_true _
  | float h => exact h
  | string s => exact beq_self_eq_true s
  | array h => cases hv
  | object h => cases hv

/-- Two data are equal if they are sent as the same value, provided that no
unsigned number fits a signed one. -/
theorem same_iff_same_toScalar? {d d' : Datum} {v w : Json} (hv : d.toScalar? = some v)
    (hw : d'.toScalar? = some w) (hd : d.narrow = d) (hd' : d'.narrow = d') :
    d.same d' = true ↔ v.Same w := by
  refine ⟨same_of_toScalar? hv hw, fun h => ?_⟩
  obtain ⟨hscalar, hdatum⟩ := ofJson_of_toScalar? hv
  have hdatum' := (ofJson_of_toScalar? hw).2
  rw [← hd, ← hd', ← hdatum, ← hdatum']
  exact same_ofJson hscalar h

end Datum

/-! ### Terms -/

namespace Term

/-- `t.UnsignedAreLarge`: no unsigned number in the term fits a signed one. -/
def UnsignedAreLarge (t : Term) : Prop :=
  ∀ n, .datum (.unsigned n) ∈ t.nodes → 9223372036854775808 ≤ n.toNat

theorem UnsignedAreLarge.arg {kind : Kind} {args : List Term} {options : Fields Term} {t : Term}
    (h : (node kind args options).UnsignedAreLarge) (ht : t ∈ args) : t.UnsignedAreLarge :=
  fun n hn => h n (mem_nodes_node.mpr (.inr (.inl ⟨t, ht, hn⟩)))

theorem UnsignedAreLarge.option {kind : Kind} {args : List Term} {options : Fields Term}
    {o : String × Term} (h : (node kind args options).UnsignedAreLarge) (ho : o ∈ options) :
    o.2.UnsignedAreLarge :=
  fun n hn => h n (mem_nodes_node.mpr (.inr (.inr ⟨o, ho, hn⟩)))

theorem UnsignedAreLarge.narrow_eq {d : Datum} (h : (datum d).UnsignedAreLarge) :
    d.narrow = d := by
  have hself := mapData_narrow_eq_self h
  rw [mapData] at hself
  exact (Term.datum.inj hself)

theorem sameArgs_iff {as bs : List Term} :
    sameArgs as bs = true ↔ List.Forall₂ (fun a b => a.same b = true) as bs := by
  induction as generalizing bs with
  | nil => cases bs <;> simp [sameArgs]
  | cons a as ih => cases bs <;> simp [sameArgs, ih]

theorem sameOptions_iff {os ps : Fields Term} :
    sameOptions os ps = true ↔
      ∀ o ∈ os, ∃ b, Fields.get? ps o.1 = some b ∧ o.2.same b = true := by
  induction os with
  | nil => simp [sameOptions]
  | cons o os ih =>
      obtain ⟨name, a⟩ := o
      rw [sameOptions, Bool.and_eq_true, ih, List.forall_mem_cons]
      cases Fields.get? ps name <;> simp

theorem same_node_iff {k k' : Kind} {as bs : List Term} {os ps : Fields Term}
    (hos : Fields.Distinct os) (hps : Fields.Distinct ps) :
    (node k as os).same (.node k' bs ps) = true ↔
      k = k' ∧ List.Forall₂ (fun a b => a.same b = true) as bs ∧
        ∀ name, Option.Rel (fun a b => a.same b = true)
          (Fields.get? os name) (Fields.get? ps name) := by
  rw [same, Bool.and_eq_true, Bool.and_eq_true, Bool.and_eq_true, beq_iff_eq, beq_iff_eq,
    sameArgs_iff, sameOptions_iff, Fields.rel_get?_iff hos hps, and_assoc]

theorem not_same_of_encode {a b : Term} {v w : Json} (hv : a.encode = .ok v)
    (hw : b.encode = .ok w) (h : a.datum?.isSome ≠ b.datum?.isSome) : ¬ v.Same w := fun hsame =>
  h (by rw [← isScalar_of_encode hv, ← isScalar_of_encode hw, hsame.isScalar_eq])

/-- Terms are equal exactly if they are sent as equal values, since
`UnsignedAreLarge` leaves no two data that are sent alike. -/
theorem same_iff_same_encode {a b : Term} {v w : Json} (ha : a.WellFormed) (hb : b.WellFormed)
    (hv : a.encode = .ok v) (hw : b.encode = .ok w) (hla : a.UnsignedAreLarge)
    (hlb : b.UnsignedAreLarge) : a.same b = true ↔ v.Same w := by
  induction a generalizing b v w with
  | datum d =>
      cases b with
      | datum d' =>
          exact Datum.same_iff_same_toScalar? (encode_datum_iff.mp hv) (encode_datum_iff.mp hw)
            hla.narrow_eq hlb.narrow_eq
      | node k' bs ps =>
          exact iff_of_false Bool.false_ne_true (not_same_of_encode hv hw Bool.false_ne_true.symm)
  | node k as os ihArgs ihOptions =>
      cases b with
      | datum d' =>
          exact iff_of_false Bool.false_ne_true (not_same_of_encode hv hw Bool.false_ne_true)
      | node k' bs ps =>
          obtain ⟨hroot, has, hos⟩ := wellFormed_node_iff.mp ha
          obtain ⟨hroot', hbs, hps⟩ := wellFormed_node_iff.mp hb
          obtain ⟨ws, ms, hws, hms, rfl⟩ := encode_node_iff.mp hv
          obtain ⟨ws', ms', hws', hms', rfl⟩ := encode_node_iff.mp hw
          have hargs : List.Forall₂ (fun a b => a.same b = true) as bs ↔
              List.Forall₂ Json.Same ws ws' :=
            forall₂_iff_of_forall₂ hws hws' fun a hmem b hmem' v w hv hw =>
              ihArgs a hmem (has a hmem) (hbs b hmem') hv hw (hla.arg hmem) (hlb.arg hmem')
          -- both sides look options up by name, so their order plays no role
          have hoptions : ∀ name, Option.Rel (fun a b => a.same b = true)
              (Fields.get? os name) (Fields.get? ps name) ↔
                Option.Rel Json.Same (Fields.get? ms name) (Fields.get? ms' name) :=
            Fields.rel_get?_iff_of_aligned hms hms' fun o hmem p hmem' v w hv hw =>
              ihOptions o hmem (hos o hmem) (hps p hmem') hv hw (hla.option hmem)
                (hlb.option hmem')
          rw [same_node_iff (lawful_node_iff.mp hroot).2.2.2 (lawful_node_iff.mp hroot').2.2.2,
            Json.same_assemble_iff, Json.same_numeral_iff, hargs, forall_congr' hoptions]

/-- An object with a zero and a one, and one in the other order with a negative
zero. -/
def zeroFirst : Term :=
  .object [("x", .datum (.number (.ofCode false 0))), ("y", .datum (.integer 1))]

def zeroLast : Term :=
  .object [("y", .datum (.integer 1)), ("x", .datum (.number (.ofCode true 0)))]

/-- As `zeroFirst`, with an integer zero. -/
def integerZero : Term := .object [("x", .datum (.integer 0)), ("y", .datum (.integer 1))]

theorem wellFormed_pair {x y : String} (h : x ≠ y) (d d' : Datum) :
    (object [(x, .datum d), (y, .datum d')]).WellFormed :=
  wellFormed_object (by simpa [Fields.Distinct] using h) (by simp [wellFormed_datum])

/-- The order and the sign make no difference, but the class of the number
does. -/
theorem same_iff_same_encode_zeros :
    ((zeroFirst.WellFormed ∧ zeroLast.WellFormed ∧ integerZero.WellFormed) ∧
        zeroFirst.UnsignedAreLarge ∧ zeroLast.UnsignedAreLarge ∧ integerZero.UnsignedAreLarge) ∧
      ∃ u v w, zeroFirst.encode = .ok u ∧ zeroLast.encode = .ok v ∧ integerZero.encode = .ok w ∧
        u.Same v ∧ ¬ u.Same w := by
  have hfirst : zeroFirst.WellFormed := wellFormed_pair (by decide) _ _
  have hlast : zeroLast.WellFormed := wellFormed_pair (by decide) _ _
  have hinteger : integerZero.WellFormed := wellFormed_pair (by decide) _ _
  have hfirst' : zeroFirst.UnsignedAreLarge := by
    simp [UnsignedAreLarge, zeroFirst, object, mem_nodes_node]
  have hlast' : zeroLast.UnsignedAreLarge := by
    simp [UnsignedAreLarge, zeroLast, object, mem_nodes_node]
  have hinteger' : integerZero.UnsignedAreLarge := by
    simp [UnsignedAreLarge, integerZero, object, mem_nodes_node]
  refine ⟨⟨⟨hfirst, hlast, hinteger⟩, hfirst', hlast', hinteger'⟩, _, _, _, rfl, rfl, rfl, ?_, ?_⟩
  · exact (same_iff_same_encode hfirst hlast rfl rfl hfirst' hlast').mp (by decide)
  · rw [← same_iff_same_encode hfirst hinteger rfl rfl hfirst' hinteger']
    decide

end Term

end Reql
