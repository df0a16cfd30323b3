import Reql.Proofs.Wire.Decoding
import Reql.Wire.Encode

/-!
What the encoder writes, one node at a time.

Without a limit the depth of a node plays no role, so a node is encoded from
the encodings of its children. The result is the array that `Json.assemble`
puts together, which the decoder takes apart into the same pieces again.
-/

namespace Reql

namespace Json

/-- `assemble head args options` is the array of an operation, without an
object of options if there are none. -/
def assemble (head : Json) (args : List Json) (options : Fields Json) : Json :=
  match options with
  | [] => .array [head, .array args]
  | _ :: _ => .array [head, .array args, .object options]

theorem exists_parts_assemble (head : Json) (args : List Json) (options : Fields Json) :
    ∃ items, assemble head args options = .array items ∧ Parts items head args options := by
  cases options with
  | nil => exact ⟨_, rfl, .args head args⟩
  | cons o rest => exact ⟨_, rfl, .options head args (o :: rest)⟩

theorem isScalar_assemble (head : Json) (args : List Json) (options : Fields Json) :
    (assemble head args options).isScalar = false := by
  cases options <;> rfl

theorem distinct_assemble {head : Json} {args : List Json} {options : Fields Json}
    (hhead : head.Distinct) (hargs : ∀ v ∈ args, v.Distinct) (hnames : Fields.Distinct options)
    (hoptions : ∀ o ∈ options, o.2.Distinct) : (assemble head args options).Distinct := by
  have hlist : (array args).Distinct := distinct_array_iff.mpr hargs
  have hobject : (object options).Distinct := distinct_object_iff.mpr ⟨hnames, hoptions⟩
  obtain ⟨items, heq, hparts⟩ := exists_parts_assemble head args options
  rw [heq, distinct_array_iff]
  cases hparts with
  | head => simpa using hhead
  | args => simpa using ⟨hhead, hlist⟩
  | options => simpa using ⟨hhead, hlist, hobject⟩

end Json

namespace Encoder

theorem nodeJson_eq_assemble (kind : Kind) (args : List Json) (options : Fields Json) :
    nodeJson kind args options = .assemble kind.numeral args options := by
  cases options <;> rfl

/-! ### Children -/

variable {e : Encoder} {parent : Kind}

theorem encodeArgs_eq_ok_iff {args : List Term} {index depth : Nat} {ws : List Json} :
    e.encodeArgs parent args index depth = .ok ws ↔
      List.Forall₂ (fun t w => e.encodeAt t depth = .ok w) args ws := by
  induction args generalizing index ws with
  | nil => simp [encodeArgs, eq_comm]
  | cons t rest ih =>
      rw [encodeArgs, bind_cons_eq_ok_iff, List.forall₂_cons_left_iff]
      simp only [mapError_eq_ok_iff, ih]

theorem encodeOptions_eq_ok_iff {options : Fields Term} {depth : Nat} {ws : Fields Json} :
    e.encodeOptions parent options depth = .ok ws ↔
      Fields.Aligned (fun t w => e.encodeAt t depth = .ok w) options ws := by
  induction options generalizing ws with
  | nil => simp [encodeOptions, eq_comm]
  | cons o rest ih =>
      obtain ⟨name, t⟩ := o
      rw [encodeOptions, bind_cons_eq_ok_iff, Fields.aligned_cons_left_iff]
      simp only [mapError_eq_ok_iff, ih]

/-- The error of a walk over the arguments is that of one of them, with its
place. -/
theorem error_of_encodeArgs {P : Error → Prop} {args : List Term} {index depth : Nat} {x : Error}
    (h : ∀ t ∈ args, ∀ y, e.encodeAt t depth = .error y →
      ∀ position, P (y.locate parent position t.kind))
    (hx : e.encodeArgs parent args index depth = .error x) : P x := by
  induction args generalizing index with
  | nil => cases hx
  | cons t rest ih =>
      obtain ⟨ht, hrest⟩ := List.forall_mem_cons.mp h
      rw [encodeArgs, ← failure?_eq_some_iff, failure?_bind_cons, Option.or_eq_some_iff,
        failure?_eq_some_iff, failure?_eq_some_iff, mapError_eq_error_iff] at hx
      rcases hx with ⟨y, hy, rfl⟩ | ⟨-, hx⟩
      · exact ht y hy (.argument index)
      · exact ih hrest hx

theorem error_of_encodeOptions {P : Error → Prop} {options : Fields Term} {depth : Nat} {x : Error}
    (h : ∀ o ∈ options, ∀ y, e.encodeAt o.2 depth = .error y →
      ∀ position, P (y.locate parent position o.2.kind))
    (hx : e.encodeOptions parent options depth = .error x) : P x := by
  induction options with
  | nil => cases hx
  | cons o rest ih =>
      obtain ⟨name, t⟩ := o
      obtain ⟨ht, hrest⟩ := List.forall_mem_cons.mp h
      rw [encodeOptions, ← failure?_eq_some_iff, failure?_bind_cons, Option.or_eq_some_iff,
        failure?_eq_some_iff, failure?_eq_some_iff, mapError_eq_error_iff] at hx
      rcases hx with ⟨y, hy, rfl⟩ | ⟨-, hx⟩
      · exact ht y hy (.option name)
      · exact ih hrest hx

theorem encodeArgs_congr {args : List Term} {depth depth' : Nat}
    (h : ∀ t ∈ args, e.encodeAt t depth = e.encodeAt t depth') (index : Nat) :
    e.encodeArgs parent args index depth = e.encodeArgs parent args index depth' := by
  induction args generalizing index with
  | nil => rfl
  | cons t rest ih =>
      obtain ⟨ht, hrest⟩ := List.forall_mem_cons.mp h
      rw [encodeArgs, encodeArgs, ht, ih hrest]

theorem encodeOptions_congr {options : Fields Term} {depth depth' : Nat}
    (h : ∀ o ∈ options, e.encodeAt o.2 depth = e.encodeAt o.2 depth') :
    e.encodeOptions parent options depth = e.encodeOptions parent options depth' := by
  induction options with
  | nil => rfl
  | cons o rest ih =>
      obtain ⟨name, t⟩ := o
      obtain ⟨ht, hrest⟩ := List.forall_mem_cons.mp h
      rw [encodeOptions, encodeOptions, ht, ih hrest]

/-- Without a limit a term is encoded alike at all depths. -/
theorem encodeAt_unlimited (t : Term) (depth depth' : Nat) :
    encodeAt {} t depth = encodeAt {} t depth' := by
  induction t generalizing depth depth' with
  | datum value => rfl
  | node kind args options ihArgs ihOptions =>
      have hargs : encodeArgs {} kind args 0 (depth + 1) = encodeArgs {} kind args 0 (depth' + 1) :=
        encodeArgs_congr (fun t ht => ihArgs t ht _ _) 0
      have hoptions :
          encodeOptions {} kind options (depth + 1) = encodeOptions {} kind options (depth' + 1) :=
        encodeOptions_congr fun o ho => ihOptions o ho _ _
      rw [encodeAt, encodeAt, hargs, hoptions]
      rfl

end Encoder

/-! ### Nodes -/

namespace Term

theorem encode_datum_iff {value : Datum} {w : Json} :
    (datum value).encode = .ok w ↔ value.toScalar? = some w := by
  rw [encode, Encoder.encode, Encoder.encodeAt]
  cases value.toScalar? <;> simp [Encoder.admits, bind, Except.bind]

theorem encode_node_iff {kind : Kind} {args : List Term} {options : Fields Term} {w : Json} :
    (node kind args options).encode = .ok w ↔
      ∃ ws ms, List.Forall₂ (fun t w => t.encode = .ok w) args ws ∧
        Fields.Aligned (fun t w => t.encode = .ok w) options ms ∧
        w = .assemble kind.numeral ws ms := by
  have hdepth : ∀ t : Term, Encoder.encodeAt {} t 2 = t.encode := fun t =>
    Encoder.encodeAt_unlimited t 2 1
  have hchildren : (node kind args options).encode = (do
      let ws ← Encoder.encodeArgs {} kind args 0 2
      let ms ← Encoder.encodeOptions {} kind options 2
      .ok (.assemble kind.numeral ws ms)) := by
    simp only [← Encoder.nodeJson_eq_assemble]
    rfl
  rw [hchildren]
  simp only [bind_eq_ok_iff, Except.ok.injEq, Encoder.encodeArgs_eq_ok_iff,
    Encoder.encodeOptions_eq_ok_iff, hdepth, exists_and_left, eq_comm (b := w)]

/-- Data are sent as scalars, and nothing else is. -/
theorem isScalar_of_encode {t : Term} {w : Json} (h : t.encode = .ok w) :
    w.isScalar = t.datum?.isSome := by
  cases t with
  | datum value => exact (Datum.ofJson_of_toScalar? (encode_datum_iff.mp h)).1
  | node kind args options =>
      obtain ⟨ws, ms, -, -, rfl⟩ := encode_node_iff.mp h
      exact Json.isScalar_assemble kind.numeral ws ms

theorem encode_distinct {t : Term} {w : Json} (ht : t.WellFormed) (h : t.encode = .ok w) :
    w.Distinct := by
  induction t generalizing w with
  | datum value =>
      exact Json.distinct_of_isScalar (Datum.ofJson_of_toScalar? (encode_datum_iff.mp h)).1
  | node kind args options ihArgs ihOptions =>
      obtain ⟨hlawful, hargs, hoptions⟩ := wellFormed_node_iff.mp ht
      obtain ⟨ws, ms, hws, hms, rfl⟩ := encode_node_iff.mp h
      refine Json.distinct_assemble trivial ?_ (hms.distinct hlawful.distinct) ?_
      · intro w hw
        obtain ⟨t, ht, htw⟩ := exists_left_of_forall₂ hws w hw
        exact ihArgs t ht (hargs t ht) htw
      · intro m hm
        obtain ⟨o, ho, hom⟩ := hms.exists_left m hm
        exact ihOptions o ho (hoptions o ho) hom

end Term
end Reql
