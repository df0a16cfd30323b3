import Reql.Proofs.Term.Closure
import Reql.Proofs.Wire.RoundTrip

/-!
Terms that can be encoded.

Nothing but a datum can stand in the way of an unlimited encoder: it writes a
term exactly when all data in it are scalars with a JSON form. Coercion leaves
only such data behind, wherever in a value they stood, so the other ones come
from terms that were given; and those are made by `Term.datum` alone.
-/

namespace Reql

/-! ### Data that are sent -/

theorem Datum.exists_toScalar?_iff {d : Datum} : (∃ w, d.toScalar? = some w) ↔ d.Sendable := by
  cases d with
  | number x =>
      constructor
      · rintro ⟨w, hw⟩
        obtain ⟨n, hn, -⟩ := Option.map_eq_some_iff.mp hw
        rw [Json.Number.ofDouble?] at hn
        split at hn
        · rename_i hx
          refine ⟨rfl, ?_⟩
          rintro y ⟨⟩
          exact hx
        · cases hn
      · rintro ⟨-, hfinite⟩
        have hx : x.isFinite = true := hfinite x rfl
        refine ⟨.number (.float x hx), ?_⟩
        rw [toScalar?, Json.Number.ofDouble?, dif_pos hx]
        rfl
  | _ => simp [toScalar?, Sendable, isScalar]

theorem Datum.sendable_ofUInt64 (n : UInt64) : (ofUInt64 n).Sendable := by
  rcases Nat.lt_or_ge n.toNat 9223372036854775808 with h | h
  · rw [ofUInt64_of_lt h]
    exact ⟨rfl, nofun⟩
  · rw [ofUInt64_of_le h]
    exact ⟨rfl, nofun⟩

namespace Term

/-- `t.Sendable`: all data of the term are scalars with a JSON form. -/
def Sendable (t : Term) : Prop := ∀ d, .datum d ∈ t.nodes → d.Sendable

theorem sendable_datum_iff {d : Datum} : (datum d).Sendable ↔ d.Sendable := by
  simp [Sendable]

theorem sendable_node_iff {kind : Kind} {args : List Term} {options : Fields Term} :
    (node kind args options).Sendable ↔
      (∀ t ∈ args, t.Sendable) ∧ ∀ o ∈ options, o.2.Sendable := by
  constructor
  · intro h
    refine ⟨fun t ht d hd => ?_, fun o ho d hd => ?_⟩
    · exact h d (mem_nodes_node.mpr (.inr (.inl ⟨t, ht, hd⟩)))
    · exact h d (mem_nodes_node.mpr (.inr (.inr ⟨o, ho, hd⟩)))
  · rintro ⟨hargs, hoptions⟩ d hd
    rcases mem_nodes_node.mp hd with heq | ⟨t, ht, hd⟩ | ⟨o, ho, hd⟩
    · cases heq
    · exact hargs t ht d hd
    · exact hoptions o ho d hd

theorem closed_sendable : Closed (fun _ => True) Sendable where
  array := trivial
  object := trivial
  datum _ hd := sendable_datum_iff.mpr hd
  node _ _ _ _ hargs hoptions := sendable_node_iff.mpr ⟨hargs, hoptions⟩

theorem exists_encode_iff {t : Term} : (∃ w, t.encode = .ok w) ↔ t.Sendable := by
  induction t with
  | datum d =>
      simp only [encode_datum_iff, sendable_datum_iff]
      exact Datum.exists_toScalar?_iff
  | node kind args options ihArgs ihOptions =>
      have hargs : (∃ ws, List.Forall₂ (fun t w => t.encode = .ok w) args ws) ↔
          ∀ t ∈ args, t.Sendable := by
        rw [exists_forall₂_iff]
        exact forall₂_congr ihArgs
      have hoptions : (∃ ms, Fields.Aligned (fun t w => t.encode = .ok w) options ms) ↔
          ∀ o ∈ options, o.2.Sendable := by
        rw [Fields.exists_aligned_iff]
        exact forall₂_congr ihOptions
      rw [sendable_node_iff, ← hargs, ← hoptions]
      simp only [encode_node_iff]
      constructor
      · rintro ⟨w, ws, ms, hws, hms, -⟩
        exact ⟨⟨ws, hws⟩, ms, hms⟩
      · rintro ⟨⟨ws, hws⟩, ms, hms⟩
        exact ⟨_, ws, ms, hws, hms, rfl⟩

end Term

/-! ### Coerced values -/

/-- `Arg.Embeds a path t`: the term is embedded in the argument, and the path
leads to its place in the term of the argument. -/
inductive Arg.Embeds : Arg → List Position → Term → Prop
  | term (t : Term) : Embeds (.term t) [] t
  | array {items : List Arg} {index : Nat} {a : Arg} {path : List Position} {t : Term} :
      (leavesOf items)[index]? = some a → Embeds a path t →
        Embeds (.array items) (.argument index :: path) t
  | object {fields : Fields Arg} {name : String} {a : Arg} {path : List Position} {t : Term} :
      Fields.get? fields name = some a → Embeds a path t →
        Embeds (.object fields) (.option name :: path) t

theorem exists_getElem?_of_forall₂ {α β : Type} {R : α → β → Prop} {xs : List α} {ys : List β}
    (h : List.Forall₂ R xs ys) {i : Nat} {y : β} (hy : ys[i]? = some y) :
    ∃ x, xs[i]? = some x ∧ R x y := by
  induction h generalizing i with
  | nil => simp at hy
  | cons hxy _ ih =>
      cases i with
      | zero =>
          obtain rfl := Option.some.inj hy
          exact ⟨_, rfl, hxy⟩
      | succ i => exact ih hy

theorem Fields.Aligned.exists_get? {α β : Type} {R : α → β → Prop} {fields : Fields α}
    {others : Fields β} (h : Aligned R fields others) {name : String} {b : β}
    (hb : get? others name = some b) : ∃ a, get? fields name = some a ∧ R a b := by
  induction fields generalizing others with
  | nil =>
      rw [aligned_nil_left_iff.mp h] at hb
      cases hb
  | cons f rest ih =>
      obtain ⟨n, a⟩ := f
      obtain ⟨b', others, hab, hrest, rfl⟩ := aligned_cons_left_iff.mp h
      by_cases hname : n = name
      · rw [get?, if_pos hname] at hb
        obtain rfl := Option.some.inj hb
        exact ⟨a, by rw [get?, if_pos hname], hab⟩
      · rw [get?, if_neg hname] at hb
        obtain ⟨c, hc, hcb⟩ := ih hrest hb
        exact ⟨c, by rw [get?, if_neg hname, hc], hcb⟩

/-- A leaf of a coerced value is sendable unless it is a leaf of an embedded
term. -/
theorem Arg.leaf_of_coerce {a : Arg} {t : Term} (h : a.coerce = .ok t) {path : List Position}
    {d : Datum} (hd : t.at? path = some (.datum d)) :
    d.Sendable ∨ ∃ above below s, path = above ++ below ∧ a.Embeds above s ∧
      s.at? below = some (.datum d) := by
  induction a using Arg.induction generalizing t path with
  | term s =>
      obtain rfl := Except.ok.inj h
      exact .inr ⟨[], path, s, rfl, .term s, hd⟩
  | value value =>
      have ht : t.Sendable := Datum.coerce_closed Term.closed_sendable h
      exact .inl (ht d (Term.mem_nodes_of_at? hd))
  | array items ih =>
      -- the elements of the array are the leaves of the list, in which bundles are spliced
      obtain ⟨ts, hts, rfl⟩ := coerce_array_iff.mp h
      rcases path with _ | ⟨⟨index⟩ | ⟨name⟩, path⟩
      · cases hd
      · obtain ⟨c, hc, hd⟩ := Option.bind_eq_some_iff.mp hd
        obtain ⟨l, hl, hlc⟩ := exists_getElem?_of_forall₂ hts hc
        refine (ih l (List.mem_of_getElem? hl) hlc hd).imp_right ?_
        rintro ⟨above, below, s, rfl, hs, hbelow⟩
        exact ⟨.argument index :: above, below, s, rfl, .array hl hs, hbelow⟩
      · cases hd
  | object fields ih =>
      obtain ⟨ts, hts, rfl⟩ := coerce_object_iff.mp h
      rcases path with _ | ⟨⟨index⟩ | ⟨name⟩, path⟩
      · cases hd
      · cases hd
      · obtain ⟨c, hc, hd⟩ := Option.bind_eq_some_iff.mp hd
        obtain ⟨l, hl, hlc⟩ := hts.exists_get? hc
        obtain ⟨f, hf, rfl⟩ := Fields.exists_mem_of_get? hl
        refine (ih f hf hlc hd).imp_right ?_
        rintro ⟨above, below, s, rfl, hs, hbelow⟩
        exact ⟨.option name :: above, below, s, rfl, .object hl hs, hbelow⟩
  | bundle items => cases h

/-! ### Sequences of calls -/

theorem Json.decode_sendable {v : Json} {t : Term} (h : v.decode = .ok t) : t.Sendable := by
  refine forall_of_decode (fun v hscalar => ?_) (fun _ _ _ _ hargs hoptions => ?_) h
  · exact Term.sendable_datum_iff.mpr
      (Datum.exists_toScalar?_iff.mp ⟨v, Datum.toScalar?_ofJson hscalar⟩)
  · exact Term.sendable_node_iff.mpr ⟨hargs, hoptions⟩

namespace Term

theorem sendable_parameterList (ids : List UInt64) : (parameterList ids).Sendable := by
  refine sendable_node_iff.mpr ⟨fun t ht => ?_, List.forall_mem_nil _⟩
  obtain ⟨id, -, rfl⟩ := List.mem_map.mp ht
  exact sendable_datum_iff.mpr (Datum.sendable_ofUInt64 id)

theorem sendable_wrapped {t : Term} (ht : t.Sendable) (id : UInt64) : (wrapped id t).Sendable :=
  sendable_node_iff.mpr ⟨List.forall_mem_cons.mpr
    ⟨sendable_parameterList [id], List.forall_mem_singleton.mpr ht⟩, List.forall_mem_nil _⟩

end Term

namespace Construction

/-- `call.Sends`: no leaf is made of a datum that cannot be sent. -/
def Sends : Construction → Prop
  | .datum value => value.Sendable
  | _ => True

theorem results_sendable {call : Construction} (hcall : call.Sends)
    (h : call.Admissible Term.Sendable) : ∀ t ∈ call.results, t.Sendable := by
  have hclosed := Term.closed_sendable
  intro t ht
  cases call with
  | make kind receiver args options =>
      exact Term.make_closed hclosed trivial h.1 (Arguments.admissible_ofList h.2.1)
        (Options.admissible_ofList h.2.2) (mem_toList_toOption.mp ht)
  | chain receiver kind args options =>
      exact Term.chain_closed hclosed trivial h.1 h.2.1 (Options.admissible_ofList h.2.2)
        (mem_toList_toOption.mp ht)
  | build kind script =>
      exact Term.ofScript_closed hclosed trivial h (mem_toList_toOption.mp ht)
  | start operation args =>
      exact Term.make_closed hclosed trivial (List.forall_mem_nil _)
        (Arguments.admissible_ofList h) (Options.admissible_none _) (mem_toList_toOption.mp ht)
  | apply operation receiver args options ids =>
      exact Operation.apply_closed hclosed hclosed (fun _ ht => ht)
        (fun _ _ ht => Term.sendable_wrapped ht _) trivial h.1 h.2.1 (Options.admissible_ofList h.2.2)
        (mem_toList_toOption.mp ht)
  | coerce value =>
      exact Arg.coerce_closed hclosed h (Arg.toTerm_eq_ok_iff.mp (mem_toList_toOption.mp ht))
  | native value =>
      have hvalue := mem_toList_toOption.mp ht
      rw [Native.toTerm] at hvalue
      split at hvalue
      · exact Datum.coerce_closed hclosed (Arg.toTerm_eq_ok_iff.mp hvalue)
      · cases hvalue
  | datum value =>
      obtain rfl := List.mem_singleton.mp ht
      exact Term.sendable_datum_iff.mpr hcall
  | var id =>
      obtain rfl := List.mem_singleton.mp ht
      exact Term.sendable_node_iff.mpr ⟨List.forall_mem_singleton.mpr
        (Term.sendable_datum_iff.mpr (Datum.sendable_ofUInt64 id)), List.forall_mem_nil _⟩
  | implicitVar =>
      obtain rfl := List.mem_singleton.mp ht
      exact Term.sendable_node_iff.mpr ⟨List.forall_mem_nil _, List.forall_mem_nil _⟩
  | function ids body =>
      exact Term.function_closed hclosed trivial (Term.sendable_parameterList ids) h
        (mem_toList_toOption.mp ht)
  | wrap s ids =>
      obtain rfl := List.mem_singleton.mp ht
      exact Term.wrap_closed (fun _ ht => ht) (fun _ ht => Term.sendable_wrapped ht _) h
  | globalOption q name value =>
      obtain ⟨q', hq', ht⟩ := List.mem_flatMap.mp ht
      exact Query.withOption_closed hclosed trivial h.1 h.2 (mem_toList_toOption.mp hq') t ht
  | decode v => exact Json.decode_sendable (mem_toList_toOption.mp ht)
  | decodeText text =>
      obtain ⟨json, -, hdecode⟩ := bind_eq_ok_iff.mp (mem_toList_toOption.mp ht)
      exact Json.decode_sendable hdecode
  | argument s index =>
      have hmem : t ∈ s.args := List.mem_of_getElem? (Option.mem_toList.mp ht)
      cases s with
      | datum d => cases hmem
      | node kind args options => exact (Term.sendable_node_iff.mp h).1 t hmem
  | option s name =>
      obtain ⟨o, ho, rfl⟩ := Fields.exists_mem_of_get? (Option.mem_toList.mp ht)
      cases s with
      | datum d => cases ho
      | node kind args options => exact (Term.sendable_node_iff.mp h).2 o ho

end Construction

/-- `ObtainedBy C pool`: the terms of a finite sequence of calls each of which
satisfies a condition, the latest first. -/
inductive ObtainedBy (C : Construction → Prop) : List Term → Prop
  | nothing : ObtainedBy C []
  | next {pool : List Term} (call : Construction) :
      ObtainedBy C pool → C call → call.Admissible (· ∈ pool) →
        ObtainedBy C (call.results ++ pool)

theorem ObtainedBy.sendable {pool : List Term} (h : ObtainedBy Construction.Sends pool) :
    ∀ t ∈ pool, t.Sendable := by
  induction h with
  | nothing => exact List.forall_mem_nil _
  | next call _ hsends hcall ih =>
      have hgiven : call.Admissible Term.Sendable := hcall.imp ih
      exact List.forall_mem_append.mpr ⟨call.results_sendable hsends hgiven, ih⟩

/-- A term can be encoded exactly when all its data can be sent, and only a
leaf that was made of a datum as it is can hold one that cannot: coercion makes
no such leaf, and neither does any other call. -/
theorem encode_fails_only_on_injected_data :
    (∀ t : Term, (∃ w, t.encode = .ok w) ↔ ∀ d, .datum d ∈ t.nodes → d.Sendable) ∧
      (∀ (a : Arg) (t : Term), a.toTerm = .ok t → ∀ path d, t.at? path = some (.datum d) →
        d.Sendable ∨ ∃ above below s, path = above ++ below ∧ a.Embeds above s ∧
          s.at? below = some (.datum d)) ∧
      ∀ pool : List Term, ObtainedBy Construction.Sends pool →
        ∀ t ∈ pool, ∃ w, t.encode = .ok w := by
  refine ⟨fun t => Term.exists_encode_iff, fun a t h path d hd => ?_, fun pool hpool t ht => ?_⟩
  · exact Arg.leaf_of_coerce (Arg.toTerm_eq_ok_iff.mp h) hd
  · exact Term.exists_encode_iff.mpr (hpool.sendable t ht)

/-- A list of a scalar and of a leaf that holds no number. -/
def Arg.withNaN : Arg :=
  .array [.bundle [.value (.boolean true), .term (.datum (.number .nan))]]

/-- The leaf without a number can be put into a list, but the list cannot be
encoded, and the path from the argument to the leaf is the one in the list. A
table has no such leaf. -/
theorem encode_fails_on_withNaN :
    (∃ t, Arg.withNaN.toTerm = .ok t ∧ t.at? [.argument 1] = some (.datum (.number .nan)) ∧
      (¬ ∃ w, t.encode = .ok w) ∧
      ∃ above below s, [.argument 1] = above ++ below ∧ Arg.withNaN.Embeds above s ∧
        s.at? below = some (.datum (.number .nan))) ∧
    ObtainedBy Construction.Sends [.users] ∧ ∃ w, Term.users.encode = .ok w := by
  obtain ⟨hencode, hcoerce, hsends⟩ := encode_fails_only_on_injected_data
  have hnan : ¬ (Datum.number .nan).Sendable := fun h => absurd (h.2 .nan rfl) (by decide)
  let t : Term := .array [.datum (.boolean true), .datum (.number .nan)]
  have ht : Arg.withNaN.toTerm = .ok t := rfl
  have hpath : t.at? [.argument 1] = some (.datum (.number .nan)) := rfl
  have husers : ObtainedBy Construction.Sends [.users] :=
    .next (.start ⟨.table, .one⟩ [.value (.string "users")]) .nothing trivial
      (List.forall_mem_singleton.mpr trivial)
  refine ⟨⟨t, ht, hpath, fun h => ?_, ?_⟩, husers, ?_⟩
  · exact hnan ((hencode t).mp h _ (Term.mem_nodes_of_at? hpath))
  · exact (hcoerce _ t ht _ _ hpath).resolve_left hnan
  · exact hsends _ husers _ (List.mem_singleton_self _)

end Reql
