import Reql.Proofs.Term.Making

/-!
Properties that the makers of terms keep.

Whatever is made from arguments is put together from the terms in them by scalar
leaves and by nodes of three sorts: arrays and objects, the operation that was
asked for, and the function that a wrapped argument becomes. So a property that
goes from the children to such nodes goes from what is given to what is made.
`Term.Closed` names the kinds of nodes to which a property goes; the wrapper of
an implicit variable is a hypothesis of its own, since its identifier is new.
-/

namespace Reql

namespace Datum

/-- `d.Sendable`: a scalar with a JSON form. -/
def Sendable (d : Datum) : Prop := d.isScalar = true ∧ ∀ x, d = .number x → x.isFinite = true

theorem sendable_of_coerce {d : Datum} {t : Term} (hd : d.isScalar = true)
    (h : d.coerce = .ok t) : d.Sendable := by
  refine ⟨hd, ?_⟩
  rintro x rfl
  rw [coerce] at h
  split at h
  · assumption
  · cases h

end Datum

/-- `Term.Closed K P`: the property goes from children to nodes of the kinds in
`K`, among which are arrays and objects, and the leaves of coerced scalars have
it. -/
structure Term.Closed (K : Kind → Prop) (P : Term → Prop) : Prop where
  array : K .makeArray
  object : K .makeObj
  datum : ∀ d : Datum, d.Sendable → P (.datum d)
  node : ∀ kind args options, K kind → (∀ t ∈ args, P t) → (∀ o ∈ options, P o.2) →
    P (.node kind args options)

section Makers

variable {K : Kind → Prop} {P : Term → Prop} {t : Term}

theorem Datum.coerce_closed (hP : Term.Closed K P) {d : Datum} (h : d.coerce = .ok t) : P t := by
  induction d using Datum.induction generalizing t with
  | scalar d hscalar =>
      rw [coerce_scalar hscalar h]
      exact hP.datum d (sendable_of_coerce hscalar h)
  | array items ih =>
      obtain ⟨ts, hts, rfl⟩ := coerce_array_iff.mp h
      refine hP.node _ ts [] hP.array (fun s hs => ?_) (List.forall_mem_nil _)
      obtain ⟨d, hd, hds⟩ := exists_left_of_forall₂ hts s hs
      exact ih d hd hds
  | object fields ih =>
      obtain ⟨ts, hts, rfl⟩ := coerce_object_iff.mp h
      refine hP.node _ [] ts hP.object (List.forall_mem_nil _) fun o ho => ?_
      obtain ⟨f, hf, hfo⟩ := hts.exists_left o ho
      exact ih f hf hfo

theorem Arg.coerce_closed (hP : Term.Closed K P) {a : Arg} (ha : a.Admissible P)
    (h : a.coerce = .ok t) : P t := by
  induction a using Arg.induction generalizing t with
  | term s =>
      rw [← Except.ok.inj h]
      exact ha
  | value d => exact Datum.coerce_closed hP h
  | array items ih =>
      obtain ⟨ts, hts, rfl⟩ := coerce_array_iff.mp h
      refine hP.node _ ts [] hP.array (fun s hs => ?_) (List.forall_mem_nil _)
      obtain ⟨l, hl, hls⟩ := exists_left_of_forall₂ hts s hs
      exact ih l hl (admissible_leavesOf items ha l hl) hls
  | object fields ih =>
      obtain ⟨ts, hts, rfl⟩ := coerce_object_iff.mp h
      refine hP.node _ [] ts hP.object (List.forall_mem_nil _) fun o ho => ?_
      obtain ⟨f, hf, hfo⟩ := hts.exists_left o ho
      exact ih f hf (admissibleFields_iff.mp ha.2 f hf) hfo
  | bundle items => cases h

namespace Term

theorem make_closed (hP : Closed K P) {kind : Kind} {receiver : Option Term} {args : Arguments}
    {options : Options} (hkind : K kind) (hreceiver : ∀ r ∈ receiver.toList, P r)
    (hargs : ∀ a ∈ args.items, a.Admissible P) (hoptions : options.Admissible P)
    (h : make kind receiver args options = .ok t) : P t := by
  obtain ⟨-, terms, named, hterms, hnamed, -, rfl⟩ := make_eq_ok_iff.mp h
  obtain ⟨-, haligned⟩ := Options.freezeFor_eq_ok_iff.mp hnamed
  have hpositional : ∀ s ∈ receiver.toList ++ terms, P s := by
    refine List.forall_mem_append.mpr ⟨hreceiver, fun s hs => ?_⟩
    obtain ⟨a, ha, has⟩ := exists_left_of_forall₂ (Arguments.freeze_eq_ok_iff.mp hterms) s hs
    exact Arg.coerce_closed hP (hargs a ha) has
  refine hP.node kind _ named hkind hpositional fun o ho => ?_
  obtain ⟨f, hf, hfo⟩ := haligned.exists_left o ho
  exact Arg.coerce_closed hP (hoptions.values f hf) hfo

theorem chain_closed (hP : Closed K P) {receiver : Term} {kind : Kind} {args : List Arg}
    {options : Options} (hkind : K kind) (hreceiver : P receiver)
    (hargs : ∀ a ∈ args, a.Admissible P) (hoptions : options.Admissible P)
    (h : receiver.chain kind (.ofList args) options = .ok t) : P t := by
  have hsome : ∀ r ∈ (some receiver).toList, P r := List.forall_mem_singleton.mpr hreceiver
  exact make_closed hP hkind hsome (Arguments.admissible_ofList hargs) hoptions h

theorem Draft.kind_foldl (script : List Piece) (draft : Draft) :
    (script.foldl add draft).kind = draft.kind := by
  induction script generalizing draft with
  | nil => rfl
  | cons piece rest ih =>
      rw [List.foldl_cons, ih]
      cases piece <;> rfl

theorem ofScript_closed (hP : Closed K P) {kind : Kind} {script : List Piece} (hkind : K kind)
    (hscript : ∀ piece ∈ script, piece.Admissible P) (h : ofScript kind script = .ok t) : P t := by
  have hstart : Draft.Admissible P { kind := kind } :=
    ⟨List.forall_mem_nil _, List.forall_mem_nil _, Options.admissible_none _⟩
  have hdraft := hstart.foldl hscript
  refine make_closed hP ?_ hdraft.receiver hdraft.args hdraft.options h
  rw [Draft.kind_foldl]
  exact hkind

theorem function_closed (hP : Closed K P) (hfunc : K .func) {ids : List UInt64} {body : Term}
    (hids : P (parameterList ids)) (hbody : P body) (h : function ids body = .ok t) : P t := by
  have hgiven : ∀ a ∈ [Arg.term (parameterList ids), .term body], a.Admissible P :=
    List.forall_mem_cons.mpr ⟨hids, List.forall_mem_singleton.mpr hbody⟩
  exact make_closed hP hfunc (List.forall_mem_nil _) (Arguments.admissible_ofList hgiven)
    (Options.admissible_none _) h

/-- The wrapper, should there be one, may lead from one property to another. -/
theorem wrap_closed {P' : Term → Prop} {ids : IdSupply} (himp : ∀ t, P t → P' t)
    (hwrap : (t.wrap ids).2 = ids.take.2 → P t → P' (wrapped ids.next t)) (ht : P t) :
    P' (t.wrap ids).1 := by
  by_cases himplicit : t.hasImplicitVar = true
  · rw [wrap, if_pos himplicit] at hwrap ⊢
    exact hwrap rfl ht
  · rw [wrap, if_neg himplicit]
    exact himp t ht

end Term

theorem Operation.apply_closed {P' : Term → Prop} (hP : Term.Closed K P) (hP' : Term.Closed K P')
    {o : Operation} {receiver : Term} {args : List Arg} {options : Options} {ids : IdSupply}
    (himp : ∀ t, P t → P' t)
    (hwrap : (o.apply receiver args options ids).2 = ids.take.2 →
      ∀ t, P t → P' (Term.wrapped ids.next t))
    (hkind : K o.kind) (hreceiver : P' receiver) (hargs : ∀ a ∈ args, a.Admissible P)
    (hoptions : options.Admissible P') (h : (o.apply receiver args options ids).1 = .ok t) :
    P' t := by
  by_cases hone : ∃ a, o.takesFunction = true ∧ args = [a]
  · obtain ⟨a, htakes, rfl⟩ := hone
    simp only [apply, htakes, Term.chainWrapped] at h hwrap
    cases hs : a.toTerm with
    | error e => simp [hs] at h
    | ok s =>
        simp only [hs] at h hwrap
        have hcoerced : P s :=
          Arg.coerce_closed hP (List.forall_mem_singleton.mp hargs) (Arg.toTerm_eq_ok_iff.mp hs)
        have harg : ∀ a ∈ [Arg.term (s.wrap ids).1], a.Admissible P' :=
          List.forall_mem_singleton.mpr
            (Term.wrap_closed himp (fun htake => hwrap htake s) hcoerced)
        refine Term.chain_closed hP' hkind hreceiver harg ?_ h
        split
        · exact hoptions
        · exact Options.admissible_none _
  · unfold apply at h
    split at h
    · rename_i a htakes
      exact absurd ⟨a, htakes, rfl⟩ hone
    · refine Term.chain_closed hP' hkind hreceiver (fun a ha => ?_) (Options.admissible_none _) h
      exact (hargs a ha).imp himp

namespace Query

theorem optionTerm_closed (hP : Term.Closed K P) (hdb : K .db) {name : String} {s : Term}
    (ht : P t) (h : optionTerm name t = .ok s) : P s := by
  unfold optionTerm at h
  split at h
  · split at h
    · refine Term.make_closed hP hdb (List.forall_mem_nil _) (Arguments.admissible_ofList ?_)
        (Options.admissible_none _) h
      exact List.forall_mem_singleton.mpr trivial
    · rw [← Except.ok.inj h]
      exact ht
  · rw [← Except.ok.inj h]
    exact ht

theorem withOption_closed (hP : Term.Closed K P) (hdb : K .db) {q q' : Query} {name : String}
    {value : Arg} (hq : ∀ t ∈ q.terms, P t) (hvalue : value.Admissible P)
    (h : q.withOption name value = .ok q') : ∀ t ∈ q'.terms, P t := by
  obtain ⟨s, hs, h⟩ := bind_eq_ok_iff.mp h
  obtain ⟨u, hu, h⟩ := bind_eq_ok_iff.mp h
  obtain rfl := Except.ok.inj h
  have hPs : P s := Arg.coerce_closed hP hvalue (Arg.toTerm_eq_ok_iff.mp hs)
  have hPu : P u := optionTerm_closed hP hdb hPs hu
  obtain ⟨hrequest, hoptions⟩ := forall_mem_terms_iff.mp hq
  refine forall_mem_terms_iff.mpr ⟨hrequest, fun o ho => ?_⟩
  rcases Fields.mem_insert ho with ho | heq
  · exact hoptions o ho
  · rw [heq]
    exact hPu

end Query

end Makers
end Reql
