import Reql.Method
import Reql.Proofs.Term.Coercion
import Reql.Query
import Reql.Term.Script

/-!
What the makers of terms give.

`Term.make` has one description, `make_eq_ok_iff`: it succeeds exactly when
everything given to it has a term and the catalog accepts the result. Every
operation is made there, whether it is written at once, chained, pieced
together, begun by name or decoded, so all of them give well-formed terms for
the same reason. The few nodes that are put together without it are looked at
one by one.
-/

namespace Reql

/-! ### Freezing -/

theorem Arg.coerceFrom_eq_ok_iff {origin : Origin} {a : Arg} {t : Term} :
    a.coerceFrom origin = .ok t ↔ a.coerce = .ok t :=
  mapError_eq_ok_iff

theorem Arguments.freezeFrom_eq_ok_iff {items : List Arg} {index : Nat} {ts : List Term} :
    freezeFrom items index = .ok ts ↔ List.Forall₂ (fun a t => a.coerce = .ok t) items ts := by
  induction items generalizing index ts with
  | nil => simp [freezeFrom, eq_comm]
  | cons a rest ih =>
      rw [freezeFrom, bind_cons_eq_ok_iff, List.forall₂_cons_left_iff]
      simp only [Arg.coerceFrom_eq_ok_iff, ih]

theorem Arguments.freeze_eq_ok_iff {args : Arguments} {ts : List Term} :
    args.freeze = .ok ts ↔ List.Forall₂ (fun a t => a.coerce = .ok t) args.items ts :=
  freezeFrom_eq_ok_iff

theorem Arg.leavesOf_map_term (args : List Term) : leavesOf (args.map .term) = args.map .term := by
  induction args with
  | nil => rfl
  | cons t rest ih => rw [List.map_cons, leavesOf, ih]; rfl

theorem Arguments.freeze_ofList_terms (args : List Term) :
    (ofList (args.map .term)).freeze = .ok args := by
  rw [freeze_eq_ok_iff, items_ofList, Arg.leavesOf_map_term, List.forall₂_map_left_iff]
  exact List.forall₂_same.mpr fun _ _ => rfl

namespace Options

theorem freezeFields_eq_ok_iff {fields : Fields Arg} {ts : Fields Term} :
    freezeFields fields = .ok ts ↔ Fields.Aligned (fun a t => a.coerce = .ok t) fields ts := by
  induction fields generalizing ts with
  | nil => simp [freezeFields, eq_comm]
  | cons f rest ih =>
      obtain ⟨name, a⟩ := f
      rw [freezeFields, bind_cons_eq_ok_iff, Fields.aligned_cons_left_iff]
      simp only [Arg.coerceFrom_eq_ok_iff, ih]

theorem firstUnsupported?_eq_none_iff {options : Options} {rule : OptionRule} :
    options.firstUnsupported? rule = none ↔ ∀ name ∈ options.names, rule.accepts name = true := by
  simp [firstUnsupported?]

/-- Options become terms when the kind accepts all their names and all their
values have terms. -/
theorem freezeFor_eq_ok_iff {options : Options} {kind : Kind} {ts : Fields Term} :
    options.freezeFor kind = .ok ts ↔
      (∀ name ∈ options.names, kind.signature.options.accepts name = true) ∧
        Fields.Aligned (fun a t => a.coerce = .ok t) options.fields ts := by
  rw [freezeFor, ← firstUnsupported?_eq_none_iff]
  cases options.firstUnsupported? kind.signature.options with
  | some name => simp
  | none => simp [freezeFields_eq_ok_iff]

theorem freezeFields_terms (options : Fields Term) :
    freezeFields (Fields.mapValues .term options) = .ok options := by
  rw [freezeFields_eq_ok_iff, Fields.Aligned, Fields.mapValues, List.forall₂_map_left_iff]
  exact List.forall₂_same.mpr fun _ _ => ⟨rfl, rfl⟩

theorem freezeFor_ofList_terms_eq_ok_iff {options : Fields Term} {kind : Kind}
    {named : Fields Term} :
    (ofList (Fields.mapValues Arg.term options)).freezeFor kind = .ok named ↔
      (∀ name ∈ Fields.names options, kind.signature.options.accepts name = true) ∧
        named = Fields.ofList options := by
  have hfields : (ofList (Fields.mapValues Arg.term options)).fields =
      Fields.mapValues Arg.term (Fields.ofList options) := Fields.ofList_mapValues Arg.term options
  have hnames : (ofList (Fields.mapValues Arg.term options)).names =
      Fields.names (Fields.ofList options) := by
    rw [names, hfields, Fields.names_mapValues]
  rw [freezeFor_eq_ok_iff, ← freezeFields_eq_ok_iff, hfields, hnames, freezeFields_terms,
    Except.ok.injEq, eq_comm (a := named)]
  simp only [Fields.mem_names_ofList]

/-- `options.Admissible P`: the names are distinct, and the values can be
given. -/
structure Admissible (P : Term → Prop) (options : Options) : Prop where
  distinct : Fields.Distinct options.fields
  values : ∀ f ∈ options.fields, f.2.Admissible P

theorem admissible_none (P : Term → Prop) : Admissible P {} where
  distinct := Fields.distinct_nil
  values := List.forall_mem_nil _

theorem Admissible.insert {P : Term → Prop} {options : Options} {value : Arg}
    (h : options.Admissible P) (name : String) (hvalue : value.Admissible P) :
    (options.insert name value).Admissible P where
  distinct := h.distinct.insert name value
  values f hf := by
    rcases Fields.mem_insert hf with hf | heq
    · exact h.values f hf
    · rw [heq]
      exact hvalue

theorem admissible_ofList {P : Term → Prop} {pairs : List (String × Arg)}
    (h : ∀ pair ∈ pairs, pair.2.Admissible P) : (ofList pairs).Admissible P where
  distinct := Fields.distinct_ofList pairs
  values := Fields.forall_mem_ofList h

end Options

/-! ### Operations -/

namespace Term

/-- An operation is made when it is no datum, everything given to it has a
term, its kind accepts the names of the options, and the arguments are as
many as they should be. -/
theorem make_eq_ok_iff {kind : Kind} {receiver : Option Term} {args : Arguments}
    {options : Options} {t : Term} :
    make kind receiver args options = .ok t ↔
      kind ≠ .datum ∧ ∃ terms named, args.freeze = .ok terms ∧
        options.freezeFor kind = .ok named ∧
        kind.signature.arity.contains (receiver.toList ++ terms).length = true ∧
        t = .node kind (receiver.toList ++ terms) named := by
  rw [make]
  by_cases hkind : kind = .datum
  · simp [hkind, bind, Except.bind]
  · simp only [hkind, ↓reduceIte, bind_eq_ok_iff, ne_eq, not_false_eq_true, true_and]
    refine exists_congr fun terms => ?_
    constructor
    · rintro ⟨hterms, named, hnamed, h⟩
      split at h
      · rename_i harity
        exact ⟨named, hterms, hnamed, harity, (Except.ok.inj h).symm⟩
      · cases h
    · rintro ⟨named, hterms, hnamed, harity, rfl⟩
      exact ⟨hterms, named, hnamed, if_pos harity⟩

theorem make_wellFormed {kind : Kind} {receiver : Option Term} {args : Arguments}
    {options : Options} {t : Term} (hreceiver : ∀ r ∈ receiver.toList, r.WellFormed)
    (hargs : ∀ a ∈ args.items, a.Admissible WellFormed)
    (hoptions : options.Admissible WellFormed) (h : make kind receiver args options = .ok t) :
    t.WellFormed := by
  obtain ⟨hkind, terms, named, hterms, hnamed, harity, rfl⟩ := make_eq_ok_iff.mp h
  obtain ⟨haccepted, haligned⟩ := Options.freezeFor_eq_ok_iff.mp hnamed
  have hnames : Fields.names named = options.names := haligned.names_eq
  refine wellFormed_node_iff.mpr
    ⟨lawful_node_iff.mpr ⟨hkind, harity, ?_, haligned.distinct hoptions.distinct⟩, ?_, ?_⟩
  · rw [hnames]
    exact haccepted
  · intro s hs
    rcases List.mem_append.mp hs with hs | hs
    · exact hreceiver s hs
    · obtain ⟨a, ha, has⟩ := exists_left_of_forall₂ (Arguments.freeze_eq_ok_iff.mp hterms) s hs
      exact Arg.coerce_wellFormed (hargs a ha) has
  · intro o ho
    obtain ⟨f, hf, hfo⟩ := haligned.exists_left o ho
    exact Arg.coerce_wellFormed (hoptions.values f hf) hfo

end Term

theorem Arguments.admissible_ofList {P : Term → Prop} {items : List Arg}
    (h : ∀ a ∈ items, a.Admissible P) : ∀ a ∈ (ofList items).items, a.Admissible P := by
  rw [items_ofList]
  exact Arg.admissible_leavesOf items (Arg.admissibleItems_iff.mpr h)

namespace Term

theorem chain_wellFormed {receiver : Term} {kind : Kind} {args : List Arg} {options : Options}
    {t : Term} (hreceiver : receiver.WellFormed) (hargs : ∀ a ∈ args, a.Admissible WellFormed)
    (hoptions : options.Admissible WellFormed)
    (h : receiver.chain kind (.ofList args) options = .ok t) : t.WellFormed := by
  have hlist : ∀ r ∈ (some receiver).toList, r.WellFormed :=
    List.forall_mem_singleton.mpr hreceiver
  exact make_wellFormed hlist (Arguments.admissible_ofList hargs) hoptions h

/-! ### Operations made piece by piece -/

def Piece.Admissible (P : Term → Prop) : Piece → Prop
  | .receiver t => P t
  | .arg a => a.Admissible P
  | .args items => ∀ a ∈ items, a.Admissible P
  | .option _ value => value.Admissible P

theorem Piece.Admissible.imp {P Q : Term → Prop} {piece : Piece} (hPQ : ∀ t, P t → Q t)
    (h : piece.Admissible P) : piece.Admissible Q := by
  cases piece with
  | receiver t => exact hPQ t h
  | arg a => exact Arg.Admissible.imp hPQ h
  | args items => exact fun a ha => Arg.Admissible.imp hPQ (h a ha)
  | option name value => exact Arg.Admissible.imp hPQ h

structure Draft.Admissible (P : Term → Prop) (draft : Draft) : Prop where
  receiver : ∀ r ∈ draft.receiver.toList, P r
  args : ∀ a ∈ draft.args.items, a.Admissible P
  options : draft.options.Admissible P

theorem Draft.Admissible.add {P : Term → Prop} {draft : Draft} {piece : Piece}
    (h : draft.Admissible P) (hpiece : piece.Admissible P) : (draft.add piece).Admissible P := by
  cases piece with
  | receiver t => exact ⟨List.forall_mem_singleton.mpr hpiece, h.args, h.options⟩
  | arg a =>
      refine ⟨h.receiver, ?_, h.options⟩
      exact List.forall_mem_append.mpr ⟨h.args, Arg.admissible_leaves a hpiece⟩
  | args items =>
      refine ⟨h.receiver, ?_, h.options⟩
      have hitems : ∀ a ∈ (draft.args.extend items).items, a.Admissible P := by
        rw [Arguments.items_extend]
        exact List.forall_mem_append.mpr
          ⟨h.args, Arg.admissible_leavesOf items (Arg.admissibleItems_iff.mpr hpiece)⟩
      exact hitems
  | option name value => exact ⟨h.receiver, h.args, h.options.insert name hpiece⟩

theorem Draft.Admissible.foldl {P : Term → Prop} {draft : Draft} {script : List Piece}
    (h : draft.Admissible P) (hscript : ∀ piece ∈ script, piece.Admissible P) :
    (script.foldl Draft.add draft).Admissible P := by
  induction script generalizing draft with
  | nil => exact h
  | cons piece rest ih =>
      obtain ⟨hpiece, hrest⟩ := List.forall_mem_cons.mp hscript
      exact ih (h.add hpiece) hrest

theorem ofScript_wellFormed {kind : Kind} {script : List Piece} {t : Term}
    (hscript : ∀ piece ∈ script, piece.Admissible WellFormed)
    (h : ofScript kind script = .ok t) : t.WellFormed := by
  have hstart : Draft.Admissible WellFormed { kind := kind } :=
    ⟨List.forall_mem_nil _, List.forall_mem_nil _, Options.admissible_none _⟩
  have hdraft := hstart.foldl hscript
  exact make_wellFormed hdraft.receiver hdraft.args hdraft.options h

/-! ### Functions -/

theorem wellFormed_parameterList (ids : List UInt64) : (parameterList ids).WellFormed := by
  refine wellFormed_array fun t ht => ?_
  obtain ⟨id, -, rfl⟩ := List.mem_map.mp ht
  exact wellFormed_datum _

theorem closeFunction_eq_ok_iff {ε : Type} {embed : Error → ε} {ids : List UInt64}
    {answer : Except ε Term} {t : Term} :
    closeFunction embed ids answer = .ok t ↔
      ∃ body, answer = .ok body ∧ function ids body = .ok t := by
  simp only [closeFunction, bind_eq_ok_iff, mapError_eq_ok_iff]

theorem function_wellFormed {ids : List UInt64} {body t : Term} (hbody : body.WellFormed)
    (h : function ids body = .ok t) : t.WellFormed := by
  refine make_wellFormed (List.forall_mem_nil _) (Arguments.admissible_ofList ?_)
    (Options.admissible_none _) h
  exact List.forall_mem_cons.mpr
    ⟨wellFormed_parameterList ids, List.forall_mem_singleton.mpr hbody⟩

theorem wellFormed_wrapped {id : UInt64} {t : Term} (ht : t.WellFormed) :
    (wrapped id t).WellFormed :=
  wellFormed_node_iff.mpr ⟨lawful_node_iff.mpr
      ⟨by decide, rfl, List.forall_mem_nil _, Fields.distinct_nil⟩,
    List.forall_mem_cons.mpr ⟨wellFormed_parameterList [id], List.forall_mem_singleton.mpr ht⟩,
    List.forall_mem_nil _⟩

theorem wrap_wellFormed {t : Term} (ht : t.WellFormed) (ids : IdSupply) :
    (t.wrap ids).1.WellFormed := by
  rw [wrap]
  split
  · exact wellFormed_wrapped ht
  · exact ht

theorem chainWrapped_wellFormed {receiver : Term} {kind : Kind} {a : Arg} {options : Options}
    {ids : IdSupply} {t : Term} (hreceiver : receiver.WellFormed)
    (ha : a.Admissible WellFormed) (hoptions : options.Admissible WellFormed)
    (h : (receiver.chainWrapped kind a options ids).1 = .ok t) : t.WellFormed := by
  rw [chainWrapped] at h
  split at h
  · cases h
  · rename_i s hs
    have hwrap : (Arg.term (s.wrap ids).1).Admissible WellFormed :=
      wrap_wellFormed (Arg.coerce_wellFormed ha (Arg.toTerm_eq_ok_iff.mp hs)) ids
    exact chain_wellFormed hreceiver (List.forall_mem_singleton.mpr hwrap) hoptions h

end Term

/-! ### Named operations -/

namespace Operation

theorem start_wellFormed {o : Operation} {args : List Arg} {t : Term}
    (hargs : ∀ a ∈ args, a.Admissible Term.WellFormed) (h : o.start args = .ok t) :
    t.WellFormed :=
  Term.make_wellFormed (List.forall_mem_nil _) (Arguments.admissible_ofList hargs)
    (Options.admissible_none _) h

theorem apply_wellFormed {o : Operation} {receiver : Term} {args : List Arg} {options : Options}
    {ids : IdSupply} {t : Term} (hreceiver : receiver.WellFormed)
    (hargs : ∀ a ∈ args, a.Admissible Term.WellFormed)
    (hoptions : options.Admissible Term.WellFormed)
    (h : (o.apply receiver args options ids).1 = .ok t) : t.WellFormed := by
  unfold apply at h
  split at h
  · rename_i a _
    refine Term.chainWrapped_wellFormed hreceiver (List.forall_mem_singleton.mp hargs) ?_ h
    split
    · exact hoptions
    · exact Options.admissible_none _
  · exact Term.chain_wellFormed hreceiver hargs (Options.admissible_none _) h

end Operation

/-! ### Global options -/

namespace Query

def terms (q : Query) : List Term := q.request.term?.toList ++ Fields.values q.options

theorem optionTerm_wellFormed {name : String} {t s : Term} (ht : t.WellFormed)
    (h : optionTerm name t = .ok s) : s.WellFormed := by
  unfold optionTerm at h
  split at h
  · split at h
    · refine Operation.start_wellFormed (List.forall_mem_singleton.mpr ?_) h
      trivial
    · rw [← Except.ok.inj h]
      exact ht
  · rw [← Except.ok.inj h]
    exact ht

theorem forall_mem_terms_iff {P : Term → Prop} {q : Query} :
    (∀ t ∈ q.terms, P t) ↔ (∀ t ∈ q.request.term?.toList, P t) ∧ ∀ o ∈ q.options, P o.2 := by
  rw [terms, List.forall_mem_append, Fields.values, List.forall_mem_map]

theorem withOption_wellFormed {q q' : Query} {name : String} {value : Arg}
    (hq : ∀ t ∈ q.terms, t.WellFormed) (hvalue : value.Admissible Term.WellFormed)
    (h : q.withOption name value = .ok q') : ∀ t ∈ q'.terms, t.WellFormed := by
  obtain ⟨t, ht, h⟩ := bind_eq_ok_iff.mp h
  obtain ⟨s, hs, h⟩ := bind_eq_ok_iff.mp h
  obtain rfl := Except.ok.inj h
  have hswf : s.WellFormed :=
    optionTerm_wellFormed (Arg.coerce_wellFormed hvalue (Arg.toTerm_eq_ok_iff.mp ht)) hs
  obtain ⟨hrequest, hoptions⟩ := forall_mem_terms_iff.mp hq
  refine forall_mem_terms_iff.mpr ⟨hrequest, fun o ho => ?_⟩
  rcases Fields.mem_insert ho with ho | heq
  · exact hoptions o ho
  · rw [heq]
    exact hswf

end Query

end Reql
