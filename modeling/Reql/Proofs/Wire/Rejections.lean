import Reql.Proofs.Wire.Grammar

/-!
Where decoding fails.

A value is decoded after the terms in it: arguments, then options, or the
members of an object. `Json.children` are the terms that the decoder comes to
in a value before it is done with it, and `Json.positions` are all terms that it
is done with, in that order, if nothing fails. The first of them that cannot be
decoded is at fault itself, since all below it can; its error is the one that is
reported, with the steps to it in front. `Json.Faulty` says what such a fault
is.

A value that cannot be decoded either fails with its first child that fails, or
with a fault of its own after all its children; this is `failsWith_of_decode`,
where the order of the checks in an array is looked at. The rest is an induction
on children that only puts positions together.
-/

namespace Reql

/-- `Error.along steps` is an error of a part, seen from the whole; the steps
lead to the part. -/
def Error.along (steps : List WireStep) : Error → Error
  | .decode inner reason => .decode (steps ++ inner) reason
  | e => e

theorem Error.along_nil (e : Error) : e.along [] = e := by
  cases e <;> rfl

theorem Error.along_cons (step : WireStep) (steps : List WireStep) (e : Error) :
    e.along (step :: steps) = (e.along steps).under step := by
  cases e <;> rfl

theorem Error.message_decode (steps : List WireStep) (reason : Malformation) :
    (Error.decode steps reason).message =
      "invalid wire term at $" ++ String.join (steps.map WireStep.text) ++ ": " ++
        reason.message := rfl

namespace Json

/-! ### Terms in a value -/

def optionChildren : Json → List (WireStep × Json)
  | .object options => labelled .option options
  | _ => []

/-- `v.children` are the terms that the decoder comes to in a value. There are
none in an array that does not begin with the number of a kind of operation,
and those of the options come after the arguments. -/
def children : Json → List (WireStep × Json)
  | .object fields => labelled .member fields
  | .array [head, .array args] =>
      if head.headKind = .datum then [] else numbered .argument args 0
  | .array [head, .array args, options] =>
      if head.headKind = .datum then []
      else numbered .argument args 0 ++ options.optionChildren
  | _ => []

/-- `Child v step c` is one step to a term in a value, and `Leads` the steps to
one at any depth. -/
inductive Child : Json → WireStep → Json → Prop
  | argument {head c : Json} {args rest : List Json} {index : Nat} : rest.length ≤ 1 →
      args[index]? = some c → Child (.array (head :: .array args :: rest)) (.argument index) c
  | option {head args c : Json} {options : Fields Json} {name : String} : (name, c) ∈ options →
      Child (.array [head, args, .object options]) (.option name) c
  | member {fields : Fields Json} {name : String} {c : Json} : (name, c) ∈ fields →
      Child (.object fields) (.member name) c

inductive Leads : Json → List WireStep → Json → Prop
  | here (v : Json) : Leads v [] v
  | child {v c u : Json} {step : WireStep} {steps : List WireStep} :
      Child v step c → Leads c steps u → Leads v (step :: steps) u

theorem child_argument {head : Json} {args rest : List Json} {part : WireStep × Json}
    (hrest : rest.length ≤ 1) (h : part ∈ numbered .argument args 0) :
    Child (.array (head :: .array args :: rest)) part.1 part.2 := by
  obtain ⟨index, hindex, hstep⟩ := mem_numbered h
  rw [hstep]
  exact .argument hrest hindex

theorem child_of_mem_children {v : Json} {part : WireStep × Json} (h : part ∈ v.children) :
    Child v part.1 part.2 := by
  unfold children at h
  split at h
  · obtain ⟨⟨name, c⟩, hfield, rfl, hstep⟩ := mem_labelled h
    rw [hstep]
    exact .member hfield
  · split at h
    · cases h
    · exact child_argument (Nat.zero_le 1) h
  · rename_i options
    split at h
    · cases h
    · rcases List.mem_append.mp h with h | h
      · exact child_argument (Nat.le_refl 1) h
      · cases options with
        | object fields =>
            obtain ⟨⟨name, c⟩, hfield, rfl, hstep⟩ := mem_labelled h
            rw [hstep]
            exact .option hfield
        | _ => cases h
  · cases h

theorem Child.sizeOf_lt {v c : Json} {step : WireStep} (h : Child v step c) :
    sizeOf c < sizeOf v := by
  cases h with
  | argument hrest hindex =>
      have hlt := List.sizeOf_lt_of_mem (List.mem_of_getElem? hindex)
      simp only [Json.array.sizeOf_spec, List.cons.sizeOf_spec]
      omega
  | option hmem =>
      have hlt := List.sizeOf_lt_of_mem hmem
      simp only [Json.array.sizeOf_spec, Json.object.sizeOf_spec, List.cons.sizeOf_spec,
        Prod.mk.sizeOf_spec] at hlt ⊢
      omega
  | member hmem =>
      have hlt := List.sizeOf_lt_of_mem hmem
      simp only [Json.object.sizeOf_spec, Prod.mk.sizeOf_spec] at hlt ⊢
      omega

/-- What holds of a value whenever it holds of its children holds of all
values. -/
theorem induction_children {P : Json → Prop} (h : ∀ v, (∀ c ∈ v.children, P c.2) → P v)
    (v : Json) : P v :=
  h v fun c _ => induction_children h c.2
termination_by sizeOf v
decreasing_by exact (child_of_mem_children ‹_›).sizeOf_lt

/-- `v.positions` are all terms in a value in the order in which the decoder is
done with them, with the steps to them. -/
def positions (v : Json) : List (List WireStep × Json) :=
  v.children.attach.flatMap (fun c => c.1.2.positions.map fun p => (c.1.1 :: p.1, p.2)) ++ [([], v)]
termination_by sizeOf v
decreasing_by exact (child_of_mem_children c.2).sizeOf_lt

def positionsIn (child : WireStep × Json) : List (List WireStep × Json) :=
  child.2.positions.map fun p => (child.1 :: p.1, p.2)

theorem positions_eq (v : Json) : v.positions = v.children.flatMap positionsIn ++ [([], v)] := by
  rw [positions]
  conv_rhs => rw [← List.attach_map_subtype_val v.children, List.flatMap_map]
  rfl

/-! ### Faults -/

/-- `NoKind head reason`: the head of an array is not the number of a kind of
operation. -/
inductive NoKind : Json → Malformation → Prop
  /-- It is no integer, or a negative one. -/
  | head {head : Json} : (∀ (n : Nat) h, head ≠ .number (.integer n h)) → NoKind head (.head head)
  | unknown {n : Nat} {h : InWordRange n} : (∀ kind : Kind, kind.tag ≠ n) →
      NoKind (.number (.integer n h)) (.unknownTag n)
  /-- Data are no operations. -/
  | datum : NoKind Kind.datum.numeral .datumTag

/-- `Misshapen items reason`: the elements of an array are not those of an
operation. -/
inductive Misshapen : List Json → Malformation → Prop
  | none : Misshapen [] (.length 0)
  | many {items : List Json} : 3 < items.length → Misshapen items (.length items.length)
  | head {head : Json} {rest : List Json} {reason : Malformation} : rest.length ≤ 2 →
      NoKind head reason → Misshapen (head :: rest) reason
  | arguments {kind : Kind} {second : Json} {rest : List Json} : rest.length ≤ 1 →
      kind ≠ .datum → (∀ args, second ≠ .array args) →
      Misshapen (kind.numeral :: second :: rest) (.arguments second)
  | options {kind : Kind} {args : List Json} {third : Json} : kind ≠ .datum →
      (∀ options, third ≠ .object options) →
      Misshapen [kind.numeral, .array args, third] (.options third)

/-- `v.Faulty x`: what a value is at fault for itself, an array without the
shape of an operation, or an operation that its kind does not allow, of terms
that can all be decoded. -/
inductive Faulty : Json → Error → Prop
  | shape {items : List Json} {reason : Malformation} : Misshapen items reason →
      Faulty (.array items) (.decode [] reason)
  | option {items args : List Json} {options : Fields Json} {kind : Kind} {name : String} :
      Parts items kind.numeral args options →
      (∀ step c, Child (.array items) step c → ∃ t, c.decode = .ok t) →
      name ∈ Fields.names options → kind.signature.options.accepts name = false →
      Faulty (.array items) (.unsupportedOption kind name)
  | arity {items args : List Json} {options : Fields Json} {kind : Kind} :
      Parts items kind.numeral args options →
      (∀ step c, Child (.array items) step c → ∃ t, c.decode = .ok t) →
      (∀ name ∈ Fields.names options, kind.signature.options.accepts name = true) →
      kind.signature.arity.contains args.length = false →
      Faulty (.array items) (.arity kind args.length)

theorem headKind_of_noKind {head : Json} {reason : Malformation} (h : NoKind head reason) :
    head.headKind = .datum := by
  cases h with
  | head h =>
      have hnone : head.natural? = none := Option.eq_none_iff_forall_ne_some.mpr fun n hn => by
        obtain ⟨inRange, rfl⟩ := natural?_eq_some_iff.mp hn
        exact h n inRange rfl
      rw [headKind, hnone]
      rfl
  | @unknown n inRange h =>
      have hn : (number (.integer n inRange)).natural? = some n :=
        natural?_eq_some_iff.mpr ⟨inRange, rfl⟩
      have hnone : Kind.ofTag? n = none := Option.eq_none_iff_forall_ne_some.mpr fun kind hkind =>
        h kind (Kind.ofTag?_eq_some_iff.mp hkind)
      rw [headKind, hn, Option.bind_some, hnone]
      rfl
  | datum => exact headKind_numeral .datum

theorem noKind_of_operation {head : Json} {x : Error} (h : head.operation = .error x) :
    ∃ reason, x = .decode [] reason ∧ NoKind head reason := by
  unfold operation at h
  split at h
  · rename_i hnone
    refine ⟨.head head, (Except.error.inj h).symm, .head fun n inRange heq => ?_⟩
    rw [natural?_eq_some_iff.mpr ⟨inRange, heq⟩] at hnone
    cases hnone
  · rename_i n hn
    obtain ⟨inRange, rfl⟩ := natural?_eq_some_iff.mp hn
    split at h
    · rename_i hnone
      refine ⟨.unknownTag n, (Except.error.inj h).symm, .unknown fun kind hkind => ?_⟩
      rw [Kind.ofTag?_eq_some_iff.mpr hkind] at hnone
      cases hnone
    · rename_i hdatum
      refine ⟨.datumTag, (Except.error.inj h).symm, ?_⟩
      obtain rfl := Kind.ofTag?_eq_some_iff.mp hdatum
      exact .datum
    · cases h

theorem freezeFor_terms_eq_error {options : Fields Term} {kind : Kind} {x : Error}
    (h : (Options.ofList (Fields.mapValues Arg.term options)).freezeFor kind = .error x) :
    ∃ name ∈ Fields.names options, kind.signature.options.accepts name = false ∧
      x = .unsupportedOption kind name := by
  rw [Options.freezeFor] at h
  split at h
  · rename_i name hname
    rw [Options.firstUnsupported?] at hname
    have hmem : name ∈ Fields.names (Fields.ofList (Fields.mapValues Arg.term options)) :=
      List.mem_of_find?_eq_some hname
    rw [Fields.mem_names_ofList, Fields.names_mapValues] at hmem
    exact ⟨name, hmem, by simpa using List.find?_some hname, (Except.error.inj h).symm⟩
  · rw [Options.ofList, Fields.ofList_mapValues, Options.freezeFields_terms] at h
    cases h

/-- Decoded children make an operation, unless its kind refuses the name of an
option or the number of arguments. -/
theorem makeOperation_eq_error {kind : Kind} {args : List Term} {options : Fields Term} {x : Error}
    (hkind : kind ≠ .datum) (h : makeOperation kind args options = .error x) :
    (∃ name ∈ Fields.names options, kind.signature.options.accepts name = false ∧
        x = .unsupportedOption kind name) ∨
      (∀ name ∈ Fields.names options, kind.signature.options.accepts name = true) ∧
        kind.signature.arity.contains args.length = false ∧ x = .arity kind args.length := by
  have hmake : makeOperation kind args options = Term.make kind none
      (.ofList (args.map .term)) (.ofList (Fields.mapValues .term options)) := rfl
  rw [hmake, Term.make, if_neg hkind, Arguments.freeze_ofList_terms] at h
  have hsteps : ((Options.ofList (Fields.mapValues Arg.term options)).freezeFor kind >>= fun named =>
      if kind.signature.arity.contains args.length then Except.ok (Term.node kind args named)
      else .error (.arity kind args.length)) = .error x := h
  rcases bind_eq_error_iff.mp hsteps with hfreeze | ⟨named, hnamed, hcount⟩
  · exact .inl (freezeFor_terms_eq_error hfreeze)
  · refine .inr ⟨(Options.freezeFor_ofList_terms_eq_ok_iff.mp hnamed).1, ?_⟩
    split at hcount
    · cases hcount
    · rename_i hcontains
      exact ⟨Bool.eq_false_iff.mpr hcontains, (Except.error.inj hcount).symm⟩

/-! ### The first child that fails -/

theorem failure?_decodeItems (items : List Json) (index : Nat) :
    failure? (decodeItems items index) =
      firstFailure? Error.under decode (numbered .argument items index) := by
  induction items generalizing index with
  | nil => rfl
  | cons v rest ih =>
      rw [decodeItems, failure?_bind_cons, ih, numbered_cons, firstFailure?_cons]

theorem failure?_decodeFields (step : String → WireStep) (fields : Fields Json) :
    failure? (decodeFields step fields) =
      firstFailure? Error.under decode (labelled step fields) := by
  induction fields with
  | nil => rfl
  | cons f rest ih =>
      obtain ⟨name, v⟩ := f
      rw [decodeFields, failure?_bind_cons, ih]
      exact (firstFailure?_cons _ _ _).symm

theorem children_of_headKind {head : Json} (h : head.headKind = .datum) (rest : List Json) :
    (array (head :: rest)).children = [] := by
  unfold children
  split <;> simp_all

theorem children_of_second {second : Json} (h : ∀ args, second ≠ .array args) (head : Json)
    (rest : List Json) : (array (head :: second :: rest)).children = [] := by
  unfold children
  split <;> simp_all

theorem children_of_many {items : List Json} (h : 3 < items.length) : (array items).children = [] := by
  unfold children
  split <;> simp_all

theorem optionChildren_of_ne {third : Json} (h : ∀ options, third ≠ .object options) :
    third.optionChildren = [] := by
  cases third with
  | object options => exact absurd rfl (h options)
  | _ => rfl

section Operation

variable {kind : Kind} {items args : List Json} {options : Fields Json} {x : Error}

theorem children_two (hkind : kind ≠ .datum) :
    (array [kind.numeral, .array args]).children = numbered .argument args 0 :=
  if_neg (by rwa [headKind_numeral])

theorem children_three (hkind : kind ≠ .datum) (third : Json) :
    (array [kind.numeral, .array args, third]).children =
      numbered .argument args 0 ++ third.optionChildren :=
  if_neg (by rwa [headKind_numeral])

theorem Parts.exists_decode_child {head : Json} {terms : List Term} {named : Fields Term}
    (hparts : Parts items head args options)
    (hterms : List.Forall₂ (fun v t => v.decode = .ok t) args terms)
    (hnamed : Fields.Aligned (fun v t => v.decode = .ok t) options named) {step : WireStep} {c : Json}
    (hc : Child (.array items) step c) : ∃ t, c.decode = .ok t := by
  have hargs : ∀ v ∈ args, ∃ t, v.decode = .ok t := exists_forall₂_iff.mp ⟨terms, hterms⟩
  have hoptions : ∀ o ∈ options, ∃ t, o.2.decode = .ok t :=
    Fields.exists_aligned_iff.mp ⟨named, hnamed⟩
  cases hparts with
  | head => cases hc
  | args =>
      cases hc with
      | argument _ hindex => exact hargs _ (List.mem_of_getElem? hindex)
  | options =>
      cases hc with
      | argument _ hindex => exact hargs _ (List.mem_of_getElem? hindex)
      | option hmem => exact hoptions _ hmem

theorem Parts.faulty {terms : List Term} {named : Fields Term}
    (hparts : Parts items kind.numeral args options) (hkind : kind ≠ .datum)
    (hterms : List.Forall₂ (fun v t => v.decode = .ok t) args terms)
    (hnamed : Fields.Aligned (fun v t => v.decode = .ok t) options named)
    (h : makeOperation kind terms named = .error x) :
    (∀ c ∈ (array items).children, ∃ t, c.2.decode = .ok t) ∧ Faulty (.array items) x := by
  have hchild : ∀ step c, Child (.array items) step c → ∃ t, c.decode = .ok t :=
    fun _ _ hc => hparts.exists_decode_child hterms hnamed hc
  refine ⟨fun c hc => hchild _ _ (child_of_mem_children hc), ?_⟩
  have hcases := makeOperation_eq_error hkind h
  rw [hnamed.names_eq, ← hterms.length_eq] at hcases
  rcases hcases with ⟨name, hname, hrefused, rfl⟩ | ⟨haccepted, hcount, rfl⟩
  · exact .option hparts hchild hname hrefused
  · exact .arity hparts hchild haccepted hcount

end Operation

/-- `v.FailsWith x`: the error of a value is that of the first of its children
that fails. If none of them does, the value is at fault itself. -/
def FailsWith (v : Json) (x : Error) : Prop :=
  firstFailure? Error.under decode v.children = some x ∨
    (∀ c ∈ v.children, ∃ t, c.2.decode = .ok t) ∧ v.Faulty x

section Array

variable {head second third : Json} {rest : List Json} {kind : Kind} {x : Error}

theorem failsWith_of_operation (hrest : rest.length ≤ 2) (h : head.operation = .error x) :
    FailsWith (.array (head :: rest)) x := by
  obtain ⟨reason, rfl, hreason⟩ := noKind_of_operation h
  refine .inr ⟨?_, .shape (.head hrest hreason)⟩
  rw [children_of_headKind (headKind_of_noKind hreason)]
  exact List.forall_mem_nil _

/-- The arguments are the first children, so an error there is the first one. -/
theorem failsWith_of_decodeArgs (hrest : rest.length ≤ 1) (hkind : kind ≠ .datum)
    (h : decodeArgs second = .error x) : FailsWith (.array (kind.numeral :: second :: rest)) x := by
  cases second with
  | array args =>
      have hargs : firstFailure? Error.under decode (numbered .argument args 0) = some x := by
        rw [← failure?_decodeItems]
        exact failure?_eq_some_iff.mpr h
      refine .inl ?_
      rcases rest with _ | ⟨third, _ | ⟨fourth, rest⟩⟩
      · rw [children_two hkind, hargs]
      · rw [children_three hkind, firstFailure?_append, hargs, Option.some_or]
      · simp at hrest
  | _ =>
      obtain rfl := Except.error.inj h
      refine .inr ⟨?_, .shape (.arguments hrest hkind fun _ => Json.noConfusion)⟩
      rw [children_of_second fun _ => Json.noConfusion]
      exact List.forall_mem_nil _

/-- The options are the next children, after arguments that do not fail. -/
theorem failsWith_of_decodeOptions {args : List Json} (hkind : kind ≠ .datum)
    (hargs : ∀ v ∈ args, ∃ t, v.decode = .ok t) (h : decodeOptions third = .error x) :
    FailsWith (.array [kind.numeral, .array args, third]) x := by
  have hnumbered : ∀ part ∈ numbered WireStep.argument args 0, ∃ t, part.2.decode = .ok t := by
    intro part hpart
    obtain ⟨index, hindex, -⟩ := mem_numbered hpart
    exact hargs _ (List.mem_of_getElem? hindex)
  cases third with
  | object options =>
      refine .inl ?_
      rw [children_three hkind, firstFailure?_append, firstFailure?_eq_none_iff.mpr hnumbered,
        Option.none_or, optionChildren, ← failure?_decodeFields]
      exact failure?_eq_some_iff.mpr h
  | _ =>
      obtain rfl := Except.error.inj h
      refine .inr ⟨?_, .shape (.options hkind fun _ => Json.noConfusion)⟩
      rw [children_three hkind, optionChildren_of_ne fun _ => Json.noConfusion, List.append_nil]
      exact hnumbered

end Array

/-- An operation without arguments and options is refused for neither, so an
object fails with a member. -/
theorem failsWith_object {fields : Fields Json} {x : Error}
    (h : (object fields).decode = .error x) : FailsWith (.object fields) x := by
  rcases bind_eq_error_iff.mp h with hfields | ⟨members, -, hmake⟩
  · refine .inl ?_
    rw [children, ← failure?_decodeFields]
    exact failure?_eq_some_iff.mpr hfields
  · have hmade : makeOperation .makeObj [] members = .ok (.object (Fields.ofList members)) :=
      makeOperation_eq_ok_iff.mpr ⟨by decide, rfl, fun _ _ => rfl, rfl⟩
    rw [hmade] at hmake
    cases hmake

/-- The steps of the decoder in an array, in their order. -/
theorem failsWith_array {items : List Json} {x : Error} (h : (array items).decode = .error x) :
    FailsWith (.array items) x := by
  -- the steps differ by the number of elements: none, one, two, three, and more
  rcases items with _ | ⟨head, _ | ⟨second, _ | ⟨third, _ | ⟨fourth, rest⟩⟩⟩⟩
  · obtain rfl := Except.error.inj h
    exact .inr ⟨List.forall_mem_nil _, .shape .none⟩
  · rcases bind_eq_error_iff.mp h with hoperation | ⟨kind, hkind, hmake⟩
    · exact failsWith_of_operation (Nat.zero_le 2) hoperation
    · obtain ⟨rfl, hne⟩ := operation_eq_ok_iff.mp hkind
      exact .inr ((Parts.head _).faulty hne .nil .nil hmake)
  · rcases bind_eq_error_iff.mp h with hoperation | ⟨kind, hkind, hparts⟩
    · exact failsWith_of_operation (by decide : 1 ≤ 2) hoperation
    · obtain ⟨rfl, hne⟩ := operation_eq_ok_iff.mp hkind
      rcases bind_eq_error_iff.mp hparts with hargs | ⟨terms, hargs, hmake⟩
      · exact failsWith_of_decodeArgs (Nat.zero_le 1) hne hargs
      · obtain ⟨args, rfl, hterms⟩ := decodeArgs_eq_ok_iff.mp hargs
        exact .inr ((Parts.args _ _).faulty hne hterms .nil hmake)
  · rcases bind_eq_error_iff.mp h with hoperation | ⟨kind, hkind, hparts⟩
    · exact failsWith_of_operation (Nat.le_refl 2) hoperation
    · obtain ⟨rfl, hne⟩ := operation_eq_ok_iff.mp hkind
      rcases bind_eq_error_iff.mp hparts with hargs | ⟨terms, hargs, hrest⟩
      · exact failsWith_of_decodeArgs (Nat.le_refl 1) hne hargs
      · obtain ⟨args, rfl, hterms⟩ := decodeArgs_eq_ok_iff.mp hargs
        rcases bind_eq_error_iff.mp hrest with hoptions | ⟨named, hoptions, hmake⟩
        · exact failsWith_of_decodeOptions hne (exists_forall₂_iff.mp ⟨terms, hterms⟩) hoptions
        · obtain ⟨options, rfl, hnamed⟩ := decodeOptions_eq_ok_iff.mp hoptions
          exact .inr ((Parts.options _ _ _).faulty hne hterms hnamed hmake)
  · obtain rfl := Except.error.inj h
    have hmany : 3 < (head :: second :: third :: fourth :: rest).length := by simp
    refine .inr ⟨?_, .shape (.many hmany)⟩
    rw [children_of_many hmany]
    exact List.forall_mem_nil _

theorem failsWith_of_decode {v : Json} {x : Error} (h : v.decode = .error x) : v.FailsWith x := by
  cases v with
  | array items => exact failsWith_array h
  | object fields => exact failsWith_object h
  | _ => cases h

/-! ### The first value at fault -/

theorem leads_of_mem_positions {v : Json} {p : List WireStep × Json} (h : p ∈ v.positions) :
    v.Leads p.1 p.2 := by
  induction v using induction_children generalizing p with
  | h v ih =>
      rw [positions_eq] at h
      rcases List.mem_append.mp h with h | h
      · obtain ⟨c, hc, h⟩ := List.mem_flatMap.mp h
        obtain ⟨q, hq, rfl⟩ := List.mem_map.mp h
        exact .child (child_of_mem_children hc) (ih c hc hq)
      · obtain rfl := List.mem_singleton.mp h
        exact .here v

theorem exists_decode_child {v c : Json} {t : Term} {step : WireStep} (h : v.decode = .ok t)
    (hc : Child v step c) : ∃ s, c.decode = .ok s := by
  cases v with
  | array items =>
      obtain ⟨kind, args, options, terms, named, hparts, hterms, hnamed, -⟩ := decode_array_iff.mp h
      exact hparts.exists_decode_child hterms hnamed hc
  | object fields =>
      obtain ⟨named, hnamed, -⟩ := decode_object_iff.mp h
      have hfields : ∀ f ∈ fields, ∃ s, f.2.decode = .ok s :=
        Fields.exists_aligned_iff.mp ⟨named, hnamed⟩
      cases hc with
      | member hmem => exact hfields _ hmem
  | _ => cases hc

/-- A value that can be decoded can be decoded at all its positions. -/
theorem exists_decode_position {v : Json} {t : Term} (h : v.decode = .ok t) :
    ∀ p ∈ v.positions, ∃ s, p.2.decode = .ok s := by
  induction v using induction_children generalizing t with
  | h v ih =>
      intro p hp
      rw [positions_eq] at hp
      rcases List.mem_append.mp hp with hp | hp
      · obtain ⟨c, hc, hp⟩ := List.mem_flatMap.mp hp
        obtain ⟨q, hq, rfl⟩ := List.mem_map.mp hp
        obtain ⟨s, hs⟩ := exists_decode_child h (child_of_mem_children hc)
        exact ih c hc hs q hq
      · obtain rfl := List.mem_singleton.mp hp
        exact ⟨t, h⟩

theorem exists_decode_positionsIn {children : List (WireStep × Json)}
    (h : ∀ c ∈ children, ∃ t, c.2.decode = .ok t) :
    ∀ p ∈ children.flatMap positionsIn, ∃ s, p.2.decode = .ok s := by
  intro p hp
  obtain ⟨c, hc, hp⟩ := List.mem_flatMap.mp hp
  obtain ⟨q, hq, rfl⟩ := List.mem_map.mp hp
  obtain ⟨t, ht⟩ := h c hc
  exact exists_decode_position ht q hq

/-- The first position that cannot be decoded is at fault itself, and its error
is that of the whole. -/
theorem exists_position_at_fault {v : Json} {x : Error} (h : v.decode = .error x) :
    ∃ before steps u after e, v.positions = before ++ (steps, u) :: after ∧
      (∀ p ∈ before, ∃ t, p.2.decode = .ok t) ∧ u.decode = .error e ∧ u.Faulty e ∧
        x = e.along steps := by
  induction v using induction_children generalizing x with
  | h v ih =>
      rcases failsWith_of_decode h with hchild | ⟨hchildren, hfaulty⟩
      · obtain ⟨front, c, back, inner, hparts, hfront, hc, rfl⟩ :=
          firstFailure?_eq_some_iff.mp hchild
        have hmem : c ∈ v.children := by simp [hparts]
        obtain ⟨before, steps, u, after, e, hpositions, hbefore, hu, hfaulty, rfl⟩ := ih c hmem hc
        have hinside : positionsIn c = before.map (fun p => (c.1 :: p.1, p.2)) ++
            (c.1 :: steps, u) :: after.map (fun p => (c.1 :: p.1, p.2)) := by
          rw [positionsIn, hpositions, List.map_append, List.map_cons]
        refine ⟨front.flatMap positionsIn ++ before.map (fun p => (c.1 :: p.1, p.2)),
          c.1 :: steps, u, after.map (fun p => (c.1 :: p.1, p.2)) ++
            (back.flatMap positionsIn ++ [([], v)]), e, ?_, ?_, hu, hfaulty,
          (e.along_cons c.1 steps).symm⟩
        -- what is in the children before the one that fails comes first, then what is in that one
        · rw [positions_eq, hparts, List.flatMap_append, List.flatMap_cons, hinside]
          simp only [List.append_assoc, List.cons_append]
        · intro p hp
          rcases List.mem_append.mp hp with hp | hp
          · exact exists_decode_positionsIn hfront p hp
          · obtain ⟨q, hq, rfl⟩ := List.mem_map.mp hp
            exact hbefore q hq
      · exact ⟨v.children.flatMap positionsIn, [], v, [], x, v.positions_eq,
          exists_decode_positionsIn hchildren, h, hfaulty, x.along_nil.symm⟩

/-- An error of the decoder is that of one term in the value. What the decoder
is done with before that term can be decoded, and the term is at fault itself:
its own error is about the whole of it. In the error of the value the steps to
the term stand in front, and all else is the same. -/
theorem decode_error_located {v : Json} {x : Error} (h : v.decode = .error x) :
    ∃ before steps u after e, v.positions = before ++ (steps, u) :: after ∧ v.Leads steps u ∧
      (∀ p ∈ before, ∃ t, p.2.decode = .ok t) ∧ u.decode = .error e ∧ u.Faulty e ∧
        x = e.along steps ∧
        ∀ reason, e = .decode [] reason →
          x.message = "invalid wire term at $" ++ String.join (steps.map WireStep.text) ++ ": " ++
            reason.message := by
  obtain ⟨before, steps, u, after, e, hpositions, hbefore, hu, hfaulty, rfl⟩ :=
    exists_position_at_fault h
  have hmem : (steps, u) ∈ v.positions := by simp [hpositions]
  refine ⟨before, steps, u, after, e, hpositions, leads_of_mem_positions hmem, hbefore, hu, hfaulty,
    rfl, ?_⟩
  rintro reason rfl
  rw [Error.along, List.append_nil, Error.message_decode]

/-- A sum with an object in it that has an array without elements. -/
def sumWithEmpty : Json :=
  .array [Kind.add.numeral, .array [.null, .object [("k", .array [])], .array []]]

theorem decode_error_located_sumWithEmpty :
    sumWithEmpty.decode = .error (.decode [.argument 1, .member "k"] (.length 0)) ∧
      ∃ before steps u after e, sumWithEmpty.positions = before ++ (steps, u) :: after ∧
        sumWithEmpty.Leads steps u ∧ (∀ p ∈ before, ∃ t, p.2.decode = .ok t) ∧
        u.decode = .error e ∧ u.Faulty e ∧
        Error.decode [.argument 1, .member "k"] (.length 0) = e.along steps ∧
        ∀ reason, e = .decode [] reason →
          (Error.decode [.argument 1, .member "k"] (.length 0)).message =
            "invalid wire term at $" ++ String.join (steps.map WireStep.text) ++ ": " ++
              reason.message := by
  have hkind : Kind.add.numeral.operation = .ok .add := operation_eq_ok_iff.mpr ⟨rfl, by decide⟩
  have herror : sumWithEmpty.decode = .error (.decode [.argument 1, .member "k"] (.length 0)) := by
    rw [sumWithEmpty, decode, hkind]
    rfl
  exact ⟨herror, decode_error_located herror⟩

end Json
end Reql
