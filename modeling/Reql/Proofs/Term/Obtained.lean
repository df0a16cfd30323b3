import Reql.Proofs.Wire.Decoding

/-!
Terms that the library builds.

A `Construction` is one call of a function of the library that makes terms.
What is given to it may hold any terms that were made before, anywhere and as
often as one likes, and what it gives may be taken apart again. `Obtained`
collects the terms of a finite sequence of such calls. The invariant of these
sequences is that all terms are well-formed: `Construction.results_wellFormed`
is the step, and `Obtained.wellFormed` the run.

The body of a function is not a call of its own. It makes its terms from the
parameters, so its calls stand in the sequence before the one that makes the
function. Sequences can be put one after the other, so what can be obtained is
closed under all calls.
-/

namespace Reql

/-! ### Calls -/

/-- A call of a function that makes terms. -/
inductive Construction
  | make (kind : Kind) (receiver : Option Term) (args : List Arg) (options : List (String × Arg))
  | chain (receiver : Term) (kind : Kind) (args : List Arg) (options : List (String × Arg))
  | build (kind : Kind) (script : List Term.Piece)
  | start (operation : Operation) (args : List Arg)
  | apply (operation : Operation) (receiver : Term) (args : List Arg)
      (options : List (String × Arg)) (ids : IdSupply)
  | coerce (value : Arg)
  | native (value : Native)
  /-- A leaf, whatever the datum. -/
  | datum (value : Datum)
  | var (id : UInt64)
  | implicitVar
  | function (ids : List UInt64) (body : Term)
  | wrap (t : Term) (ids : IdSupply)
  | globalOption (q : Query) (name : String) (value : Arg)
  | decode (v : Json)
  | decodeText (text : String)
  | argument (t : Term) (index : Nat)
  | option (t : Term) (name : String)

namespace Construction

/-- `call.Admissible P`: the terms in what is given are among those that
satisfy `P`. -/
def Admissible (P : Term → Prop) : Construction → Prop
  | .make _ receiver args options =>
      (∀ r ∈ receiver.toList, P r) ∧ (∀ a ∈ args, a.Admissible P) ∧
        ∀ o ∈ options, o.2.Admissible P
  | .chain receiver _ args options =>
      P receiver ∧ (∀ a ∈ args, a.Admissible P) ∧ ∀ o ∈ options, o.2.Admissible P
  | .build _ script => ∀ piece ∈ script, piece.Admissible P
  | .start _ args => ∀ a ∈ args, a.Admissible P
  | .apply _ receiver args options _ =>
      P receiver ∧ (∀ a ∈ args, a.Admissible P) ∧ ∀ o ∈ options, o.2.Admissible P
  | .coerce value => value.Admissible P
  | .native _ => True
  | .datum _ => True
  | .var _ => True
  | .implicitVar => True
  | .function _ body => P body
  | .wrap t _ => P t
  | .globalOption q _ value => (∀ t ∈ q.terms, P t) ∧ value.Admissible P
  | .decode _ => True
  | .decodeText _ => True
  | .argument t _ => P t
  | .option t _ => P t

/-- `call.results` are the terms that a call gives, none if it fails. -/
def results : Construction → List Term
  | .make kind receiver args options =>
      (Term.make kind receiver (.ofList args) (.ofList options)).toOption.toList
  | .chain receiver kind args options =>
      (receiver.chain kind (.ofList args) (.ofList options)).toOption.toList
  | .build kind script => (Term.ofScript kind script).toOption.toList
  | .start operation args => (operation.start args).toOption.toList
  | .apply operation receiver args options ids =>
      (operation.apply receiver args (.ofList options) ids).1.toOption.toList
  | .coerce value => value.toTerm.toOption.toList
  | .native value => value.toTerm.toOption.toList
  | .datum value => [.datum value]
  | .var id => [.var id]
  | .implicitVar => [.implicitVar]
  | .function ids body => (Term.function ids body).toOption.toList
  | .wrap t ids => [(t.wrap ids).1]
  | .globalOption q name value => (q.withOption name value).toOption.toList.flatMap Query.terms
  | .decode v => v.decode.toOption.toList
  | .decodeText text => (Term.ofText text).toOption.toList
  | .argument t index => (t.arg? index).toList
  | .option t name => (t.option? name).toList

theorem Admissible.imp {P Q : Term → Prop} {call : Construction} (hPQ : ∀ t, P t → Q t)
    (h : call.Admissible P) : call.Admissible Q := by
  have hargs : ∀ {args : List Arg}, (∀ a ∈ args, a.Admissible P) →
      ∀ a ∈ args, a.Admissible Q := fun h a ha => (h a ha).imp hPQ
  have hoptions : ∀ {options : List (String × Arg)}, (∀ o ∈ options, o.2.Admissible P) →
      ∀ o ∈ options, o.2.Admissible Q := fun h o ho => (h o ho).imp hPQ
  cases call with
  | make kind receiver args options =>
      exact ⟨fun r hr => hPQ r (h.1 r hr), hargs h.2.1, hoptions h.2.2⟩
  | chain receiver kind args options => exact ⟨hPQ _ h.1, hargs h.2.1, hoptions h.2.2⟩
  | build kind script => exact fun piece hpiece => (h piece hpiece).imp hPQ
  | start operation args => exact hargs h
  | apply operation receiver args options ids => exact ⟨hPQ _ h.1, hargs h.2.1, hoptions h.2.2⟩
  | coerce value => exact Arg.Admissible.imp hPQ h
  | function ids body => exact hPQ _ h
  | wrap t ids => exact hPQ _ h
  | globalOption q name value => exact ⟨fun t ht => hPQ t (h.1 t ht), h.2.imp hPQ⟩
  | argument t index => exact hPQ _ h
  | option t name => exact hPQ _ h
  | native value => trivial
  | datum value => trivial
  | var id => trivial
  | implicitVar => trivial
  | decode v => trivial
  | decodeText text => trivial

theorem mem_toList_toOption {ε α : Type} {x : Except ε α} {a : α} :
    a ∈ x.toOption.toList ↔ x = .ok a := by
  cases x <;> simp [Except.toOption, eq_comm]

theorem results_wellFormed {call : Construction} (h : call.Admissible Term.WellFormed) :
    ∀ t ∈ call.results, t.WellFormed := by
  intro t ht
  cases call with
  | make kind receiver args options =>
      exact Term.make_wellFormed h.1 (Arguments.admissible_ofList h.2.1)
        (Options.admissible_ofList h.2.2) (mem_toList_toOption.mp ht)
  | chain receiver kind args options =>
      exact Term.chain_wellFormed h.1 h.2.1 (Options.admissible_ofList h.2.2)
        (mem_toList_toOption.mp ht)
  | build kind script => exact Term.ofScript_wellFormed h (mem_toList_toOption.mp ht)
  | start operation args => exact Operation.start_wellFormed h (mem_toList_toOption.mp ht)
  | apply operation receiver args options ids =>
      exact Operation.apply_wellFormed h.1 h.2.1 (Options.admissible_ofList h.2.2)
        (mem_toList_toOption.mp ht)
  | coerce value =>
      exact Arg.coerce_wellFormed h (Arg.toTerm_eq_ok_iff.mp (mem_toList_toOption.mp ht))
  | native value => exact Native.toTerm_wellFormed (mem_toList_toOption.mp ht)
  | datum value =>
      obtain rfl := List.mem_singleton.mp ht
      exact Term.wellFormed_datum value
  | var id =>
      obtain rfl := List.mem_singleton.mp ht
      exact Term.wellFormed_var id
  | implicitVar =>
      obtain rfl := List.mem_singleton.mp ht
      exact Term.wellFormed_implicitVar
  | function ids body => exact Term.function_wellFormed h (mem_toList_toOption.mp ht)
  | wrap t ids =>
      obtain rfl := List.mem_singleton.mp ht
      exact Term.wrap_wellFormed h ids
  | globalOption q name value =>
      obtain ⟨q', hq', ht⟩ := List.mem_flatMap.mp ht
      exact Query.withOption_wellFormed h.1 h.2 (mem_toList_toOption.mp hq') t ht
  | decode v => exact Json.decode_wellFormed (mem_toList_toOption.mp ht)
  | decodeText text => exact Term.ofText_wellFormed (mem_toList_toOption.mp ht)
  | argument s index =>
      exact Term.WellFormed.arg h (List.mem_of_getElem? (Option.mem_toList.mp ht))
  | option s name =>
      obtain ⟨o, ho, rfl⟩ := Fields.exists_mem_of_get? (Option.mem_toList.mp ht)
      exact Term.WellFormed.option h ho

end Construction

/-! ### Sequences of calls -/

/-- The terms of a finite sequence of calls, the latest first. Each call may
use whatever the calls before it have given. -/
inductive Obtained : List Term → Prop
  | nothing : Obtained []
  | next {pool : List Term} (call : Construction) :
      Obtained pool → call.Admissible (· ∈ pool) → Obtained (call.results ++ pool)

theorem Obtained.wellFormed {pool : List Term} (h : Obtained pool) :
    ∀ t ∈ pool, t.WellFormed := by
  induction h with
  | nothing => exact List.forall_mem_nil _
  | next call _ hcall ih =>
      have hgiven : call.Admissible Term.WellFormed := hcall.imp ih
      exact List.forall_mem_append.mpr ⟨call.results_wellFormed hgiven, ih⟩

/-! ### Putting sequences together -/

def Obtainable (t : Term) : Prop := ∃ pool, Obtained pool ∧ t ∈ pool

theorem Obtainable.wellFormed {t : Term} (h : Obtainable t) : t.WellFormed := by
  obtain ⟨pool, hpool, ht⟩ := h
  exact hpool.wellFormed t ht

theorem Obtained.append {pool others : List Term} (h : Obtained pool) (hothers : Obtained others) :
    Obtained (pool ++ others) := by
  induction h with
  | nothing => exact hothers
  | next call _ hcall ih =>
      rw [List.append_assoc]
      exact .next call ih (hcall.imp fun t ht => List.mem_append_left _ ht)

/-- Two sequences of calls, one after the other, give what both of them
give. -/
theorem exists_pool_and (A B : (Term → Prop) → Prop)
    (hA : ∀ P Q, (∀ t, P t → Q t) → A P → A Q) (hB : ∀ P Q, (∀ t, P t → Q t) → B P → B Q)
    (ha : ∃ pool, Obtained pool ∧ A (· ∈ pool)) (hb : ∃ pool, Obtained pool ∧ B (· ∈ pool)) :
    ∃ pool, Obtained pool ∧ A (· ∈ pool) ∧ B (· ∈ pool) := by
  obtain ⟨pool, hpool, ha⟩ := ha
  obtain ⟨others, hothers, hb⟩ := hb
  refine ⟨pool ++ others, hpool.append hothers, hA _ _ ?_ ha, hB _ _ ?_ hb⟩
  · exact fun t ht => List.mem_append_left _ ht
  · exact fun t ht => List.mem_append_right _ ht

theorem exists_pool_forall {α : Type} (A : (Term → Prop) → α → Prop)
    (hA : ∀ P Q a, (∀ t, P t → Q t) → A P a → A Q a) {items : List α}
    (h : ∀ a ∈ items, ∃ pool, Obtained pool ∧ A (· ∈ pool) a) :
    ∃ pool, Obtained pool ∧ ∀ a ∈ items, A (· ∈ pool) a := by
  induction items with
  | nil => exact ⟨[], .nothing, List.forall_mem_nil _⟩
  | cons a rest ih =>
      obtain ⟨ha, hrest⟩ := List.forall_mem_cons.mp h
      obtain ⟨pool, hpool, hboth⟩ := exists_pool_and (A · a) (fun P => ∀ a ∈ rest, A P a)
        (fun P Q hPQ => hA P Q a hPQ) (fun P Q hPQ h a ha => hA P Q a hPQ (h a ha)) ha (ih hrest)
      exact ⟨pool, hpool, List.forall_mem_cons.mpr hboth⟩

namespace Arg

mutual

theorem exists_pool : ∀ a : Arg, a.Admissible Obtainable →
    ∃ pool, Obtained pool ∧ a.Admissible (· ∈ pool)
  | .term _, h => h
  | .value _, h => ⟨[], .nothing, h⟩
  | .array items, h => exists_pool_items items h
  | .object fields, h => by
      obtain ⟨pool, hpool, hfields⟩ := exists_pool_fields fields h.2
      exact ⟨pool, hpool, h.1, hfields⟩
  | .bundle items, h => exists_pool_items items h

theorem exists_pool_items : ∀ items : List Arg, AdmissibleItems Obtainable items →
    ∃ pool, Obtained pool ∧ AdmissibleItems (· ∈ pool) items
  | [], _ => ⟨[], .nothing, trivial⟩
  | a :: rest, h =>
      exists_pool_and (fun P => a.Admissible P) (fun P => AdmissibleItems P rest)
        (fun _ _ hPQ => Admissible.imp hPQ) (fun _ _ hPQ => AdmissibleItems.imp hPQ)
        (exists_pool a h.1) (exists_pool_items rest h.2)

theorem exists_pool_fields : ∀ fields : List (String × Arg), AdmissibleFields Obtainable fields →
    ∃ pool, Obtained pool ∧ AdmissibleFields (· ∈ pool) fields
  | [], _ => ⟨[], .nothing, trivial⟩
  | (_, a) :: rest, h =>
      exists_pool_and (fun P => a.Admissible P) (fun P => AdmissibleFields P rest)
        (fun _ _ hPQ => Admissible.imp hPQ) (fun _ _ hPQ => AdmissibleFields.imp hPQ)
        (exists_pool a h.1) (exists_pool_fields rest h.2)

end

theorem exists_pool_list {args : List Arg} (h : ∀ a ∈ args, a.Admissible Obtainable) :
    ∃ pool, Obtained pool ∧ ∀ a ∈ args, a.Admissible (· ∈ pool) := by
  simp only [← admissibleItems_iff] at h ⊢
  exact exists_pool_items args h

theorem exists_pool_options {options : List (String × Arg)}
    (h : ∀ o ∈ options, o.2.Admissible Obtainable) :
    ∃ pool, Obtained pool ∧ ∀ o ∈ options, o.2.Admissible (· ∈ pool) := by
  simp only [← admissibleFields_iff] at h ⊢
  exact exists_pool_fields options h

theorem exists_pool_call {args : List Arg} {options : List (String × Arg)}
    (hargs : ∀ a ∈ args, a.Admissible Obtainable)
    (hoptions : ∀ o ∈ options, o.2.Admissible Obtainable) :
    ∃ pool, Obtained pool ∧ (∀ a ∈ args, a.Admissible (· ∈ pool)) ∧
      ∀ o ∈ options, o.2.Admissible (· ∈ pool) :=
  exists_pool_and (fun P => ∀ a ∈ args, a.Admissible P) (fun P => ∀ o ∈ options, o.2.Admissible P)
    (fun _ _ hPQ h a ha => (h a ha).imp hPQ) (fun _ _ hPQ h o ho => (h o ho).imp hPQ)
    (exists_pool_list hargs) (exists_pool_options hoptions)

end Arg

theorem exists_pool_terms {ts : List Term} (h : ∀ t ∈ ts, Obtainable t) :
    ∃ pool, Obtained pool ∧ ∀ t ∈ ts, t ∈ pool :=
  exists_pool_forall (fun P t => P t) (fun _ _ t hPQ => hPQ t) h

theorem Term.Piece.exists_pool {piece : Piece} (h : piece.Admissible Obtainable) :
    ∃ pool, Obtained pool ∧ piece.Admissible (· ∈ pool) := by
  cases piece with
  | receiver t => exact h
  | arg a => exact Arg.exists_pool a h
  | args items => exact Arg.exists_pool_list h
  | option name value => exact Arg.exists_pool value h

/-- One sequence of calls gives everything that a further call is given. -/
theorem Construction.exists_pool {call : Construction} (h : call.Admissible Obtainable) :
    ∃ pool, Obtained pool ∧ call.Admissible (· ∈ pool) := by
  have hmono : ∀ {args : List Arg} {options : List (String × Arg)} (P Q : Term → Prop),
      (∀ t, P t → Q t) →
      ((∀ a ∈ args, a.Admissible P) ∧ ∀ o ∈ options, o.2.Admissible P) →
      (∀ a ∈ args, a.Admissible Q) ∧ ∀ o ∈ options, o.2.Admissible Q := fun _ _ hPQ h =>
    ⟨fun a ha => (h.1 a ha).imp hPQ, fun o ho => (h.2 o ho).imp hPQ⟩
  cases call with
  | make kind receiver args options =>
      exact exists_pool_and (fun P => ∀ r ∈ receiver.toList, P r) _
        (fun _ _ hPQ h r hr => hPQ r (h r hr)) hmono
        (exists_pool_terms h.1) (Arg.exists_pool_call h.2.1 h.2.2)
  | chain receiver kind args options =>
      exact exists_pool_and (fun P => P receiver) _ (fun _ _ hPQ => hPQ receiver) hmono h.1
        (Arg.exists_pool_call h.2.1 h.2.2)
  | apply operation receiver args options ids =>
      exact exists_pool_and (fun P => P receiver) _ (fun _ _ hPQ => hPQ receiver) hmono h.1
        (Arg.exists_pool_call h.2.1 h.2.2)
  | build kind script =>
      exact exists_pool_forall Term.Piece.Admissible (fun _ _ _ hPQ h => h.imp hPQ)
        fun piece hpiece => Term.Piece.exists_pool (h piece hpiece)
  | start operation args => exact Arg.exists_pool_list h
  | coerce value => exact Arg.exists_pool value h
  | function ids body => exact h
  | wrap t ids => exact h
  | globalOption q name value =>
      exact exists_pool_and (fun P => ∀ t ∈ q.terms, P t) (fun P => value.Admissible P)
        (fun _ _ hPQ h t ht => hPQ t (h t ht)) (fun _ _ hPQ h => h.imp hPQ)
        (exists_pool_terms h.1) (Arg.exists_pool value h.2)
  | argument t index => exact h
  | option t name => exact h
  | native value => exact ⟨[], .nothing, trivial⟩
  | datum value => exact ⟨[], .nothing, trivial⟩
  | var id => exact ⟨[], .nothing, trivial⟩
  | implicitVar => exact ⟨[], .nothing, trivial⟩
  | decode v => exact ⟨[], .nothing, trivial⟩
  | decodeText text => exact ⟨[], .nothing, trivial⟩

/-- `Construction.Keep P`: a call that is given terms with the property gives
terms with it. -/
def Construction.Keep (P : Term → Prop) : Prop :=
  ∀ call : Construction, call.Admissible P → ∀ t ∈ call.results, P t

/-- What can be obtained is all that calls give. -/
theorem keep_obtainable : Construction.Keep Obtainable := by
  intro call hcall t ht
  obtain ⟨pool, hpool, hgiven⟩ := Construction.exists_pool hcall
  exact ⟨_, .next call hpool hgiven, List.mem_append_left _ ht⟩

def Term.users : Term := .node .table [.datum (.string "users")] []

theorem obtained_users : Obtained [.users] :=
  .next (.start ⟨.table, .one⟩ [.value (.string "users")]) .nothing
    (List.forall_mem_singleton.mpr trivial)

theorem obtainable_users : Obtainable .users := ⟨_, obtained_users, List.mem_singleton_self _⟩

end Reql
