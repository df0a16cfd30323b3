import Reql.Program
import Reql.Proofs.Term.Obtained

/-!
What programs give.

A program makes its terms by the calls of `Construction`, one after the
other. So whatever those calls keep holds of the result of every program that
starts from terms with it, however its functions and arguments are nested and
wherever it draws its identifiers; `run_of_kept` says this of an arbitrary
property. In particular programs give only terms that some sequence of calls
gives, so the invariant of the sequences is one of programs, too.
-/

namespace Reql

/-! ### Results of routines -/

namespace Routine

variable {α β : Type}

theorem run_andThen (f : Except Program.Failure α → Routine β) (b : Routine α) (s : Supplies) :
    (b.andThen f).run s = (f (b.run s).1).run (b.run s).2 := by
  induction b generalizing s with
  | done answer => rfl
  | wrap source t next ih => exact ih _ f _
  | apply source o receiver args options next ih => exact ih _ f _
  | function source count body next _ ih => exact ih _ f _

/-- `b.Ensures P`: whatever the routine returns has the property. -/
def Ensures (P : α → Prop) (b : Routine α) : Prop :=
  ∀ s a, (b.run s).1 = .ok a → P a

variable {P : α → Prop} {Q : β → Prop}

theorem ensures_pure {a : α} (h : P a) : Ensures P (pure a) := by
  intro s b hb
  obtain rfl := Except.ok.inj hb
  exact h

theorem ensures_fail (e : Program.Failure) : Ensures P (fail e) := by
  intro s a ha
  cases ha

theorem Ensures.bind {b : Routine α} {f : α → Routine β} (hb : Ensures P b)
    (hf : ∀ a, P a → Ensures Q (f a)) : Ensures Q (b >>= f) := by
  intro s c hc
  change ((b.andThen _).run s).1 = .ok c at hc
  rw [run_andThen] at hc
  cases ha : (b.run s).1 with
  | error e =>
      rw [ha] at hc
      cases hc
  | ok a =>
      rw [ha] at hc
      exact hf a (hb s a ha) _ c hc

theorem ensures_settle {result : Except Error α} (h : ∀ a, result = .ok a → P a) :
    Ensures P (settle result) := by
  cases result with
  | ok a => exact Routine.ensures_pure (h a rfl)
  | error e => exact ensures_fail (.error e)

theorem ensures_wrap {source : Source} {t : Term} {next : Term → Routine α}
    (h : ∀ ids, Ensures P (next (t.wrap ids).1)) : Ensures P (.wrap source t next) :=
  fun _ a ha => h _ _ a ha

theorem ensures_apply {source : Source} {o : Operation} {receiver : Term} {args : List Arg}
    {options : Options} {next : Except Error Term → Routine α}
    (h : ∀ ids, Ensures P (next (o.apply receiver args options ids).1)) :
    Ensures P (.apply source o receiver args options next) :=
  fun _ a ha => h _ _ a ha

theorem ensures_function {R : Term → Prop} {source : Source} {count : Nat}
    {body : List Term → Routine Term} {next : Except Program.Failure Term → Routine α}
    (hbody : ∀ ids : List UInt64, Ensures R (body (ids.map .var)))
    (hnext : ∀ ids answer, (∀ t, answer = .ok t → R t) →
      Ensures P (next (Term.closeFunction .error ids answer))) :
    Ensures P (.function source count body next) :=
  fun _ a ha => hnext _ _ (fun t ht => hbody _ _ t ht) _ a ha

end Routine

/-! ### Proper programs -/

namespace Program

mutual

/-- `p.Proper`: the data in the program name no field of an object twice. -/
def Proper : Program → Prop
  | .make _ _ receiver args options =>
      ProperReceiver receiver ∧ ProperInputs args ∧ ProperFields options
  | .apply _ _ receiver args options =>
      receiver.Proper ∧ ProperInputs args ∧ ProperFields options
  | .chain receiver calls _ => receiver.Proper ∧ ProperCalls calls
  | .start _ args => ProperInputs args
  | .coerce value => ProperInput value
  | .wrap _ body => body.Proper
  | .function _ _ body => body.Proper
  | .ref _ => True
  | .native _ => True
  | .decode _ => True
  | .datum _ => True
  | .var _ => True
  | .implicitVar => True
  | .param _ _ => True

def ProperReceiver : Option Program → Prop
  | none => True
  | some p => p.Proper

def ProperInput : Input → Prop
  | .program p => p.Proper
  | .value d => d.Distinct
  | .array items => ProperInputs items
  | .object fields => ProperFields fields
  | .bundle items => ProperInputs items

def ProperInputs : List Input → Prop
  | [] => True
  | i :: rest => ProperInput i ∧ ProperInputs rest

def ProperFields : List (String × Input) → Prop
  | [] => True
  | (_, i) :: rest => ProperInput i ∧ ProperFields rest

def ProperCalls : List (Operation × List Input) → Prop
  | [] => True
  | (_, args) :: rest => ProperInputs args ∧ ProperCalls rest

end

/-! ### Results -/

open Routine (Ensures)

section Kept

variable {P : Term → Prop}

/-- `scope.All P`: all terms that a program can refer to have the property. -/
structure Scope.All (P : Term → Prop) (scope : Scope) : Prop where
  terms : ∀ o ∈ scope.terms, P o.2
  parameters : ∀ vars ∈ scope.parameters, ∀ t ∈ vars, P t

/-- The variables of the parameters are no exception in the body of a function. -/
theorem Scope.All.enter {scope : Scope} (h : scope.All P) (hvar : ∀ id, P (.var id))
    (ids : List UInt64) :
    All P { scope with parameters := ids.map .var :: scope.parameters } where
  terms := h.terms
  parameters := List.forall_mem_cons.mpr ⟨List.forall_mem_map.mpr fun id _ => hvar id, h.parameters⟩

theorem makeOperation_kept (hP : Construction.Keep P) {kind : Kind} {piecewise : Bool}
    {receiver : Option Term} {args : List Arg} {options : List (String × Arg)}
    (hreceiver : ∀ r ∈ receiver.toList, P r) (hargs : ∀ a ∈ args, a.Admissible P)
    (hoptions : ∀ o ∈ options, o.2.Admissible P) {t : Term}
    (h : makeOperation kind piecewise receiver args options = .ok t) : P t := by
  unfold makeOperation at h
  split at h
  · refine hP (.build kind (pieces receiver args options)) ?_ t
      (Construction.mem_toList_toOption.mpr h)
    intro piece hpiece
    rcases List.mem_append.mp hpiece with hpiece | hpiece
    · rcases List.mem_append.mp hpiece with hpiece | hpiece
      · obtain ⟨r, hr, rfl⟩ := List.mem_map.mp hpiece
        exact hreceiver r hr
      · obtain ⟨a, ha, rfl⟩ := List.mem_map.mp hpiece
        exact hargs a ha
    · obtain ⟨o, ho, rfl⟩ := List.mem_map.mp hpiece
      exact hoptions o ho
  · exact hP (.make kind receiver args options) ⟨hreceiver, hargs, hoptions⟩ t
      (Construction.mem_toList_toOption.mpr h)

theorem ensures_applyOperation (hP : Construction.Keep P) {operation : Operation}
    {source : Source} {receiver : Term} {args : List Arg} {options : List (String × Arg)}
    (hreceiver : P receiver) (hargs : ∀ a ∈ args, a.Admissible P)
    (hoptions : ∀ o ∈ options, o.2.Admissible P) :
    Ensures P (applyOperation operation source receiver args options) :=
  Routine.ensures_apply fun ids => Routine.ensures_settle fun t ht =>
    hP (.apply operation receiver args options ids) ⟨hreceiver, hargs, hoptions⟩ t
      (Construction.mem_toList_toOption.mpr ht)

theorem ensures_iterate {f : Term → Routine Term} (hf : ∀ t, P t → Ensures P (f t))
    (times : Nat) {t : Term} (ht : P t) : Ensures P (iterate f times t) := by
  induction times generalizing t with
  | zero => exact Routine.ensures_pure ht
  | succ n ih => exact (hf t ht).bind fun s hs => ih hs

mutual

/-- Each expression by the call that it makes. -/
theorem ensures_eval (hP : Construction.Keep P) :
    ∀ (p : Program) (scope : Scope), scope.All P → p.Proper →
      Ensures P (eval scope p)
  | .ref name, scope, hscope, _ => by
      rw [eval]
      split
      · rename_i t ht
        obtain ⟨o, ho, rfl⟩ := Fields.exists_mem_of_get? ht
        exact Routine.ensures_pure (hscope.terms o ho)
      · exact Routine.ensures_fail _
  | .make kind piecewise receiver args options, scope, hscope, hp => by
      rw [eval]
      refine (ensures_evalReceiver hP receiver scope hscope hp.1).bind fun r hr => ?_
      refine (ensures_evalInputs hP args scope hscope hp.2.1).bind fun as has => ?_
      refine (ensures_evalFields hP options scope hscope hp.2.2).bind fun os hos => ?_
      exact Routine.ensures_settle fun t ht => makeOperation_kept hP hr has hos ht
  | .apply operation source receiver args options, scope, hscope, hp => by
      rw [eval]
      refine (ensures_eval hP receiver scope hscope hp.1).bind fun r hr => ?_
      refine (ensures_evalInputs hP args scope hscope hp.2.1).bind fun as has => ?_
      refine (ensures_evalFields hP options scope hscope hp.2.2).bind fun os hos => ?_
      exact ensures_applyOperation hP hr has hos
  | .chain receiver calls times, scope, hscope, hp => by
      rw [eval]
      refine (ensures_eval hP receiver scope hscope hp.1).bind fun r hr => ?_
      exact ensures_iterate (fun t ht => ensures_evalCalls hP calls scope hscope hp.2 t ht) times hr
  | .start operation args, scope, hscope, hp => by
      rw [eval]
      refine (ensures_evalInputs hP args scope hscope hp).bind fun as has => ?_
      exact Routine.ensures_settle fun t ht =>
        hP (.start operation as) has t (Construction.mem_toList_toOption.mpr ht)
  | .coerce value, scope, hscope, hp => by
      rw [eval]
      refine (ensures_evalInput hP value scope hscope hp).bind fun a ha => ?_
      exact Routine.ensures_settle fun t ht =>
        hP (.coerce a) ha t (Construction.mem_toList_toOption.mpr ht)
  | .native value, _, _, _ => by
      rw [eval]
      exact Routine.ensures_settle fun t ht =>
        hP (.native value) trivial t (Construction.mem_toList_toOption.mpr ht)
  | .decode text, _, _, _ => by
      rw [eval]
      exact Routine.ensures_settle fun t ht =>
        hP (.decodeText text) trivial t (Construction.mem_toList_toOption.mpr ht)
  | .datum value, _, _, _ => by
      rw [eval]
      exact Routine.ensures_pure (hP (.datum value) trivial _ (List.mem_singleton_self _))
  | .var id, _, _, _ => by
      rw [eval]
      exact Routine.ensures_pure (hP (.var id) trivial _ (List.mem_singleton_self _))
  | .implicitVar, _, _, _ => by
      rw [eval]
      exact Routine.ensures_pure (hP .implicitVar trivial _ (List.mem_singleton_self _))
  | .wrap source body, scope, hscope, hp => by
      rw [eval]
      refine (ensures_eval hP body scope hscope hp).bind fun t ht => ?_
      refine Routine.ensures_wrap fun ids => Routine.ensures_pure ?_
      exact hP (.wrap t ids) ht _ (List.mem_singleton_self _)
  | .function source params body, scope, hscope, hp => by
      rw [eval]
      refine Routine.ensures_function (R := P) (fun ids => ?_) fun ids answer hanswer _ t ht => ?_
      · have hvar : ∀ id, P (.var id) := fun id =>
          hP (.var id) trivial _ (List.mem_singleton_self _)
        exact ensures_eval hP body _ (hscope.enter hvar ids) hp
      · obtain ⟨u, hu, hmade⟩ := Term.closeFunction_eq_ok_iff.mp ht
        exact hP (.function ids u) (hanswer u hu) t (Construction.mem_toList_toOption.mpr hmade)
  | .param index up, scope, hscope, _ => by
      rw [eval, parameter]
      split
      · rename_i t ht
        obtain ⟨vars, hvars, ht⟩ := Option.bind_eq_some_iff.mp ht
        exact Routine.ensures_pure
          (hscope.parameters vars (List.mem_of_getElem? hvars) t (List.mem_of_getElem? ht))
      · exact Routine.ensures_fail _

theorem ensures_evalReceiver (hP : Construction.Keep P) :
    ∀ (receiver : Option Program) (scope : Scope), scope.All P →
      ProperReceiver receiver → Ensures (fun r => ∀ t ∈ r.toList, P t) (evalReceiver scope receiver)
  | none, _, _, _ => by
      rw [evalReceiver]
      exact Routine.ensures_pure (List.forall_mem_nil _)
  | some p, scope, hscope, hp => by
      rw [evalReceiver]
      refine (ensures_eval hP p scope hscope hp).bind fun t ht => ?_
      exact Routine.ensures_pure (List.forall_mem_singleton.mpr ht)

theorem ensures_evalInput (hP : Construction.Keep P) :
    ∀ (i : Input) (scope : Scope), scope.All P → ProperInput i →
      Ensures (Arg.Admissible P) (evalInput scope i)
  | .program p, scope, hscope, hi => by
      rw [evalInput]
      refine (ensures_eval hP p scope hscope hi).bind fun t ht => ?_
      exact Routine.ensures_pure ht
  | .value d, _, _, hi => by
      rw [evalInput]
      exact Routine.ensures_pure hi
  | .array items, scope, hscope, hi => by
      rw [evalInput]
      refine (ensures_evalInputs hP items scope hscope hi).bind fun as has => ?_
      exact Routine.ensures_pure (Arg.admissibleItems_iff.mpr has)
  | .object fields, scope, hscope, hi => by
      rw [evalInput]
      refine (ensures_evalFields hP fields scope hscope hi).bind fun fs hfs => ?_
      exact Routine.ensures_pure ⟨Fields.distinct_ofList fs,
        Arg.admissibleFields_iff.mpr (Fields.forall_mem_ofList hfs)⟩
  | .bundle items, scope, hscope, hi => by
      rw [evalInput]
      refine (ensures_evalInputs hP items scope hscope hi).bind fun as has => ?_
      exact Routine.ensures_pure (Arg.admissibleItems_iff.mpr has)

theorem ensures_evalInputs (hP : Construction.Keep P) :
    ∀ (items : List Input) (scope : Scope), scope.All P → ProperInputs items →
      Ensures (fun as => ∀ a ∈ as, a.Admissible P) (evalInputs scope items)
  | [], _, _, _ => by
      rw [evalInputs]
      exact Routine.ensures_pure (List.forall_mem_nil _)
  | i :: rest, scope, hscope, hi => by
      rw [evalInputs]
      refine (ensures_evalInput hP i scope hscope hi.1).bind fun a ha => ?_
      refine (ensures_evalInputs hP rest scope hscope hi.2).bind fun as has => ?_
      exact Routine.ensures_pure (List.forall_mem_cons.mpr ⟨ha, has⟩)

theorem ensures_evalFields (hP : Construction.Keep P) :
    ∀ (fields : List (String × Input)) (scope : Scope), scope.All P →
      ProperFields fields →
      Ensures (fun os => ∀ o ∈ os, o.2.Admissible P) (evalFields scope fields)
  | [], _, _, _ => by
      rw [evalFields]
      exact Routine.ensures_pure (List.forall_mem_nil _)
  | (_, i) :: rest, scope, hscope, hi => by
      rw [evalFields]
      refine (ensures_evalInput hP i scope hscope hi.1).bind fun a ha => ?_
      refine (ensures_evalFields hP rest scope hscope hi.2).bind fun os hos => ?_
      exact Routine.ensures_pure (List.forall_mem_cons.mpr ⟨ha, hos⟩)

theorem ensures_evalCalls (hP : Construction.Keep P) :
    ∀ (calls : List (Operation × List Input)) (scope : Scope), scope.All P →
      ProperCalls calls → ∀ t, P t → Ensures P (evalCalls scope calls t)
  | [], _, _, _, _, ht => by
      rw [evalCalls]
      exact Routine.ensures_pure ht
  | (operation, args) :: rest, scope, hscope, hp, t, ht => by
      rw [evalCalls]
      refine (ensures_evalInputs hP args scope hscope hp.1).bind fun as has => ?_
      refine (ensures_applyOperation hP ht has (List.forall_mem_nil _)).bind fun s hs => ?_
      exact ensures_evalCalls hP rest scope hscope hp.2 s hs

end

theorem run_of_kept (hP : Construction.Keep P) {p : Program} (hp : p.Proper)
    {terms : Fields Term} (hterms : ∀ o ∈ terms, P o.2) {supplies : Supplies} {t : Term}
    (h : (p.run terms supplies).1 = .ok t) : P t :=
  ensures_eval hP p { terms } ⟨hterms, List.forall_mem_nil _⟩ hp supplies t h

end Kept

end Program

/-- A program gives nothing that a sequence of calls does not give. -/
theorem Program.run_obtainable {p : Program} (hp : p.Proper) {terms : Fields Term}
    (hterms : ∀ o ∈ terms, Obtainable o.2) {supplies : Supplies} {t : Term}
    (h : (p.run terms supplies).1 = .ok t) : Obtainable t :=
  run_of_kept keep_obtainable hp hterms h

/-- Every node of every term that the library builds keeps to the catalog,
whether the term is made by a sequence of calls or by a program. -/
theorem nodes_lawful :
    (∀ pool : List Term, Obtained pool → ∀ t ∈ pool, ∀ s ∈ t.nodes, s.Lawful) ∧
      ∀ (p : Program) (terms : Fields Term) (supplies : Supplies) (t : Term), p.Proper →
        (∀ o ∈ terms, Obtainable o.2) → (p.run terms supplies).1 = .ok t →
          ∀ s ∈ t.nodes, s.Lawful := by
  have hlawful : ∀ t, Obtainable t → ∀ s ∈ t.nodes, s.Lawful := fun t ht =>
    Term.wellFormed_iff.mp ht.wellFormed
  constructor
  · intro pool hpool t ht
    exact hlawful t ⟨pool, hpool, ht⟩
  · intro p terms supplies t hp hterms h
    exact hlawful t (p.run_obtainable hp hterms h)

/-- A function of one parameter, whose body makes another function from the
implicit variable. -/
def Program.olderUsers : Program :=
  .function .own 1 (.apply ⟨.filter, .one⟩ .shared (.ref "users")
    [.program (.apply ⟨.gt, .one⟩ .shared .implicitVar [.program (.param 0 0)] [])] [])

def Term.olderUsers : Term :=
  .node .func [parameterList [1], .node .filter
    [users, wrapped 1 (.node .gt [implicitVar, var 1] [])] []] []

theorem nodes_lawful_olderUsers :
    (Obtained [.users] ∧ ∀ t ∈ [Term.users], ∀ s ∈ t.nodes, s.Lawful) ∧
      (Program.olderUsers.Proper ∧ (Program.olderUsers.run [("users", .users)] {}).1 =
        .ok .olderUsers) ∧ ∀ s ∈ Term.olderUsers.nodes, s.Lawful := by
  have hproper : Program.olderUsers.Proper := ⟨trivial, ⟨⟨trivial, ⟨trivial, trivial⟩, trivial⟩,
    trivial⟩, trivial⟩
  have hrun : (Program.olderUsers.run [("users", .users)] {}).1 = .ok .olderUsers := rfl
  have husers : ∀ o ∈ [("users", Term.users)], Obtainable o.2 :=
    List.forall_mem_singleton.mpr obtainable_users
  exact ⟨⟨obtained_users, nodes_lawful.1 _ obtained_users⟩, ⟨hproper, hrun⟩,
    nodes_lawful.2 _ _ _ _ hproper husers hrun⟩

end Reql
