import Reql.Proofs.Term.Renaming

/-!
Wrapping of terms that use the implicit variable.

A term is open if a way from its root ends in an implicit variable and has no
function on it. Such a term is wrapped into a function, which closes it, so it
is wrapped once; any other term stays as it is and no identifier is taken for
it. Coercion puts terms into arrays and objects only, which are no functions, so
a value becomes an open term if and only if one of the terms embedded in it is
open. The methods whose argument is a function wrap it in just this case.
-/

namespace Reql

/-! ### Open terms -/

namespace Term

/-- `t.Open`: a way from the root ends in an implicit variable, with no
function on it. -/
def Open (t : Term) : Prop :=
  ∃ above u, t.Leads above u ∧ u.kind = .implicitVar ∧ ∀ s ∈ above, s.kind ≠ .func

theorem not_open_datum (d : Datum) : ¬ (datum d).Open := by
  rintro ⟨above, u, hleads, hu, -⟩
  cases hleads
  cases hu

theorem open_node_iff {kind : Kind} {args : List Term} {options : Fields Term} :
    (node kind args options).Open ↔
      kind = .implicitVar ∨ kind ≠ .func ∧ ((∃ t ∈ args, t.Open) ∨ ∃ o ∈ options, o.2.Open) := by
  constructor
  · rintro ⟨above, u, hleads, hu, habove⟩
    cases hleads with
    | here => exact .inl hu
    | argument ht hleads =>
        obtain ⟨hkind, habove⟩ := List.forall_mem_cons.mp habove
        exact .inr ⟨hkind, .inl ⟨_, ht, _, u, hleads, hu, habove⟩⟩
    | option ho hleads =>
        obtain ⟨hkind, habove⟩ := List.forall_mem_cons.mp habove
        exact .inr ⟨hkind, .inr ⟨_, ho, _, u, hleads, hu, habove⟩⟩
  · rintro (hkind | ⟨hkind, ⟨t, ht, above, u, hleads, hu, habove⟩ |
      ⟨o, ho, above, u, hleads, hu, habove⟩⟩)
    · exact ⟨[], _, .here _, hkind, List.forall_mem_nil _⟩
    · exact ⟨_, u, .argument ht hleads, hu, List.forall_mem_cons.mpr ⟨hkind, habove⟩⟩
    · exact ⟨_, u, .option ho hleads, hu, List.forall_mem_cons.mpr ⟨hkind, habove⟩⟩

/-- The search for an implicit variable finds the ways to one. -/
theorem hasImplicitVar_iff_open (t : Term) : t.hasImplicitVar = true ↔ t.Open := by
  induction t with
  | datum d => exact iff_of_false Bool.false_ne_true (not_open_datum d)
  | node kind args options ihArgs ihOptions =>
      rw [open_node_iff]
      by_cases himplicit : kind = .implicitVar
      · subst himplicit
        rw [hasImplicitVar]
        exact ⟨fun _ => .inl rfl, fun _ => rfl⟩
      by_cases hfunc : kind = .func
      · subst hfunc
        rw [hasImplicitVar]
        simp
      · rw [hasImplicitVar_node himplicit hfunc, Bool.or_eq_true, List.any_eq_true,
          List.any_eq_true]
        simp only [himplicit, hfunc, false_or, ne_eq, not_false_eq_true, true_and]
        refine or_congr (exists_congr fun t => and_congr_right fun ht => ihArgs t ht)
          (exists_congr fun o => and_congr_right fun ho => ihOptions o ho)

theorem open_array_iff {items : List Term} : (array items).Open ↔ ∃ t ∈ items, t.Open := by
  rw [array, open_node_iff]
  simp

theorem open_object_iff {fields : Fields Term} : (object fields).Open ↔ ∃ f ∈ fields, f.2.Open := by
  rw [object, open_node_iff]
  simp

theorem not_open_wrapped (id : UInt64) (t : Term) : ¬ (wrapped id t).Open := by
  rw [wrapped, open_node_iff]
  simp

theorem closed_not_open : Closed (· ≠ .implicitVar) fun t => ¬ t.Open where
  array := by decide
  object := by decide
  datum d _ := not_open_datum d
  node kind args options hkind hargs hoptions := by
    rw [open_node_iff]
    rintro (h | ⟨-, ⟨t, ht, hopen⟩ | ⟨o, ho, hopen⟩⟩)
    · exact hkind h
    · exact hargs t ht hopen
    · exact hoptions o ho hopen

/-! ### Wrapping -/

theorem wrap_of_open {t : Term} (h : t.Open) (s : IdSupply) :
    t.wrap s = (wrapped s.next t, s.take.2) :=
  if_pos ((hasImplicitVar_iff_open t).mpr h)

theorem wrap_of_not_open {t : Term} (h : ¬ t.Open) (s : IdSupply) : t.wrap s = (t, s) :=
  if_neg (mt (hasImplicitVar_iff_open t).mp h)

theorem not_open_wrap (t : Term) (s : IdSupply) : ¬ (t.wrap s).1.Open := by
  by_cases h : t.Open
  · rw [wrap_of_open h]
    exact not_open_wrapped s.next t
  · rwa [wrap_of_not_open h]

end Term

/-! ### Embedded terms -/

namespace Arg

/-- `Holds a t`: the term is embedded in the value, at any depth. -/
inductive Holds : Arg → Term → Prop
  | term (t : Term) : Holds (.term t) t
  | array {items : List Arg} {a : Arg} {t : Term} : a ∈ items → Holds a t → Holds (.array items) t
  | object {fields : Fields Arg} {f : String × Arg} {t : Term} : f ∈ fields → Holds f.2 t →
      Holds (.object fields) t
  | bundle {items : List Arg} {a : Arg} {t : Term} : a ∈ items → Holds a t →
      Holds (.bundle items) t

theorem holds_term_iff {t s : Term} : (term t).Holds s ↔ s = t := by
  constructor
  · rintro ⟨⟩
    rfl
  · rintro rfl
    exact .term s

theorem not_holds_value (d : Datum) (t : Term) : ¬ (value d).Holds t := nofun

theorem holds_array_iff {items : List Arg} {t : Term} :
    (array items).Holds t ↔ ∃ a ∈ items, a.Holds t := by
  constructor
  · rintro ⟨⟩
    exact ⟨_, ‹_›, ‹_›⟩
  · rintro ⟨a, ha, h⟩
    exact .array ha h

theorem holds_object_iff {fields : Fields Arg} {t : Term} :
    (object fields).Holds t ↔ ∃ f ∈ fields, f.2.Holds t := by
  constructor
  · rintro ⟨⟩
    exact ⟨_, ‹_›, ‹_›⟩
  · rintro ⟨f, hf, h⟩
    exact .object hf h

theorem holds_bundle_iff {items : List Arg} {t : Term} :
    (bundle items).Holds t ↔ ∃ a ∈ items, a.Holds t := by
  constructor
  · rintro ⟨⟩
    exact ⟨_, ‹_›, ‹_›⟩
  · rintro ⟨a, ha, h⟩
    exact .bundle ha h

section Leaves

variable {t : Term}

mutual

theorem exists_leaves_holds_iff : ∀ a : Arg, (∃ l ∈ a.leaves, l.Holds t) ↔ a.Holds t
  | .bundle items => (exists_leavesOf_holds_iff items).trans holds_bundle_iff.symm
  | .term _ => by simp [leaves]
  | .value _ => by simp [leaves]
  | .array _ => by simp [leaves]
  | .object _ => by simp [leaves]

/-- Splicing bundles neither loses terms nor adds any. -/
theorem exists_leavesOf_holds_iff : ∀ items : List Arg,
    (∃ l ∈ leavesOf items, l.Holds t) ↔ ∃ a ∈ items, a.Holds t
  | [] => by simp [leavesOf]
  | a :: rest => by
      rw [leavesOf, List.exists_mem_cons_iff, ← exists_leaves_holds_iff a,
        ← exists_leavesOf_holds_iff rest]
      simp only [List.mem_append, or_and_right, exists_or]

end

end Leaves

theorem holds_array_iff_leaves {items : List Arg} {t : Term} :
    (array items).Holds t ↔ ∃ l ∈ leavesOf items, l.Holds t :=
  holds_array_iff.trans (exists_leavesOf_holds_iff items).symm

/-- A value becomes an open term exactly if an open term is embedded in it. -/
theorem open_coerce_iff {a : Arg} {t : Term} (h : a.coerce = .ok t) :
    t.Open ↔ ∃ s, a.Holds s ∧ s.Open := by
  induction a using Arg.induction generalizing t with
  | term s =>
      obtain rfl := Except.ok.inj h
      simp only [holds_term_iff, exists_eq_left]
  | value d =>
      have hclosed : ¬ t.Open := Datum.coerce_closed Term.closed_not_open h
      exact ⟨fun hopen => absurd hopen hclosed, fun ⟨s, hs, _⟩ => absurd hs (not_holds_value d s)⟩
  | array items ih =>
      obtain ⟨ts, hts, rfl⟩ := coerce_array_iff.mp h
      rw [Term.open_array_iff, exists_mem_iff_of_forall₂ hts fun l hl _ => ih l hl]
      simp only [holds_array_iff_leaves]
      exact exists_mem_exists_and_iff
  | object fields ih =>
      obtain ⟨ts, hts, rfl⟩ := coerce_object_iff.mp h
      rw [Term.open_object_iff, exists_mem_iff_of_forall₂ hts fun f hf _ hfo => ih f hf hfo.2]
      simp only [holds_object_iff]
      exact exists_mem_exists_and_iff
  | bundle items => cases h

end Arg

/-! ### Methods whose argument is a function -/

/-- `a.WrappedAs c u s s'` is what a method has done with its argument: if an
open term is embedded in it, the term `c` that it becomes is wrapped and one
identifier is taken. Otherwise `u` is that term, and none is taken. -/
def Arg.WrappedAs (a : Arg) (c u : Term) (s s' : IdSupply) : Prop :=
  (∃ e, a.Holds e ∧ e.Open) ∧ u = Term.wrapped s.next c ∧ u ≠ c ∧ s' = s.take.2 ∨
    (¬ ∃ e, a.Holds e ∧ e.Open) ∧ u = c ∧ s' = s

theorem Arg.wrappedAs_wrap {a : Arg} {c : Term} (h : a.coerce = .ok c) (s : IdSupply) :
    a.WrappedAs c (c.wrap s).1 s (c.wrap s).2 := by
  by_cases hopen : c.Open
  · refine .inl ⟨(open_coerce_iff h).mp hopen, ?_⟩
    rw [Term.wrap_of_open hopen]
    refine ⟨rfl, ?_, rfl⟩
    intro (heq : Term.wrapped s.next c = c)
    have hwrapped : (Term.wrapped s.next c).Open := by rwa [heq]
    exact Term.not_open_wrapped s.next c hwrapped
  · refine .inr ⟨mt (open_coerce_iff h).mpr hopen, ?_⟩
    rw [Term.wrap_of_not_open hopen]
    exact ⟨rfl, rfl⟩

theorem Operation.takesFunction_iff {o : Operation} :
    o.takesFunction = true ↔ o.kind = .filter ∨ o.kind = .map ∨ o.kind = .update := by
  unfold takesFunction
  split <;> simp_all

theorem Operation.apply_of_takesFunction {o : Operation} (h : o.takesFunction = true)
    (receiver : Term) (a : Arg) (options : Options) (s : IdSupply) :
    o.apply receiver [a] options s =
      receiver.chainWrapped o.kind a (if o.kind = .filter then options else {}) s := by
  unfold apply
  rw [h]

theorem Term.args_of_chain {receiver u t : Term} {kind : Kind} {options : Options}
    (h : receiver.chain kind (.ofList [.term u]) options = .ok t) : t.args = [receiver, u] := by
  obtain ⟨-, terms, named, hterms, -, -, rfl⟩ := make_eq_ok_iff.mp h
  have hgiven : (Arguments.ofList [.term u]).freeze = .ok [u] := Arguments.freeze_ofList_terms [u]
  rw [hgiven] at hterms
  obtain rfl := Except.ok.inj hterms
  rfl

/-- The second argument of what the method makes is the term of its argument,
wrapped if need be. -/
theorem Operation.apply_wraps {o : Operation} {receiver t : Term} {a : Arg} {options : Options}
    {s s' : IdSupply} (htakes : o.takesFunction = true)
    (h : o.apply receiver [a] options s = (.ok t, s')) :
    ∃ c u, a.coerce = .ok c ∧ t.args = [receiver, u] ∧ ¬ u.Open ∧ a.WrappedAs c u s s' := by
  rw [apply_of_takesFunction htakes, Term.chainWrapped] at h
  split at h
  · cases h
  · rename_i c hc
    obtain ⟨hchain, rfl⟩ := Prod.mk.inj h
    have hcoerce : a.coerce = .ok c := Arg.toTerm_eq_ok_iff.mp hc
    exact ⟨c, (c.wrap s).1, hcoerce, Term.args_of_chain hchain, c.not_open_wrap s,
      Arg.wrappedAs_wrap hcoerce s⟩

/-- Wrapping looks for ways to an implicit variable with no function on them. It
leaves a term without such ways alone, and makes a function of any other; what
it gives has no such ways, and stays as it is when it is wrapped again. In the
methods whose argument is a function, the ways start in the terms embedded in
the argument. -/
theorem Term.wrap_exact_and_idempotent :
    (∀ t : Term, t.hasImplicitVar = true ↔
        ∃ above u, t.Leads above u ∧ u.kind = .implicitVar ∧ ∀ s ∈ above, s.kind ≠ .func) ∧
      (∀ (t : Term) (s : IdSupply),
        (t.hasImplicitVar = false → t.wrap s = (t, s)) ∧
          (t.hasImplicitVar = true →
            t.wrap s = (.node .func [.array [.datum (.ofUInt64 s.next)], t] [], ⟨s.next + 1⟩)) ∧
          ¬ (t.wrap s).1.Open ∧ ∀ s', (t.wrap s).1.wrap s' = ((t.wrap s).1, s')) ∧
      ∀ (o : Operation) (receiver t : Term) (a : Arg) (options : Options) (s s' : IdSupply),
        o.kind = .filter ∨ o.kind = .map ∨ o.kind = .update →
          o.apply receiver [a] options s = (.ok t, s') →
            ∃ c u, a.coerce = .ok c ∧ t.args = [receiver, u] ∧ ¬ u.Open ∧
              a.WrappedAs c u s s' := by
  refine ⟨hasImplicitVar_iff_open, fun t s => ⟨fun h => ?_, fun h => ?_, t.not_open_wrap s,
    wrap_of_not_open (t.not_open_wrap s)⟩, fun o receiver t a options s s' hkind h => ?_⟩
  · exact if_neg (Bool.eq_false_iff.mp h)
  · exact if_pos h
  · exact Operation.apply_wraps (Operation.takesFunction_iff.mpr hkind) h

/-- An object in a bundle in an array, with the implicit variable in it. -/
def Arg.rowInBundle : Arg := .array [.bundle [.object [("k", .term .implicitVar)]]]

def Term.rowInArray : Term := .array [.object [("k", .implicitVar)]]

theorem Term.wrap_exact_and_idempotent_rowInBundle :
    (Operation.mk .filter .one).apply (.node .now [] []) [Arg.rowInBundle] {} {} =
        (.ok (.node .filter [.node .now [] [], wrapped 1 rowInArray] []), ⟨2⟩) ∧
      ∃ c u, Arg.rowInBundle.coerce = .ok c ∧
        (node .filter [.node .now [] [], wrapped 1 rowInArray] []).args = [.node .now [] [], u] ∧
        ¬ u.Open ∧ Arg.rowInBundle.WrappedAs c u {} ⟨2⟩ := by
  have happly : (Operation.mk .filter .one).apply (.node .now [] []) [Arg.rowInBundle] {} {} =
      (.ok (.node .filter [.node .now [] [], wrapped 1 rowInArray] []), ⟨2⟩) := rfl
  exact ⟨happly, wrap_exact_and_idempotent.2.2 _ _ _ _ _ _ _ (.inl rfl) happly⟩

end Reql
