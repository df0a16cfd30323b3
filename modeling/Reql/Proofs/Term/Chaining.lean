import Reql.Proofs.Term.Faults
import Reql.Proofs.Term.Wrapping

/-!
Methods with a function as their argument, beside plain chaining.

`filter`, `map` and `update` coerce their argument on its own, before there is
a list of arguments for it to stand in, and chain the term that they get. If
there is a term and it is not wrapped, this is the same as chaining the
argument itself. If there is none, chaining reports the argument as the first
one in its list and the methods report it as a value without a list; a bundle
has no term on its own, while chaining splices it.
-/

namespace Reql

/-! ### Chaining -/

namespace Arguments

theorem freeze_ofList_term {a : Arg} {t : Term} (h : a.coerce = .ok t) :
    (ofList [.term t]).freeze = (ofList [a]).freeze := by
  have hgiven : (ofList [.term t]).freeze = .ok [t] := freeze_ofList_terms [t]
  have hne : ∀ items, a ≠ .bundle items := by
    rintro items rfl
    cases h
  rw [hgiven, eq_comm, freeze_eq_ok_iff, items_ofList, Arg.leavesOf, Arg.leaves_eq_self hne]
  exact .cons h .nil

theorem ofList_bundle (items : List Arg) : ofList [.bundle items] = ofList items := by
  have hitems : (ofList [.bundle items]).items = (ofList items).items := by
    rw [items_ofList, items_ofList, Arg.leavesOf, Arg.leaves, Arg.leavesOf, List.append_nil]
  exact congrArg mk hitems

/-- An argument without a term that is no bundle is reported as the first
one. -/
theorem freeze_ofList_error {a : Arg} {r : Refusal} (hne : ∀ items, a ≠ .bundle items)
    (h : a.coerce = .error r) : (ofList [a]).freeze = .error (r.toError (.argument 0)) := by
  rw [← failure?_eq_some_iff, freeze, failure?_freezeFrom, items_ofList, Arg.leavesOf,
    Arg.leaves_eq_self hne]
  have hfault : a.fault? (.argument 0) = some (r.toError (.argument 0)) := by
    rw [Arg.fault?, h]
    rfl
  simp [Arg.leavesOf, hfault]

end Arguments

namespace Term

theorem make_congr {kind : Kind} {receiver : Option Term} {args args' : Arguments}
    {options : Options} (h : args.freeze = args'.freeze) :
    make kind receiver args options = make kind receiver args' options := by
  rw [make, make, h]

/-- Arguments without terms are reported before anything else. -/
theorem make_eq_error_of_freeze {kind : Kind} {receiver : Option Term} {args : Arguments}
    {options : Options} {e : Error} (hkind : kind ≠ .datum) (h : args.freeze = .error e) :
    make kind receiver args options = .error e := by
  rw [make, if_neg hkind, h]
  rfl

end Term

theorem Arg.origin_of_fault? {a : Arg} {origin : Origin} {place : Place} {reason : Misfit}
    (h : a.fault? origin = some (.construction place reason)) : place.origin = origin := by
  obtain ⟨r, -, heq⟩ := Option.map_eq_some_iff.mp h
  rw [← (Error.construction.inj heq).1]

namespace Term

/-- The faults of an operation are about its arguments and its options, not
about a value that stands alone. -/
theorem make_ne_error_at_value {kind : Kind} (hkind : kind ≠ .datum) (receiver : Option Term)
    (args : Arguments) (options : Options) (steps : List Step) (reason : Misfit) :
    make kind receiver args options ≠ .error (.construction ⟨.value, steps⟩ reason) := by
  intro h
  rw [← failure?_eq_some_iff, failure?_make] at h
  have hfault := List.mem_of_head? h
  rw [faults, kindFaults, if_neg hkind, List.nil_append, List.mem_append, List.mem_append,
    List.mem_append] at hfault
  rcases hfault with ((hargument | hname) | hvalue) | hcount
  · obtain ⟨numbered, -, hnumbered⟩ := List.mem_filterMap.mp hargument
    cases Arg.origin_of_fault? hnumbered
  · obtain ⟨name, -, heq⟩ := List.mem_map.mp hname
    cases heq
  · obtain ⟨o, -, ho⟩ := List.mem_filterMap.mp hvalue
    cases Arg.origin_of_fault? ho
  · rw [countFaults] at hcount
    split at hcount
    · exact absurd hcount List.not_mem_nil
    · cases List.mem_singleton.mp hcount

end Term

/-! ### Methods -/

theorem IdSupply.take_ne_self (s : IdSupply) : s.take.2 ≠ s := by
  intro h
  have hnext : s.next + 1 = s.next := congrArg IdSupply.next h
  rw [UInt64.add_eq_left] at hnext
  cases hnext

namespace Operation

variable {o : Operation} {receiver : Term} {a : Arg} {options : Options} {s : IdSupply}

/-- `o.passed options` are the options that a method passes on; only `filter`
has any. -/
def passed (o : Operation) (options : Options) : Options :=
  if o.kind = .filter then options else {}

theorem apply_of_coerce {t : Term} (htakes : o.takesFunction = true) (h : a.coerce = .ok t) :
    o.apply receiver [a] options s =
      (receiver.chain o.kind (.ofList [.term (t.wrap s).1]) (o.passed options), (t.wrap s).2) := by
  rw [apply_of_takesFunction htakes, Term.chainWrapped, Arg.toTerm_eq_ok_iff.mpr h]
  rfl

theorem apply_of_refusal {r : Refusal} (htakes : o.takesFunction = true)
    (h : a.coerce = .error r) :
    o.apply receiver [a] options s = (.error (r.toError .value), s) := by
  have herror : a.toTerm = .error (r.toError .value) := by
    rw [Arg.toTerm, Arg.coerceFrom, h]
    rfl
  rw [apply_of_takesFunction htakes, Term.chainWrapped, herror]

/-- A method does with its argument what chaining does if there is a term that
is not wrapped, and only then. -/
theorem apply_eq_chain_iff (htakes : o.takesFunction = true) (hkind : o.kind ≠ .datum) :
    o.apply receiver [a] options s =
        (receiver.chain o.kind (.ofList [a]) (o.passed options), s) ↔
      ∃ t, a.coerce = .ok t ∧ ¬ t.Open := by
  cases ha : a.coerce with
  | error r =>
      -- the methods report the value, and no operation does that
      rw [apply_of_refusal htakes ha]
      refine iff_of_false (fun h => ?_) (by simp)
      exact Term.make_ne_error_at_value hkind _ _ _ _ _ (Prod.mk.inj h).1.symm
  | ok t =>
      rw [apply_of_coerce htakes ha]
      simp only [Except.ok.injEq, exists_eq_left']
      constructor
      · -- wrapping an open term takes an id, which chaining never does
        intro h hopen
        rw [Term.wrap_of_open hopen] at h
        exact s.take_ne_self (Prod.mk.inj h).2
      · intro hclosed
        rw [Term.wrap_of_not_open hclosed, Term.chain, Term.chain,
          Term.make_congr (Arguments.freeze_ofList_term ha)]

/-- The methods whose argument is a function do with it what chaining does
exactly if it has a term and no open term is embedded in it; then the result
and the supply are the same, whatever else is wrong. For an argument without a
term both report the same reason and the same steps, the methods from the value
on and chaining from the first argument on, unless it is a bundle: that is
refused by the methods, and chaining takes its elements as arguments. -/
theorem apply_agrees_with_chain_iff (o : Operation) (receiver : Term) (a : Arg) (options : Options)
    (s : IdSupply) (hkind : o.kind = .filter ∨ o.kind = .map ∨ o.kind = .update) :
    (o.apply receiver [a] options s =
          (receiver.chain o.kind (.ofList [a]) (o.passed options), s) ↔
        (∃ t, a.toTerm = .ok t) ∧ ¬ ∃ e, a.Holds e ∧ e.Open) ∧
      ∀ r, a.coerce = .error r →
        (∃ place, o.apply receiver [a] options s = (.error (.construction place r.reason), s) ∧
            place.text = "$" ++ String.join (r.steps.map Step.text)) ∧
          ((∀ items, a ≠ .bundle items) →
            ∃ place, receiver.chain o.kind (.ofList [a]) (o.passed options) =
                .error (.construction place r.reason) ∧
              place.text = "$args[0]" ++ String.join (r.steps.map Step.text)) ∧
          ∀ items, a = .bundle items → r = .here .strayBundle ∧
            receiver.chain o.kind (.ofList [a]) (o.passed options) =
              receiver.chain o.kind (.ofList items) (o.passed options) := by
  have htakes : o.takesFunction = true := takesFunction_iff.mpr hkind
  have hdatum : o.kind ≠ .datum := by rcases hkind with h | h | h <;> simp [h]
  refine ⟨?_, fun r hr => ⟨⟨_, apply_of_refusal htakes hr, rfl⟩, fun hne => ?_, ?_⟩⟩
  · rw [apply_eq_chain_iff htakes hdatum]
    constructor
    · rintro ⟨t, ht, hclosed⟩
      exact ⟨⟨t, Arg.toTerm_eq_ok_iff.mpr ht⟩, mt (Arg.open_coerce_iff ht).mpr hclosed⟩
    · rintro ⟨⟨t, ht⟩, hnone⟩
      have hcoerce : a.coerce = .ok t := Arg.toTerm_eq_ok_iff.mp ht
      exact ⟨t, hcoerce, mt (Arg.open_coerce_iff hcoerce).mp hnone⟩
  · exact ⟨_, Term.make_eq_error_of_freeze hdatum (Arguments.freeze_ofList_error hne hr), rfl⟩
  · rintro items rfl
    exact ⟨(Except.error.inj hr).symm, by rw [Arguments.ofList_bundle]⟩

/-- A condition on a field, and one with a number that has no JSON form. -/
def adults : Arg := .object [("age", .value (.integer 25))]

def spoiltAdults : Arg := .object [("age", .value (.number .nan))]

/-- The condition is the second argument of `filter` either way, and the option
that `filter` does not know is reported either way; the number is reported at
different places. -/
theorem apply_agrees_with_chain_iff_adults :
    (mk .filter .one).apply .users [adults] (.ofList [("colour", .value .null)]) {} =
        (Term.users.chain .filter (.ofList [adults])
          (passed ⟨.filter, .one⟩ (.ofList [("colour", .value .null)])), {}) ∧
      spoiltAdults.coerce = .error ⟨[.key "age"], .notFinite .nan⟩ ∧
      (∃ place, (mk .filter .one).apply .users [spoiltAdults] {} {} =
          (.error (.construction place (.notFinite .nan)), {}) ∧ place.text = "$.age") ∧
      ∃ place, Term.users.chain .filter (.ofList [spoiltAdults]) (passed ⟨.filter, .one⟩ {}) =
          .error (.construction place (.notFinite .nan)) ∧ place.text = "$args[0].age" := by
  have hclosed : ¬ ∃ e, adults.Holds e ∧ e.Open := by
    rintro ⟨e, he, -⟩
    obtain ⟨f, hf, hholds⟩ := Arg.holds_object_iff.mp he
    obtain rfl := List.mem_singleton.mp hf
    exact Arg.not_holds_value _ e hholds
  have hrefusal : spoiltAdults.coerce = .error ⟨[.key "age"], .notFinite .nan⟩ := rfl
  obtain ⟨hagree, -⟩ := apply_agrees_with_chain_iff (mk .filter .one) .users adults
    (.ofList [("colour", .value .null)]) {} (.inl rfl)
  obtain ⟨-, hrefused⟩ := apply_agrees_with_chain_iff (mk .filter .one) .users spoiltAdults {} {}
    (.inl rfl)
  obtain ⟨hmethod, hchain, -⟩ := hrefused _ hrefusal
  refine ⟨hagree.mpr ⟨⟨_, rfl⟩, hclosed⟩, hrefusal, hmethod, hchain fun items => ?_⟩
  exact Arg.noConfusion

/-- A number without a JSON form is reported at different places, and a bundle
is refused by the method and spliced by chaining, with no term in either. -/
theorem apply_differs_from_chain :
    ((mk .filter .one).apply .users [.value (.number .nan)] {} {} =
        (.error (.construction ⟨.value, []⟩ (.notFinite .nan)), {}) ∧
      Term.users.chain .filter (.ofList [.value (.number .nan)]) {} =
        .error (.construction ⟨.argument 0, []⟩ (.notFinite .nan))) ∧
    (mk .map .one).apply .users [.bundle [.value .null]] {} {} =
        (.error (.construction ⟨.value, []⟩ .strayBundle), {}) ∧
      Term.users.chain .map (.ofList [.bundle [.value .null]]) {} =
        .ok (.node .map [.users, .datum .null] []) :=
  ⟨⟨rfl, rfl⟩, rfl, rfl⟩

end Operation
end Reql
