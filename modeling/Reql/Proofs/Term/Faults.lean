import Reql.Proofs.Term.Obtained

/-!
Which fault is reported.

Much can be wrong with what is given to an operation: its kind, some of the
arguments, some of the names and values of the options, and the number of
arguments. `Term.faults` lists all of it. Making the operation reports the
first fault of that list, and it succeeds if the list is empty. The proof
follows `make` step by step: each step fails with the first fault of its own
part of the list, and the steps after it are only reached if there is none.
-/

namespace Reql

def Arg.fault? (origin : Origin) (a : Arg) : Option Error :=
  (failure? a.coerce).map fun r => .construction ⟨origin, r.steps⟩ r.reason

namespace Term

/-! ### Everything that is wrong -/

/-- Data are not made from arguments. -/
def kindFaults (kind : Kind) : List Error :=
  if kind = .datum then [.construction ⟨.value, []⟩ .datumFromArguments] else []

/-- `argumentFaults args` are about the arguments without a term, counted
without the receiver. -/
def argumentFaults (args : List Arg) : List Error :=
  args.zipIdx.filterMap fun numbered => numbered.1.fault? (.argument numbered.2)

def nameFaults (kind : Kind) (options : Fields Arg) : List Error :=
  ((Fields.names options).filter fun name => !kind.signature.options.accepts name).map
    (.unsupportedOption kind)

def valueFaults (options : Fields Arg) : List Error :=
  options.filterMap fun o => o.2.fault? (.option o.1)

def countFaults (kind : Kind) (count : Nat) : List Error :=
  if kind.signature.arity.contains count then [] else [.arity kind count]

/-- `faults kind receiver args options` is everything that is wrong with an
operation, in the order of the report. The receiver is counted as an argument.
-/
def faults (kind : Kind) (receiver : Option Term) (args : List Arg) (options : Fields Arg) :
    List Error :=
  kindFaults kind ++ argumentFaults args ++ nameFaults kind options ++ valueFaults options ++
    countFaults kind (receiver.toList.length + args.length)

end Term

/-! ### The first fault of each part -/

theorem Arg.failure?_coerceFrom (origin : Origin) (a : Arg) :
    failure? (a.coerceFrom origin) = a.fault? origin :=
  failure?_mapError

theorem Arguments.failure?_freezeFrom (items : List Arg) (index : Nat) :
    failure? (freezeFrom items index) =
      (items.zipIdx index).findSome? fun numbered => numbered.1.fault? (.argument numbered.2) := by
  induction items generalizing index with
  | nil => rfl
  | cons a rest ih =>
      rw [freezeFrom, failure?_bind_cons, Arg.failure?_coerceFrom, ih, List.zipIdx_cons,
        List.findSome?_cons]
      cases a.fault? (.argument index) <;> rfl

theorem Arguments.failure?_freeze (args : Arguments) :
    failure? args.freeze = (Term.argumentFaults args.items).head? := by
  rw [freeze, failure?_freezeFrom, Term.argumentFaults, List.head?_filterMap]

namespace Options

theorem failure?_freezeFields (fields : Fields Arg) :
    failure? (freezeFields fields) = (Term.valueFaults fields).head? := by
  rw [Term.valueFaults, List.head?_filterMap]
  induction fields with
  | nil => rfl
  | cons f rest ih =>
      obtain ⟨name, a⟩ := f
      rw [freezeFields, failure?_bind_cons, Arg.failure?_coerceFrom, ih, List.findSome?_cons]
      cases a.fault? (.option name) <;> rfl

/-- All names are looked at before the first value. -/
theorem failure?_freezeFor (options : Options) (kind : Kind) :
    failure? (options.freezeFor kind) =
      (Term.nameFaults kind options.fields ++ Term.valueFaults options.fields).head? := by
  have hnames : (Term.nameFaults kind options.fields).head? =
      (options.firstUnsupported? kind.signature.options).map (.unsupportedOption kind) := by
    rw [Term.nameFaults, List.head?_map, List.head?_filter]
    rfl
  rw [List.head?_append, hnames, freezeFor]
  cases options.firstUnsupported? kind.signature.options with
  | some name => rfl
  | none => exact failure?_freezeFields options.fields

end Options

namespace Term

theorem failure?_make (kind : Kind) (receiver : Option Term) (args : Arguments)
    (options : Options) :
    failure? (make kind receiver args options) =
      (faults kind receiver args.items options.fields).head? := by
  by_cases hkind : kind = .datum
  · subst hkind
    rfl
  · have hcount : ∀ terms : List Term, args.freeze = .ok terms →
        (receiver.toList ++ terms).length = receiver.toList.length + args.items.length := by
      intro terms hterms
      rw [List.length_append, (Arguments.freeze_eq_ok_iff.mp hterms).length_eq]
    rw [faults, kindFaults, if_neg hkind, List.nil_append, List.append_assoc, List.append_assoc,
      List.head?_append, ← List.append_assoc, List.head?_append, ← Arguments.failure?_freeze,
      ← Options.failure?_freezeFor, make, if_neg hkind]
    refine failure?_bind fun terms hterms => failure?_bind fun named _ => ?_
    rw [countFaults, ← hcount terms hterms]
    split
    · rfl
    · rfl

/-- Making an operation reports its first fault. Without a fault the operation
has the terms of all that is given to it, the receiver in front. -/
theorem make_reports_first_fault (kind : Kind) (receiver : Option Term) (args : List Arg)
    (pairs : List (String × Arg)) :
    (∀ fault rest,
      faults kind receiver (Arg.leavesOf args) (Fields.settled pairs) = fault :: rest →
        make kind receiver (.ofList args) (.ofList pairs) = .error fault) ∧
      (faults kind receiver (Arg.leavesOf args) (Fields.settled pairs) = [] →
        ∃ terms named, List.Forall₂ (fun a t => a.coerce = .ok t) (Arg.leavesOf args) terms ∧
          Fields.Aligned (fun a t => a.coerce = .ok t) (Fields.settled pairs) named ∧
          make kind receiver (.ofList args) (.ofList pairs) =
            .ok (.node kind (receiver.toList ++ terms) named)) := by
  have hfirst : failure? (make kind receiver (.ofList args) (.ofList pairs)) =
      (faults kind receiver (Arg.leavesOf args) (Fields.settled pairs)).head? := by
    rw [failure?_make, Arguments.items_ofList, Options.ofList, Fields.ofList_eq_settled]
  constructor
  · intro fault rest h
    rw [h, List.head?_cons] at hfirst
    exact failure?_eq_some_iff.mp hfirst
  · intro h
    rw [h, List.head?_nil] at hfirst
    obtain ⟨t, ht⟩ := failure?_eq_none_iff.mp hfirst
    obtain ⟨-, terms, named, hterms, hnamed, -, rfl⟩ := make_eq_ok_iff.mp ht
    rw [Arguments.freeze_eq_ok_iff, Arguments.items_ofList] at hterms
    rw [Options.freezeFor_eq_ok_iff, Options.ofList, Fields.ofList_eq_settled] at hnamed
    exact ⟨terms, named, hterms, hnamed.2, ht⟩

/-- Rows to be inserted, with a number that has no JSON form in the third. -/
def spoiltRows : List Arg :=
  [.object [("age", .value (.integer 1))],
    .bundle [.value .null, .array [.value (.number .nan)]]]

/-- An option that no operation knows, and one with a number as its value. -/
def spoiltOptions : List (String × Arg) :=
  [("colour", .value .null), ("durability", .value (.number .nan))]

def mendedOptions : List (String × Arg) :=
  [("durability", .value (.number .nan)), ("durability", .value (.string "soft"))]

/-- Of four faults the one of the argument is reported. The row and the option
without faults are inserted. -/
theorem make_reports_first_fault_insert :
    (faults .insert (some .users) (Arg.leavesOf spoiltRows) (Fields.settled spoiltOptions) =
        [.construction ⟨.argument 2, [.index 0]⟩ (.notFinite .nan),
          .unsupportedOption .insert "colour",
          .construction ⟨.option "durability", []⟩ (.notFinite .nan), .arity .insert 4] ∧
      make .insert (some .users) (.ofList spoiltRows) (.ofList spoiltOptions) =
        .error (.construction ⟨.argument 2, [.index 0]⟩ (.notFinite .nan))) ∧
    faults .insert (some .users) (Arg.leavesOf [.bundle [.value .null]])
        (Fields.settled mendedOptions) = [] ∧
      make .insert (some .users) (.ofList [.bundle [.value .null]]) (.ofList mendedOptions) =
        .ok (.node .insert [.users, .datum .null] [("durability", .datum (.string "soft"))]) := by
  have hfour :
      faults .insert (some .users) (Arg.leavesOf spoiltRows) (Fields.settled spoiltOptions) =
        [.construction ⟨.argument 2, [.index 0]⟩ (.notFinite .nan),
          .unsupportedOption .insert "colour",
          .construction ⟨.option "durability", []⟩ (.notFinite .nan), .arity .insert 4] := rfl
  have hnone : faults .insert (some .users) (Arg.leavesOf [.bundle [.value .null]])
      (Fields.settled mendedOptions) = [] := rfl
  obtain ⟨terms, named, hterms, hnamed, hmake⟩ := (make_reports_first_fault _ _ _ _).2 hnone
  obtain rfl : terms = [.datum .null] := by
    obtain ⟨t, rest, ht, hrest, rfl⟩ := List.forall₂_cons_left_iff.mp hterms
    rw [List.forall₂_nil_left_iff.mp hrest, ← Except.ok.inj ht]
  obtain rfl : named = [("durability", .datum (.string "soft"))] := by
    obtain ⟨t, rest, ht, hrest, rfl⟩ := Fields.aligned_cons_left_iff.mp hnamed
    rw [Fields.aligned_nil_left_iff.mp hrest, ← Except.ok.inj ht]
  exact ⟨⟨hfour, (make_reports_first_fault _ _ _ _).1 _ _ hfour⟩, hnone, hmake⟩

end Term
end Reql
