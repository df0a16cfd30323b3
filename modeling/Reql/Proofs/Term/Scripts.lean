import Reql.Proofs.Term.Obtained
import Reql.Proofs.Wire.DepthLimit

/-!
What a script makes.

A script is read in three ways that do not look at one another: the receivers
in it, of which the last one counts, the arguments, all of them in order, and
the options, each at the place where its name first stands and with the value
that it is given last. `Draft.add_eq` says what one piece does to each of the
three, `foldl_add` says the same of a whole script, and everything else follows
from there without another look at the script.
-/

namespace Reql

namespace Term

/-! ### The parts of a script -/

namespace Piece

def receiver? : Piece → Option Term
  | .receiver t => some t
  | _ => none

def arguments : Piece → List Arg
  | .arg a => [a]
  | .args items => items
  | _ => []

def option? : Piece → Option (String × Arg)
  | .option name value => some (name, value)
  | _ => none

end Piece

def receivers (script : List Piece) : List Term := script.filterMap Piece.receiver?

/-- `givenArgs script` are the arguments that a script gives, one by one or
several at once. -/
def givenArgs (script : List Piece) : List Arg := script.flatMap Piece.arguments

/-- `givenOptions script` has a pair for each time that the script gives an
option. -/
def givenOptions (script : List Piece) : List (String × Arg) := script.filterMap Piece.option?

theorem receivers_cons (piece : Piece) (rest : List Piece) :
    receivers (piece :: rest) = piece.receiver?.toList ++ receivers rest := by
  rw [receivers, List.filterMap_cons]
  cases piece.receiver? <;> rfl

theorem givenArgs_cons (piece : Piece) (rest : List Piece) :
    givenArgs (piece :: rest) = piece.arguments ++ givenArgs rest :=
  List.flatMap_cons

theorem givenOptions_cons (piece : Piece) (rest : List Piece) :
    givenOptions (piece :: rest) = piece.option?.toList ++ givenOptions rest := by
  rw [givenOptions, List.filterMap_cons]
  cases piece.option? <;> rfl

theorem Draft.add_eq (draft : Draft) (piece : Piece) :
    draft.add piece =
      { kind := draft.kind
        receiver := piece.receiver?.or draft.receiver
        args := draft.args.extend piece.arguments
        options := ⟨Fields.insertAll draft.options.fields piece.option?.toList⟩ } := by
  cases piece <;> rfl

theorem foldl_add (draft : Draft) (script : List Piece) :
    script.foldl Draft.add draft =
      { kind := draft.kind
        receiver := (receivers script).getLast?.or draft.receiver
        args := draft.args.extend (givenArgs script)
        options := ⟨Fields.insertAll draft.options.fields (givenOptions script)⟩ } := by
  -- the draft is general, since the rest starts from what the first piece leaves
  induction script generalizing draft with
  | nil => rfl
  | cons piece rest ih =>
      have hreceiver : (receivers rest).getLast?.or (piece.receiver?.or draft.receiver) =
          (receivers (piece :: rest)).getLast?.or draft.receiver := by
        rw [receivers_cons, List.getLast?_append, Option.or_assoc]
        cases piece.receiver? <;> rfl
      have hargs : (draft.args.extend piece.arguments).extend (givenArgs rest) =
          draft.args.extend (givenArgs (piece :: rest)) := by
        rw [givenArgs_cons]
        exact List.foldl_append.symm
      have hoptions : Fields.insertAll
            (Fields.insertAll draft.options.fields piece.option?.toList) (givenOptions rest) =
          Fields.insertAll draft.options.fields (givenOptions (piece :: rest)) := by
        rw [givenOptions_cons]
        exact List.foldl_append.symm
      rw [List.foldl_cons, ih, Draft.add_eq, hreceiver, hargs, hoptions]

/-! ### What is made -/

/-- A script makes the operation of its parts. -/
theorem ofScript_eq_make (kind : Kind) (script : List Piece) :
    ofScript kind script = make kind (receivers script).getLast? (.ofList (givenArgs script))
      ⟨Fields.settled (givenOptions script)⟩ := by
  rw [ofScript, foldl_add, Draft.build, Option.or_none, ← Fields.ofList_eq_settled]
  rfl

/-- The value of an option does not matter if the option is given again. -/
theorem ofScript_replaced (kind : Kind) {before after : List Piece} {name : String} {last : Arg}
    (hlast : .option name last ∈ after) (value other : Arg) :
    ofScript kind (before ++ .option name value :: after) =
      ofScript kind (before ++ .option name other :: after) := by
  have hsplit : ∀ v : Arg, givenOptions (before ++ .option name v :: after) =
      givenOptions before ++ (name, v) :: givenOptions after := fun v =>
    List.filterMap_append
  have hname : name ∈ Fields.names (givenOptions after) :=
    List.mem_map.mpr ⟨(name, last), List.mem_filterMap.mpr ⟨_, hlast, rfl⟩, rfl⟩
  have hreceivers : ∀ v : Arg, receivers (before ++ .option name v :: after) =
      receivers before ++ receivers after := fun v => List.filterMap_append
  have hargs : ∀ v : Arg, givenArgs (before ++ .option name v :: after) =
      givenArgs before ++ givenArgs after := fun v => List.flatMap_append
  rw [ofScript_eq_make, ofScript_eq_make, hsplit, hsplit, hreceivers, hreceivers, hargs, hargs,
    Fields.settled_replaced hname value other]

/-- The options of what a script makes are sent under their names, in the order
of these. -/
theorem encode_ofScript {e : Encoder} {kind : Kind} {script : List Piece} {t : Term} {w : Json}
    (h : ofScript kind script = .ok t) (hw : e.encode t = .ok w) :
    ∃ ws ms, w = .assemble kind.numeral ws ms ∧
      Fields.Aligned (fun a m => ∃ s, a.coerce = .ok s ∧ s.encode = .ok m)
        (Fields.settled (givenOptions script)) ms := by
  rw [ofScript_eq_make] at h
  obtain ⟨-, terms, named, -, hnamed, -, rfl⟩ := make_eq_ok_iff.mp h
  obtain ⟨ws, ms, -, hms, rfl⟩ := encode_node_iff.mp (Encoder.encode_eq_ok_iff.mp hw).1
  exact ⟨ws, ms, rfl, (Options.freezeFor_eq_ok_iff.mp hnamed).2.comp hms⟩

/-- A script makes the operation of its last receiver, of all its arguments in
order, and of its options, each name once, where it first stands, and with its
last value. So scripts with the same parts make the same, however these are put
together, and a value that is replaced later does not matter. If the operation
can be sent, its options are sent in that order, in an object after the
arguments, unless there are none. -/
theorem ofScript_depends_on_parts (kind : Kind) (script : List Piece) :
    ofScript kind script = make kind (receivers script).getLast? (.ofList (givenArgs script))
        ⟨Fields.settled (givenOptions script)⟩ ∧
      (∀ other, (receivers other).getLast? = (receivers script).getLast? →
        givenArgs other = givenArgs script → givenOptions other = givenOptions script →
          ofScript kind other = ofScript kind script) ∧
      (∀ before name value after last, script = before ++ .option name value :: after →
        .option name last ∈ after → ∀ value',
          ofScript kind script = ofScript kind (before ++ .option name value' :: after)) ∧
      ∀ (e : Encoder) (t : Term) (w : Json), ofScript kind script = .ok t → e.encode t = .ok w →
        ∃ ws ms, Fields.Aligned (fun a m => ∃ s, a.coerce = .ok s ∧ s.encode = .ok m)
            (Fields.settled (givenOptions script)) ms ∧
          (ms = [] ∧ w = .array [kind.numeral, .array ws] ∨
            ms ≠ [] ∧ w = .array [kind.numeral, .array ws, .object ms]) := by
  refine ⟨ofScript_eq_make kind script, fun other hreceiver hargs hoptions => ?_, ?_, ?_⟩
  · rw [ofScript_eq_make, ofScript_eq_make, hreceiver, hargs, hoptions]
  · rintro before name value after last rfl hlast value'
    exact ofScript_replaced kind hlast value value'
  · intro e t w h hw
    obtain ⟨ws, ms, rfl, hms⟩ := encode_ofScript h hw
    refine ⟨ws, ms, hms, ?_⟩
    cases ms with
    | nil => exact .inl ⟨rfl, rfl⟩
    | cons m rest => exact .inr ⟨List.cons_ne_nil m rest, rfl⟩

/-- Rows for a table, with a receiver and an option that are replaced; the first
value of the option has no term. -/
def replacingScript : List Piece :=
  [.option "durability" (.value (.number .nan)), .receiver .implicitVar, .args [.value .null],
    .option "return_changes" (.value (.boolean true)), .receiver .users,
    .option "durability" (.value (.string "hard")), .args []]

def orderedScript : List Piece :=
  [.receiver .users, .arg (.value .null), .option "durability" (.value (.number .nan)),
    .option "return_changes" (.value (.boolean true)),
    .option "durability" (.value (.string "hard"))]

def insertJson : Json :=
  .array [Kind.insert.numeral, .array [.array [Kind.table.numeral, .array [.string "users"]], .null],
    .object [("durability", .string "hard"), ("return_changes", .bool true)]]

theorem ofScript_depends_on_parts_replacingScript :
    ((receivers orderedScript).getLast? = (receivers replacingScript).getLast? ∧
        givenArgs orderedScript = givenArgs replacingScript ∧
        givenOptions orderedScript = givenOptions replacingScript ∧
        ofScript .insert orderedScript = ofScript .insert replacingScript) ∧
      (∀ value', ofScript .insert replacingScript =
        ofScript .insert ([] ++ .option "durability" value' :: replacingScript.tail)) ∧
      ofScript .insert replacingScript =
        .ok (.node .insert [.users, .datum .null]
          [("durability", .datum (.string "hard")), ("return_changes", .datum (.boolean true))]) ∧
      ∃ ws ms, insertJson = .array [Kind.insert.numeral, .array ws, .object ms] ∧
        Fields.names ms = ["durability", "return_changes"] := by
  obtain ⟨-, horder, hreplaced, hencode⟩ := ofScript_depends_on_parts .insert replacingScript
  have hmade : ofScript .insert replacingScript =
      .ok (.node .insert [.users, .datum .null]
        [("durability", .datum (.string "hard")), ("return_changes", .datum (.boolean true))]) := rfl
  refine ⟨⟨rfl, rfl, rfl, horder orderedScript rfl rfl rfl⟩, ?_, hmade, ?_⟩
  · exact hreplaced [] "durability" _ replacingScript.tail (.value (.string "hard")) rfl
      (by simp [replacingScript])
  · obtain ⟨ws, ms, hms, ⟨-, hsent⟩ | ⟨-, hsent⟩⟩ := hencode {} _ insertJson hmade rfl
    · cases hsent
    · exact ⟨ws, ms, hsent, hms.names_eq⟩

end Term
end Reql
