import Reql.Arg.Basic
import Reql.Error

/-!
Turning arguments into terms.

Scalars become data, arrays and objects become operations that build them, and terms stay as they
are wherever they stand.  Two things have no term: a floating-point number that is not finite, and a
bundle that is not an element of a list.  The first of these from left to right is reported with the
steps that lead to it; the elements of an array are counted after its bundles have been spliced.
-/

namespace Reql

/-- A value without a term, with the `steps` that lead to it from the value that was to become
one. -/
structure Refusal where
  steps : List Step
  reason : Misfit
  deriving DecidableEq

namespace Refusal

def here (reason : Misfit) : Refusal := ⟨[], reason⟩

def under (step : Step) (r : Refusal) : Refusal := ⟨step :: r.steps, r.reason⟩

def toError (origin : Origin) (r : Refusal) : Error := .construction ⟨origin, r.steps⟩ r.reason

end Refusal

/-- `step.down part` is the coercion of a part as seen from the whole: the refusals of `part` are
put `under` the step. -/
def Step.down (step : Step) (part : Except Refusal Term) : Except Refusal Term :=
  part.mapError (Refusal.under step)

mutual

/-- `d.coerce` is `d` itself for a scalar; arrays and objects become the operations `Term.array` and
`Term.object`. -/
def Datum.coerce : Datum → Except Refusal Term
  | .null => .ok (.datum .null)
  | .boolean b => .ok (.datum (.boolean b))
  | .integer n => .ok (.datum (.integer n))
  | .unsigned n => .ok (.datum (.unsigned n))
  | .number x => if x.isFinite then .ok (.datum (.number x)) else .error (.here (.notFinite x))
  | .string s => .ok (.datum (.string s))
  | .array items => do
      let terms ← Datum.coerceItems items 0
      .ok (.array terms)
  | .object fields => do
      let terms ← Datum.coerceFields fields
      .ok (.object terms)

def Datum.coerceItems : List Datum → Nat → Except Refusal (List Term)
  | [], _ => .ok []
  | d :: rest, index => do
      let t ← Step.down (.index index) d.coerce
      let ts ← Datum.coerceItems rest (index + 1)
      .ok (t :: ts)

def Datum.coerceFields : List (String × Datum) → Except Refusal (List (String × Term))
  | [] => .ok []
  | (name, d) :: rest => do
      let t ← Step.down (.key name) d.coerce
      let ts ← Datum.coerceFields rest
      .ok ((name, t) :: ts)

end

mutual

def Arg.coerce : Arg → Except Refusal Term
  | .term t => .ok t
  | .value d => d.coerce
  | .array items => do
      let terms ← Arg.coerceItems items 0
      .ok (.array terms)
  | .object fields => do
      let terms ← Arg.coerceFields fields
      .ok (.object terms)
  | .bundle _ => .error (.here .strayBundle)

/-- `a.coerceElement index` are the terms for which `a` stands among the elements of an array, the
first of them with the index `index`. -/
def Arg.coerceElement : Arg → Nat → Except Refusal (List Term)
  | .bundle items, index => Arg.coerceItems items index
  | .term t, _ => .ok [t]
  | .value d, index => do
      let t ← Step.down (.index index) d.coerce
      .ok [t]
  | .array items, index => do
      let t ← Step.down (.index index) (do
        let terms ← Arg.coerceItems items 0
        .ok (.array terms))
      .ok [t]
  | .object fields, index => do
      let t ← Step.down (.index index) (do
        let terms ← Arg.coerceFields fields
        .ok (.object terms))
      .ok [t]

def Arg.coerceItems : List Arg → Nat → Except Refusal (List Term)
  | [], _ => .ok []
  | a :: rest, index => do
      let here ← a.coerceElement index
      let there ← Arg.coerceItems rest (index + here.length)
      .ok (here ++ there)

def Arg.coerceFields : List (String × Arg) → Except Refusal (List (String × Term))
  | [] => .ok []
  | (name, a) :: rest => do
      let t ← Step.down (.key name) a.coerce
      let ts ← Arg.coerceFields rest
      .ok ((name, t) :: ts)

end

def Arg.coerceFrom (origin : Origin) (a : Arg) : Except Error Term :=
  a.coerce.mapError (Refusal.toError origin)

/-- `a.toTerm` coerces `a` by itself; a bundle is then a `strayBundle`. -/
def Arg.toTerm (a : Arg) : Except Error Term := a.coerceFrom .value

namespace Arguments

def freezeFrom : List Arg → Nat → Except Error (List Term)
  | [], _ => .ok []
  | a :: rest, index => do
      let t ← a.coerceFrom (.argument index)
      let ts ← freezeFrom rest (index + 1)
      .ok (t :: ts)

def freeze (args : Arguments) : Except Error (List Term) := freezeFrom args.items 0

end Arguments

namespace Options

def freezeFields : Fields Arg → Except Error (Fields Term)
  | [] => .ok []
  | (name, a) :: rest => do
      let t ← a.coerceFrom (.option name)
      let ts ← freezeFields rest
      .ok ((name, t) :: ts)

def firstUnsupported? (options : Options) (rule : OptionRule) : Option String :=
  options.names.find? fun name => !rule.accepts name

/-- `options.freezeFor kind` looks up all names in the rule of `kind` before it coerces a value. -/
def freezeFor (options : Options) (kind : Kind) : Except Error (Fields Term) :=
  match options.firstUnsupported? kind.signature.options with
  | some name => .error (.unsupportedOption kind name)
  | none => freezeFields options.fields

end Options
end Reql
