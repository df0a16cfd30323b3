import Reql.Error
import Reql.Datum.Json
import Reql.Term.Make

/-!
Terms from JSON values.

Scalars are data.  An array of one to three elements is an operation: its number, its arguments and
its options.  An object stands for the operation that builds it.  Every operation is made by
`Term.make`, so that a query from the wire has to keep to the same signatures as one that is built.

Errors about the shape of a value carry the steps that lead to it.  Those of `Term.make` do not, as
they name the operation.
-/

namespace Reql

namespace Error

def under (step : WireStep) : Error → Error
  | .decode steps reason => .decode (step :: steps) reason
  | e => e

def malformed (reason : Malformation) : Error := .decode [] reason

end Error

namespace Json

def operation (head : Json) : Except Error Kind :=
  match head.natural? with
  | none => .error (.malformed (.head head))
  | some n =>
      match Kind.ofTag? n with
      | none => .error (.malformed (.unknownTag n))
      | some .datum => .error (.malformed .datumTag)
      | some kind => .ok kind

def makeOperation (kind : Kind) (args : List Term) (options : List (String × Term)) :
    Except Error Term :=
  Term.make kind none (.ofList (args.map .term))
    (.ofList (options.map fun option => (option.1, .term option.2)))

mutual

def decode : Json → Except Error Term
  | .null => .ok (.datum .null)
  | .bool b => .ok (.datum (.boolean b))
  | .number n => .ok (.datum (Datum.ofNumber n))
  | .string s => .ok (.datum (.string s))
  | .object fields => do
      let members ← decodeFields .member fields
      makeOperation .makeObj [] members
  | .array [head] => do
      let kind ← head.operation
      makeOperation kind [] []
  | .array [head, args] => do
      let kind ← head.operation
      let args ← decodeArgs args
      makeOperation kind args []
  | .array [head, args, options] => do
      let kind ← head.operation
      let args ← decodeArgs args
      let options ← decodeOptions options
      makeOperation kind args options
  | .array items => .error (.malformed (.length items.length))

def decodeArgs : Json → Except Error (List Term)
  | .array items => decodeItems items 0
  | other => .error (.malformed (.arguments other))

def decodeOptions : Json → Except Error (List (String × Term))
  | .object fields => decodeFields .option fields
  | other => .error (.malformed (.options other))

def decodeItems : List Json → Nat → Except Error (List Term)
  | [], _ => .ok []
  | v :: rest, index => do
      let t ← (decode v).mapError (.under (.argument index))
      let ts ← decodeItems rest (index + 1)
      .ok (t :: ts)

/-- `decodeFields step` reads the members of an object, each one `step` away. -/
def decodeFields (step : String → WireStep) :
    List (String × Json) → Except Error (List (String × Term))
  | [] => .ok []
  | (name, v) :: rest => do
      let t ← (decode v).mapError (.under (step name))
      let ts ← decodeFields step rest
      .ok ((name, t) :: ts)

end

end Json

def Term.ofText (text : String) : Except Error Term := do
  let json ← (Json.read text).mapError .serialization
  json.decode

end Reql
