import Reql.Datum.Display
import Reql.Json.Reader
import Reql.Json.Writer
import Reql.Kind.Catalog

/-!
What can go wrong, and the words for it.

An error is a cause together with the place where it arose.  Places are kept as lists of steps; the
functions that walk down a value add a step on the way back, so each of them only knows its own
level.  The wording of all errors is in `Error.message`.
-/

namespace Reql

/-! ### Places -/

inductive Step
  | index (i : Nat)
  | key (name : String)
  deriving DecidableEq

inductive Origin
  | value
  | argument (index : Nat)
  | option (name : String)
  deriving DecidableEq

structure Place where
  origin : Origin
  steps : List Step
  deriving DecidableEq

/-- A step from an encoded term to a term in it; `member` is the step into an object that stands for
an operation. -/
inductive WireStep
  | argument (index : Nat)
  | option (name : String)
  | member (name : String)
  deriving DecidableEq

inductive Position
  | argument (index : Nat)
  | option (name : String)
  deriving DecidableEq

namespace Step

def text : Step → String
  | .index i => "[" ++ toString i ++ "]"
  | .key name => "." ++ name

end Step

namespace Origin

def text : Origin → String
  | .value => "$"
  | .argument index => "$args[" ++ toString index ++ "]"
  | .option name => "$optargs." ++ name

end Origin

namespace Place

def whole (origin : Origin) : Place := ⟨origin, []⟩

def text (p : Place) : String := p.origin.text ++ String.join (p.steps.map Step.text)

end Place

namespace WireStep

def text : WireStep → String
  | .argument index => "[1][" ++ toString index ++ "]"
  | .option name => "[2]." ++ name
  | .member name => "." ++ name

end WireStep

namespace Position

def text : Position → String
  | .argument index => "argument " ++ toString index
  | .option name => "optarg `" ++ name ++ "`"

end Position

/-! ### Causes -/

inductive Misfit
  /-- The kind `datum` has no arguments: its nodes are made from values. -/
  | datumFromArguments
  | notFinite (x : Double)
  /-- A bundle that is not in a list of arguments or elements. -/
  | strayBundle
  | integerRange
  | nameNotFinite
  | nameNotText
  deriving DecidableEq

inductive Malformation
  | length (n : Nat)
  | head (found : Json)
  | unknownTag (n : Nat)
  | datumTag
  | arguments (found : Json)
  | options (found : Json)

inductive SettingsFault
  | noFile
  | notToml
  | wrongType
  | tooLarge
  deriving DecidableEq

inductive Error
  | construction (place : Place) (reason : Misfit)
  | unsupportedOption (kind : Kind) (option : String)
  | arity (kind : Kind) (actual : Nat)
  /-- A failure at a child of a node; `source` is what failed at the child. -/
  | encode (parent : Kind) (position : Position) (child : Kind) (source : Error)
  | unencodable (value : Datum)
  | depthExceeded (limit : Nat)
  | decode (steps : List WireStep) (reason : Malformation)
  | config (fault : SettingsFault)
  | serialization (fault : Json.Fault)

/-! ### Words -/

namespace Misfit

def message : Misfit → String
  | .datumFromArguments => "DATUM terms are built from values, not from arguments"
  | .notFinite x => "number " ++ Datum.numberText x ++ " has no JSON representation"
  | .strayBundle => "an argument bundle is only valid in a positional argument list"
  | .integerRange => "number out of range"
  | .nameNotFinite => "float key must be finite (got NaN or +/-inf)"
  | .nameNotText => "key must be a string"

end Misfit

namespace Malformation

def message : Malformation → String
  | .length n => "a term has 1 to 3 elements, got " ++ toString n
  | .head found => "expected a term type number, got " ++ found.text
  | .unknownTag n => "unknown term type " ++ toString n
  | .datumTag => "DATUM terms are sent as raw values"
  | .arguments found => "expected an argument array, got " ++ found.text
  | .options found => "expected an optarg object, got " ++ found.text

end Malformation

namespace SettingsFault

def message : SettingsFault → String
  | .noFile => "the file cannot be read"
  | .notToml => "the file is not valid TOML"
  | .wrongType => "a setting has a value of the wrong type"
  | .tooLarge => "a number is too large for a TOML integer"

end SettingsFault

def Json.Fault.message : Json.Fault → String
  | .truncated => "the text ends too early"
  | .malformed => "the text is not valid JSON"

namespace Error

def message : Error → String
  | .construction place reason =>
      "cannot build a term from the value at " ++ place.text ++ ": " ++ reason.message
  | .unsupportedOption kind option =>
      kind.name ++ " does not accept the optional argument `" ++ option ++ "`"
  | .arity kind actual =>
      kind.name ++ " expects " ++ kind.signature.arity.text ++ " positional argument(s), got " ++
        toString actual
  | .encode parent position child source =>
      "cannot encode " ++ child.name ++ " at " ++ position.text ++ " of " ++ parent.name ++ ": " ++
        source.message
  | .unencodable value =>
      "unencodable value: DATUM terms hold JSON scalars only, got " ++ value.text
  | .depthExceeded limit =>
      "term nesting exceeds the maximum depth of " ++ toString limit
  | .decode steps reason =>
      "invalid wire term at $" ++ String.join (steps.map WireStep.text) ++ ": " ++ reason.message
  | .config fault => "configuration error: " ++ fault.message
  | .serialization fault => "serialization error: " ++ fault.message

end Error
end Reql
