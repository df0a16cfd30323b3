import Reql.Datum.Json
import Reql.Error
import Reql.Json.Writer
import Reql.Term.Basic

/-!
Terms as JSON values.

A datum is sent as a bare scalar.  Every other node becomes an array of its number, the array of its
arguments and, if it has any, the object of its options.  A failure is reported once, by the parent
of the node that failed; parents further out pass it on.
-/

namespace Reql

structure Encoder where
  maxDepth : Option Nat := none
  deriving DecidableEq, Inhabited

namespace Error

/-- `locate` gives the error as the parent sees it: the failure of the child at a position, unless
it has been located further down already. -/
def locate (parent : Kind) (position : Position) (child : Kind) : Error → Error
  | .encode p q c source => .encode p q c source
  | source => .encode parent position child source

end Error

namespace Encoder

def admits (e : Encoder) (depth : Nat) : Except Error Unit :=
  match e.maxDepth with
  | some limit => if limit < depth then .error (.depthExceeded limit) else .ok ()
  | none => .ok ()

def nodeJson (kind : Kind) (args : List Json) (options : Fields Json) : Json :=
  let head : Json := .number (.integer kind.tag (by have h := kind.tag_lt; omega))
  match options with
  | [] => .array [head, .array args]
  | _ :: _ => .array [head, .array args, .object options]

mutual

/-- `e.encodeAt t depth` encodes a term whose root is at a depth. -/
def encodeAt (e : Encoder) : Term → Nat → Except Error Json
  | .datum value, depth => do
      e.admits depth
      match value.toScalar? with
      | some json => .ok json
      | none => .error (.unencodable value)
  | .node kind args options, depth => do
      e.admits depth
      let args ← encodeArgs e kind args 0 (depth + 1)
      let options ← encodeOptions e kind options (depth + 1)
      .ok (nodeJson kind args options)

def encodeArgs (e : Encoder) (parent : Kind) : List Term → Nat → Nat → Except Error (List Json)
  | [], _, _ => .ok []
  | t :: rest, index, depth => do
      let json ← (e.encodeAt t depth).mapError (.locate parent (.argument index) t.kind)
      let more ← encodeArgs e parent rest (index + 1) depth
      .ok (json :: more)

def encodeOptions (e : Encoder) (parent : Kind) :
    List (String × Term) → Nat → Except Error (List (String × Json))
  | [], _ => .ok []
  | (name, t) :: rest, depth => do
      let json ← (e.encodeAt t depth).mapError (.locate parent (.option name) t.kind)
      let more ← encodeOptions e parent rest depth
      .ok ((name, json) :: more)

end

def encode (e : Encoder) (t : Term) : Except Error Json := e.encodeAt t 1

def encodeText (e : Encoder) (t : Term) : Except Error String := do
  let json ← e.encode t
  .ok json.text

end Encoder

def Term.encode (t : Term) : Except Error Json := Encoder.encode {} t

end Reql
