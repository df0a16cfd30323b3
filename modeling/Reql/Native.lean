import Reql.Arg.Coerce
import Reql.Datum.Json

/-!
Values of a typed program, and their JSON form.

A typed value knows more than a JSON value: its numbers have widths, its variants have names, and its
maps have keys of any type.  Variants become objects with a single member, everything without content
becomes null, and so do floating-point numbers that are not finite.  A key has to be something that
can be written as text.
-/

namespace Reql

inductive Native
  | unit
  | bool (b : Bool)
  | integer (n : Int)
  | float (x : Double)
  | single (x : Single)
  | char (c : Char)
  | string (s : String)
  | bytes (bs : List UInt8)
  | present (v : Native)
  | newtype (v : Native)
  | sequence (vs : List Native)
  | map (entries : List (Native × Native))
  | struct (fields : List (String × Native))
  | unitVariant (name : String)
  | newtypeVariant (name : String) (v : Native)
  | tupleVariant (name : String) (vs : List Native)
  | structVariant (name : String) (fields : List (String × Native))

namespace Native

/-- The text of a map key.  Options are no keys, whether they are `present` or not. -/
def keyText : Native → Except Misfit String
  | .string s => .ok s
  | .char c => .ok (String.singleton c)
  | .unitVariant name => .ok name
  | .newtype v => v.keyText
  | .bool true => .ok "true"
  | .bool false => .ok "false"
  | .integer n => .ok (String.ofList (intDigits n))
  | .float x =>
      if x.isFinite then .ok (String.ofList (x.write Json.numberLayout)) else .error .nameNotFinite
  | .single x =>
      if x.isFinite then .ok (String.ofList (x.write Json.singleLayout)) else .error .nameNotFinite
  | _ => .error .nameNotText

def jsonOfInt (n : Int) : Except Misfit Json :=
  match Json.Number.ofInt? n with
  | some number => .ok (.number number)
  | none => .error .integerRange

mutual

def toJson : Native → Except Misfit Json
  | .unit => .ok .null
  | .bool b => .ok (.bool b)
  | .integer n => jsonOfInt n
  | .float x => .ok (Datum.jsonOfDouble x)
  | .single x => .ok (Datum.jsonOfDouble x.toDouble)
  | .char c => .ok (.string (String.singleton c))
  | .string s => .ok (.string s)
  | .bytes bs => .ok (.array (bs.map fun b => .number (.ofUInt64 b.toUInt64)))
  | .present v => v.toJson
  | .newtype v => v.toJson
  | .sequence vs => do
      let items ← toJsonItems vs
      .ok (.array items)
  | .map entries => do
      let members ← toJsonEntries entries
      .ok (.object (Fields.ofList members))
  | .struct fields => do
      let members ← toJsonFields fields
      .ok (.object (Fields.ofList members))
  | .unitVariant name => .ok (.string name)
  | .newtypeVariant name v => do
      let content ← v.toJson
      .ok (.object [(name, content)])
  | .tupleVariant name vs => do
      let items ← toJsonItems vs
      .ok (.object [(name, .array items)])
  | .structVariant name fields => do
      let members ← toJsonFields fields
      .ok (.object [(name, .object (Fields.ofList members))])

def toJsonItems : List Native → Except Misfit (List Json)
  | [] => .ok []
  | v :: rest => do
      let item ← v.toJson
      let items ← toJsonItems rest
      .ok (item :: items)

def toJsonEntries : List (Native × Native) → Except Misfit (List (String × Json))
  | [] => .ok []
  | (key, v) :: rest => do
      let name ← key.keyText
      let member ← v.toJson
      let members ← toJsonEntries rest
      .ok ((name, member) :: members)

def toJsonFields : List (String × Native) → Except Misfit (List (String × Json))
  | [] => .ok []
  | (name, v) :: rest => do
      let member ← v.toJson
      let members ← toJsonFields rest
      .ok ((name, member) :: members)

end

/-- A value without a JSON form is refused as a whole: no steps lead into it. -/
def toTerm (v : Native) : Except Error Term :=
  match v.toJson with
  | .ok json => (Arg.value (Datum.ofJson json)).toTerm
  | .error reason => .error (.construction (.whole .value) reason)

end Native
end Reql
