import Reql.Number.Numeral
import Reql.Number.Range
import Reql.Settings.Path
import Reql.Toml.Moment

/-!
Settings before they are looked at.

Settings come in layers, each of which sets values under names.  A section is not replaced by a later
section of the same name but extended by it, so that every single setting has the value that the last
layer gives it.  Names are compared without regard to capitals.  What type a value should have is not
asked before all layers are in place; the conversions at the end accept whatever can be understood.
-/

namespace Reql

inductive Setting
  /-- The place of a setting that has no value. -/
  | nothing
  | boolean (b : Bool)
  | integer (n : Int)
  | float (x : Double)
  | text (s : String)
  | list (items : List Setting)
  | group (fields : List (String × Setting))
  deriving Inhabited

namespace Setting

/-! ### Sources -/

mutual

/-- `ofToml v` is the setting of a value from a file.  There is none if a table that stands for a
date or time does not hold the text of one. -/
def ofToml : Toml → Option Setting
  | .string s => some (.text s)
  | .integer n => some (.integer n)
  | .float x => some (.float x)
  | .boolean b => some (.boolean b)
  | .moment s => some (.text s)
  | .array items => (ofTomlItems items).map .list
  | .table _ fields => ofTomlTable fields
  | .tables elements => (ofTomlElements elements).map .list

def ofTomlTable (fields : List (String × Toml)) : Option Setting :=
  match Toml.markedMoment? fields with
  | some s => s.map .text
  | none => (ofTomlFields fields).map .group

def ofTomlItems : List Toml → Option (List Setting)
  | [] => some []
  | v :: rest => do
      let s ← ofToml v
      let more ← ofTomlItems rest
      some (s :: more)

def ofTomlFields : List (String × Toml) → Option (List (String × Setting))
  | [] => some []
  | (name, v) :: rest => do
      let s ← ofToml v
      let more ← ofTomlFields rest
      some ((name, s) :: more)

def ofTomlElements : List (List (String × Toml)) → Option (List Setting)
  | [] => some []
  | fields :: rest => do
      let s ← ofTomlTable fields
      let more ← ofTomlElements rest
      some (s :: more)

end

def ofText (s : String) : Setting :=
  let asNumber :=
    match Double.ofText? s with
    | some x => .float x
    | none => .text s
  match s.toLower with
  | "true" => .boolean true
  | "false" => .boolean false
  | _ =>
      match readInt? s.toList with
      | some n => if InSignedRange n then .integer n else asNumber
      | none => asNumber

/-! ### Layers -/

def fields : Setting → Fields Setting
  | .group fields => fields
  | _ => []

def items : Setting → List Setting
  | .list items => items
  | _ => []

mutual

/-- `root.put name value` sets a name of a section; what is not a section becomes one. -/
def put (root : Setting) (name : String) : Setting → Setting
  | .group incoming =>
      let old := (Fields.get? root.fields name.toLower).getD (.group [])
      .group (Fields.insert root.fields name.toLower (putAll old incoming))
  | .nothing => .group (Fields.insert root.fields name.toLower .nothing)
  | .boolean b => .group (Fields.insert root.fields name.toLower (.boolean b))
  | .integer n => .group (Fields.insert root.fields name.toLower (.integer n))
  | .float x => .group (Fields.insert root.fields name.toLower (.float x))
  | .text s => .group (Fields.insert root.fields name.toLower (.text s))
  | .list items => .group (Fields.insert root.fields name.toLower (.list items))

def putAll (root : Setting) : List (String × Setting) → Setting
  | [] => root
  | (name, value) :: rest => putAll (root.put name value) rest

end

/-- `placeOf length i` is the place that `i` denotes in a list, where a negative `i` counts from the
end. -/
def placeOf (length : Nat) (i : Int) : Option Nat :=
  let place := if i < 0 then i + length else i
  if 0 ≤ place then some place.toNat else none

/-- Lists do not grow beyond this length: what is put further behind is lost. -/
def greatestLength : Nat := 65536

def padTo (items : List Setting) (place : Nat) : List Setting :=
  items ++ List.replicate (min (place + 1) greatestLength - items.length) .nothing

/-- `root.putAt value path` sets what a path leads to.  On the way, what is missing or of the wrong
form is replaced by an empty section or list; a place before the beginning of a list changes
nothing. -/
def putAt (root : Setting) (value : Setting) : List PathStep → Setting
  | [] => value
  | [.name name] => root.put name value
  | .name name :: rest =>
      let inner := (Fields.get? root.fields name.toLower).getD .nothing
      .group (Fields.insert root.fields name.toLower (inner.putAt value rest))
  | .index i :: rest =>
      match placeOf root.items.length i with
      | none => root
      | some place =>
          let items := padTo root.items place
          .list (items.set place ((items.getD place .nothing).putAt value rest))

def layer (root : Setting) (settings : List (String × Setting)) : Setting :=
  settings.foldl (fun root setting => root.putAt setting.2 (PathStep.ofText setting.1)) root

/-! ### Conversions -/

def truthWord? (s : String) : Option Bool :=
  match s.toLower with
  | "true" => some true
  | "on" => some true
  | "yes" => some true
  | "false" => some false
  | "off" => some false
  | "no" => some false
  | _ => none

def toBool? : Setting → Option Bool
  | .boolean b => some b
  | .integer n => some (n ≠ 0)
  | .float x => some (!(x.same (.ofCode false 0)))
  | .text "1" => some true
  | .text "0" => some false
  | .text s => truthWord? s
  | _ => none

/-- The setting as a number up to `greatestUnsigned`; a floating-point one is rounded and cut to
these by `Double.toNatWithin`. -/
def toNat? : Setting → Option Nat
  | .boolean b => some b.toNat
  | .integer n => if n < 0 then none else some n.toNat
  | .float x => some (x.toNatWithin greatestUnsigned)
  | .text s =>
      match truthWord? s with
      | some b => some b.toNat
      | none =>
          match s.toList with
          | '-' :: _ => none
          | cs => (readInt? cs).bind fun n => if n ≤ greatestUnsigned then some n.toNat else none
  | _ => none

/-- A floating-point number inside a text is always written out in full. -/
def numberLayout : Layout :=
  { leastPositional := -400, greatestPositional := 400, keepPoint := false, plusSign := false,
    tie := .up }

def toText? : Setting → Option String
  | .boolean b => some (if b then "true" else "false")
  | .integer n => some (String.ofList (intDigits n))
  | .float x => some (String.ofList (x.write numberLayout))
  | .text s => some s
  | _ => none

end Setting
end Reql
