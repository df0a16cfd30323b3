import Reql.Datum.Basic
import Reql.Json.Basic

/-!
Data and JSON values.

`ofJson` looks at the class of each number once.  `readUntagged` knows nothing of classes: it offers
the value to one kind of datum after the other and takes the first that accepts it, which is right
because every kind but the last numeric one accepts only what it can hold exactly.  In the other
direction `toJson` keeps everything but non-finite numbers, and `toScalar?` serves where only a bare
scalar may stand.
-/

namespace Reql.Datum

/-- An integer is an `integer` if it fits, and `unsigned` above that. -/
def ofNumber : Json.Number → Datum
  | .integer n _ => if InSignedRange n then .integer (Int64.ofInt n) else .unsigned (UInt64.ofNat n.toNat)
  | .float x _ => .number x

mutual

def ofJson : Json → Datum
  | .null => .null
  | .bool b => .boolean b
  | .number n => ofNumber n
  | .string s => .string s
  | .array items => .array (ofJsonItems items)
  | .object fields => .object (ofJsonFields fields)

def ofJsonItems : List Json → List Datum
  | [] => []
  | v :: rest => ofJson v :: ofJsonItems rest

def ofJsonFields : List (String × Json) → List (String × Datum)
  | [] => []
  | (name, v) :: rest => (name, ofJson v) :: ofJsonFields rest

end

/-! ### Trial of the kinds in order -/

def readNull : Json → Option Datum
  | .null => some .null
  | _ => none

def readBoolean : Json → Option Datum
  | .bool b => some (.boolean b)
  | _ => none

def readInteger : Json → Option Datum
  | .number (.integer n _) =>
      if InSignedRange n then some (.integer (Int64.ofInt n)) else none
  | _ => none

def readUnsigned : Json → Option Datum
  | .number (.integer n _) =>
      if InUnsignedRange n then some (.unsigned (UInt64.ofNat n.toNat)) else none
  | _ => none

def readNumber : Json → Option Datum
  | .number (.integer n _) => some (.number (.ofInt n))
  | .number (.float x _) => some (.number x)
  | _ => none

def readString : Json → Option Datum
  | .string s => some (.string s)
  | _ => none

/-- The order matters: `readNumber` accepts integers too, by rounding them. -/
def scalarTrials : List (Json → Option Datum) :=
  [readNull, readBoolean, readInteger, readUnsigned, readNumber, readString]

mutual

def readUntagged (v : Json) : Option Datum :=
  (scalarTrials.findSome? fun trial => trial v).orElse fun _ =>
    match v with
    | .array items => (readUntaggedItems items).map .array
    | .object fields => (readUntaggedFields fields).map .object
    | _ => none
termination_by structural v

def readUntaggedItems (vs : List Json) : Option (List Datum) :=
  match vs with
  | [] => some []
  | v :: rest => do
      let d ← readUntagged v
      let ds ← readUntaggedItems rest
      some (d :: ds)
termination_by structural vs

def readUntaggedFields (fields : List (String × Json)) : Option (List (String × Datum)) :=
  match fields with
  | [] => some []
  | (name, v) :: rest => do
      let d ← readUntagged v
      let ds ← readUntaggedFields rest
      some ((name, d) :: ds)
termination_by structural fields

end

/-! ### Back to JSON -/

def jsonOfDouble (x : Double) : Json :=
  match Json.Number.ofDouble? x with
  | some n => .number n
  | none => .null

mutual

def toJson : Datum → Json
  | .null => .null
  | .boolean b => .bool b
  | .integer n => .number (.ofInt64 n)
  | .unsigned n => .number (.ofUInt64 n)
  | .number x => jsonOfDouble x
  | .string s => .string s
  | .array items => .array (toJsonItems items)
  | .object fields => .object (toJsonFields fields)

def toJsonItems : List Datum → List Json
  | [] => []
  | d :: rest => d.toJson :: toJsonItems rest

def toJsonFields : List (String × Datum) → List (String × Json)
  | [] => []
  | (name, d) :: rest => (name, d.toJson) :: toJsonFields rest

end

/-- There is no bare scalar for arrays, for objects and for numbers that are not finite. -/
def toScalar? : Datum → Option Json
  | .null => some .null
  | .boolean b => some (.bool b)
  | .integer n => some (.number (.ofInt64 n))
  | .unsigned n => some (.number (.ofUInt64 n))
  | .number x => (Json.Number.ofDouble? x).map .number
  | .string s => some (.string s)
  | .array _ => none
  | .object _ => none

end Reql.Datum
