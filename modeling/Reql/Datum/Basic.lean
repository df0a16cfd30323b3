import Reql.Fields
import Reql.Number.Double
import Reql.Number.Range

/-!
Data: the values a query can hold as they are.

An integer is kept apart from a floating-point number of the same size.  An unsigned integer is
`unsigned` only where the conversions of this module make it so, which is above the greatest signed
one; a smaller one is `integer`, whatever type it came from.
-/

namespace Reql

inductive Datum
  | null
  | boolean (b : Bool)
  | integer (n : Int64)
  | unsigned (n : UInt64)
  | number (x : Double)
  | string (s : String)
  | array (items : List Datum)
  | object (fields : List (String × Datum))
  deriving Inhabited

namespace Datum

def className : Datum → String
  | .null => "Null"
  | .boolean _ => "Boolean"
  | .integer _ => "Integer"
  | .unsigned _ => "Unsigned"
  | .number _ => "Number"
  | .string _ => "String"
  | .array _ => "Array"
  | .object _ => "Object"

/-! ### Conversions -/

/-- `ofUInt64 n` is an `integer` as long as `n` fits. -/
def ofUInt64 (n : UInt64) : Datum :=
  if InSignedRange n.toNat then .integer (Int64.ofInt n.toNat) else .unsigned n

def ofInt64 (n : Int64) : Datum := .integer n

def ofSingle (x : Single) : Datum := .number x.toDouble

/-! ### Access -/

def isNull : Datum → Bool
  | .null => true
  | _ => false

def isScalar : Datum → Bool
  | .array _ => false
  | .object _ => false
  | _ => true

def string? : Datum → Option String
  | .string s => some s
  | _ => none

/-- `number?` rounds the integers that no floating-point number holds. -/
def number? : Datum → Option Double
  | .integer n => some (.ofInt n.toInt)
  | .unsigned n => some (.ofInt n.toNat)
  | .number x => some x
  | _ => none

def int64? : Datum → Option Int64
  | .integer n => some n
  | _ => none

def uint64? : Datum → Option UInt64
  | .integer n => if n.toInt < 0 then none else some (UInt64.ofNat n.toInt.toNat)
  | .unsigned n => some n
  | _ => none

def boolean? : Datum → Option Bool
  | .boolean b => some b
  | _ => none

def array? : Datum → Option (List Datum)
  | .array items => some items
  | _ => none

def object? : Datum → Option (Fields Datum)
  | .object fields => some fields
  | _ => none

/-! ### Comparison -/

mutual

/-- `d.same e` is the equality of data: the kinds of value have to agree, floating-point numbers are
compared by `Double.same`, and the order of the fields of an object does not matter. -/
def same : Datum → Datum → Bool
  | .null, .null => true
  | .boolean a, .boolean b => a == b
  | .integer a, .integer b => a == b
  | .unsigned a, .unsigned b => a == b
  | .number a, .number b => a.same b
  | .string a, .string b => a == b
  | .array as, .array bs => sameItems as bs
  | .object as, .object bs => as.length == bs.length && sameFields as bs
  | _, _ => false

def sameItems : List Datum → List Datum → Bool
  | [], [] => true
  | a :: as, b :: bs => a.same b && sameItems as bs
  | _, _ => false

def sameFields : List (String × Datum) → List (String × Datum) → Bool
  | [], _ => true
  | (name, a) :: rest, bs =>
      (match Fields.get? bs name with
        | some b => a.same b
        | none => false) && sameFields rest bs

end

end Datum
end Reql
