import Reql.Fields
import Reql.Number.Double
import Reql.Number.Range

/-!
JSON values.

Numbers come in two classes that are never mixed up: integers, which hold everything from the least
signed to the greatest unsigned 64-bit number, and finite floating-point numbers.  The members of an
object keep their order.
-/

namespace Reql

inductive Json.Number
  | integer (n : Int) (inRange : InWordRange n)
  | float (x : Double) (finite : x.isFinite = true)
  deriving DecidableEq

inductive Json
  | null
  | bool (b : Bool)
  | number (n : Json.Number)
  | string (s : String)
  | array (items : List Json)
  | object (fields : List (String × Json))
  deriving Inhabited

namespace Json

namespace Number

def ofInt64 (n : Int64) : Number :=
  .integer n.toInt (by have h := n.le_toInt; have h' := n.toInt_lt; omega)

def ofUInt64 (n : UInt64) : Number :=
  .integer n.toNat (by have h := n.toNat_lt; omega)

def ofInt? (n : Int) : Option Number :=
  if h : InWordRange n then some (.integer n h) else none

def ofDouble? (x : Double) : Option Number :=
  if h : x.isFinite = true then some (.float x h) else none

end Number

def natural? : Json → Option Nat
  | .number (.integer n _) => if 0 ≤ n then some n.toNat else none
  | _ => none

def isScalar : Json → Bool
  | .array _ => false
  | .object _ => false
  | _ => true

/-! ### Distinct names -/

mutual

/-- `v.Distinct` says that in every object of `v` the names are distinct. -/
def Distinct : Json → Prop
  | .array items => DistinctItems items
  | .object fields => Fields.Distinct fields ∧ DistinctFields fields
  | .null => True
  | .bool _ => True
  | .number _ => True
  | .string _ => True

def DistinctItems : List Json → Prop
  | [] => True
  | v :: rest => v.Distinct ∧ DistinctItems rest

def DistinctFields : List (String × Json) → Prop
  | [] => True
  | (_, v) :: rest => v.Distinct ∧ DistinctFields rest

end

end Json
end Reql
