import Reql.Number.Layout

/-!
Double and single precision numbers as bit patterns.

A number is a sign and a code of its format; codes above the code of infinity are not numbers.  The
comparison `same` is the one of floating-point arithmetic: zero has two representations that
compare equal, and what is not a number differs from everything, itself included.
-/

namespace Reql

structure Double where
  bits : UInt64
  deriving DecidableEq, Inhabited

structure Single where
  bits : UInt32
  deriving DecidableEq, Inhabited

namespace Double

def signWeight : Nat := 9223372036854775808

def negative (x : Double) : Bool := signWeight ≤ x.bits.toNat

def code (x : Double) : Nat := x.bits.toNat % signWeight

def ofCode (negative : Bool) (code : Nat) : Double :=
  ⟨UInt64.ofNat ((if negative then signWeight else 0) + code)⟩

def isFinite (x : Double) : Bool := x.code < Format.double.infinity

def isNaN (x : Double) : Bool := Format.double.infinity < x.code

def nan : Double := ofCode false (Format.double.infinity + Format.double.block / 2)

def infinite (negative : Bool) : Double := ofCode negative Format.double.infinity

def ofDecimal (negative : Bool) (d : Decimal) : Double :=
  ofCode negative (Format.double.ofDecimal d)

def ofInt (n : Int) : Double := ofCode (n < 0) (Format.double.round ⟨n.natAbs, 1⟩)

def same (x y : Double) : Bool :=
  !x.isNaN && !y.isNaN && (x.bits == y.bits || (x.code == 0 && y.code == 0))

def write (l : Layout) (x : Double) : List Char :=
  if x.isNaN then ['N', 'a', 'N']
  else
    let size := if x.isFinite then l.write (Format.double.shortest l.tie x.code) else ['i', 'n', 'f']
    if x.negative then '-' :: size else size

/-- `x.toNatWithin limit` is the nearest integer, a half going away from zero, cut to the numbers
from zero to `limit`; what is not a number becomes zero. -/
def toNatWithin (x : Double) (limit : Nat) : Nat :=
  if x.isNaN || x.negative then 0
  else if x.isFinite then
    let r := Format.double.value x.code
    min ((2 * r.num + r.den) / (2 * r.den)) limit
  else limit

end Double

namespace Single

def signWeight : Nat := 2147483648

def negative (x : Single) : Bool := signWeight ≤ x.bits.toNat

def code (x : Single) : Nat := x.bits.toNat % signWeight

def ofCode (negative : Bool) (code : Nat) : Single :=
  ⟨UInt32.ofNat ((if negative then signWeight else 0) + code)⟩

def isFinite (x : Single) : Bool := x.code < Format.single.infinity

def isNaN (x : Single) : Bool := Format.single.infinity < x.code

def nan : Single := ofCode false (Format.single.infinity + Format.single.block / 2)

def ofDecimal (negative : Bool) (d : Decimal) : Single :=
  ofCode negative (Format.single.ofDecimal d)

/-- Nothing is rounded, as double precision holds every single precision number. -/
def toDouble (x : Single) : Double :=
  if x.isNaN then .nan
  else if x.isFinite then
    .ofCode x.negative (Format.double.round (Format.single.value x.code))
  else .infinite x.negative

def write (l : Layout) (x : Single) : List Char :=
  let size := l.write (Format.single.shortest l.tie x.code)
  if x.negative then '-' :: size else size

end Single
end Reql
