import Reql.Number.Double

/-!
Reading numbers that stand alone in a text.

A numeral is an optional sign followed by digits with at most one point among them and an optional
exponent; at least one digit has to stand before or after the point.  The words `nan`, `inf` and
`infinity` are read too, in any mixture of capitals.
-/

namespace Reql

inductive Numeral
  | decimal (d : Decimal)
  | infinite
  | notANumber
  deriving DecidableEq

def digitValue (c : Char) : Nat := c.toNat - '0'.toNat

/-- `readDigits start digits` is the number that the digits denote behind those of `start`. -/
def readDigits (start : Nat) (digits : List Char) : Nat :=
  digits.foldl (fun n c => n * 10 + digitValue c) start

def spanDigits (cs : List Char) : List Char × List Char := cs.span Char.isDigit

def splitSign : List Char → Bool × List Char
  | '-' :: rest => (true, rest)
  | '+' :: rest => (false, rest)
  | rest => (false, rest)

def readInt? (cs : List Char) : Option Int :=
  let (negative, digits) := splitSign cs
  if digits.isEmpty || !digits.all Char.isDigit then none
  else
    let n : Int := readDigits 0 digits
    some (if negative then -n else n)

namespace Numeral

def readExponent? : List Char → Option Int
  | [] => some 0
  | c :: rest => if c = 'e' ∨ c = 'E' then readInt? rest else none

def readDecimal? (cs : List Char) : Option Decimal :=
  let (whole, rest) := spanDigits cs
  let (fraction, rest) :=
    match rest with
    | '.' :: rest => spanDigits rest
    | rest => ([], rest)
  if whole.isEmpty && fraction.isEmpty then none
  else (readExponent? rest).map fun exponent =>
    ⟨readDigits (readDigits 0 whole) fraction, exponent - fraction.length⟩

def readUnsigned? (cs : List Char) : Option Numeral :=
  let word := String.ofList (cs.map Char.toLower)
  if word = "nan" then some .notANumber
  else if word = "inf" ∨ word = "infinity" then some .infinite
  else (readDecimal? cs).map .decimal

def read? (text : String) : Option (Bool × Numeral) :=
  let (negative, rest) := splitSign text.toList
  (readUnsigned? rest).map (negative, ·)

end Numeral

def Double.ofText? (text : String) : Option Double :=
  (Numeral.read? text).map fun
    | (negative, .decimal d) => .ofDecimal negative d
    | (negative, .infinite) => .infinite negative
    | (_, .notANumber) => .nan

def Single.ofText? (text : String) : Option Single :=
  (Numeral.read? text).map fun
    | (negative, .decimal d) => .ofDecimal negative d
    | (negative, .infinite) => .ofCode negative Format.single.infinity
    | (_, .notANumber) => .nan

end Reql
