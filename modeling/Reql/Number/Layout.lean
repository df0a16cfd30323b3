import Reql.Number.Decimal

/-!
How a decimal is set in digits.

Numbers whose leading digit has a moderate exponent are written positionally, all others with an
exponent.  Where the border lies, whether a whole number keeps a point, and whether a positive
exponent carries a sign is decided by a `Layout`; each written form of the library has one.
-/

namespace Reql

structure Layout where
  /-- A number is written positionally if the exponent of its leading digit is from
  `leastPositional` up to `greatestPositional`. -/
  leastPositional : Int
  greatestPositional : Int
  /-- Whole numbers in positional form end in a point and a zero. -/
  keepPoint : Bool
  plusSign : Bool
  tie : Tie
  deriving DecidableEq

def natDigits (n : Nat) : List Char := Nat.toDigits 10 n

def intDigits (n : Int) : List Char :=
  if n < 0 then '-' :: natDigits n.natAbs else natDigits n.natAbs

namespace Layout

/-- `l.positional digits order` sets the digits, the first of which has the weight `10 ^ order`. -/
def positional (l : Layout) (digits : List Char) (order : Int) : List Char :=
  if order < 0 then
    '0' :: '.' :: (List.replicate (-order - 1).toNat '0' ++ digits)
  else
    let whole := order.toNat + 1
    if digits.length ≤ whole then
      digits ++ List.replicate (whole - digits.length) '0' ++ (if l.keepPoint then ['.', '0'] else [])
    else
      digits.take whole ++ '.' :: digits.drop whole

def scientific (l : Layout) (digits : List Char) (order : Int) : List Char :=
  let sign := if l.plusSign ∧ 0 ≤ order then ['+'] else []
  match digits with
  | [] => []
  | [d] => d :: 'e' :: (sign ++ intDigits order)
  | d :: rest => d :: '.' :: (rest ++ 'e' :: (sign ++ intDigits order))

def write (l : Layout) (d : Decimal) : List Char :=
  let digits := natDigits d.coefficient
  let order := d.exponent + digits.length - 1
  if d.coefficient = 0 then l.positional ['0'] 0
  else if l.leastPositional ≤ order ∧ order ≤ l.greatestPositional then l.positional digits order
  else l.scientific digits order

end Layout
end Reql
