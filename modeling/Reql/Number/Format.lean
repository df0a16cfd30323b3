/-!
Binary floating-point formats and rounding to the nearest number.

The non-negative numbers of a format are counted from zero upwards: the number with code `c` is the
`c`-th one, and the code of infinity is the first that is no longer a finite number.  Codes are
exactly the bit patterns without the sign bit, so the successor of a number has the next code, and a
carry out of the significand during rounding moves to the next exponent without a case distinction.
All arithmetic is on natural numbers.
-/

namespace Reql

/-- A binary interchange format: `precision` counts the significant bits, and `exponentBits` is the
width of the exponent. -/
structure Format where
  precision : Nat
  exponentBits : Nat
  deriving DecidableEq

structure Ratio where
  num : Nat
  den : Nat
  deriving DecidableEq

namespace Ratio

/-- `scaled n b e` is `n · b ^ e`. -/
def scaled (n b : Nat) (e : Int) : Ratio :=
  match e with
  | .ofNat k => ⟨n * Nat.pow b k, 1⟩
  | .negSucc k => ⟨n, Nat.pow b (k + 1)⟩

def le (a b : Ratio) : Bool := a.num * b.den ≤ b.num * a.den

/-- The nearest natural number; a half goes to the even neighbour. -/
def nearest (r : Ratio) : Nat :=
  let quotient := r.num / r.den
  let twice := 2 * (r.num % r.den)
  if twice < r.den then quotient
  else if r.den < twice then quotient + 1
  else quotient + quotient % 2

/-- The greatest `e` with `2 ^ e ≤ r`, for a positive `r`. -/
def log2 (r : Ratio) : Int :=
  let estimate : Int := (r.num.log2 : Int) - r.den.log2
  if (scaled 1 2 estimate).le r then estimate else estimate - 1

def shiftDown (r : Ratio) (e : Int) : Ratio :=
  match e with
  | .ofNat k => ⟨r.num, r.den * Nat.pow 2 k⟩
  | .negSucc k => ⟨r.num * Nat.pow 2 (k + 1), r.den⟩

end Ratio

namespace Format

def double : Format := ⟨53, 11⟩

def single : Format := ⟨24, 8⟩

/-- The number of codes that share an exponent. -/
def block (f : Format) : Nat := Nat.pow 2 (f.precision - 1)

/-- The smallest positive number is `2 ^ f.leastExponent`. -/
def leastExponent (f : Format) : Int := 3 - (Nat.pow 2 (f.exponentBits - 1) : Nat) - f.precision

def infinity (f : Format) : Nat := (Nat.pow 2 f.exponentBits - 1) * f.block

/-- The significand of a finite code: without the leading bit in the lowest block, with it in the
others. -/
def significand (f : Format) (code : Nat) : Nat :=
  if code / f.block = 0 then code else f.block + code % f.block

/-- The two lowest blocks share the `leastExponent`. -/
def exponent (f : Format) (code : Nat) : Int :=
  f.leastExponent + ((code / f.block - 1 : Nat) : Int)

def value (f : Format) (code : Nat) : Ratio :=
  .scaled (f.significand code) 2 (f.exponent code)

/-- `f.round r` is the code of the number nearest to `r`, a tie going to the even significand, and
`f.infinity` when the nearest number would need a larger exponent than the format has. -/
def round (f : Format) (r : Ratio) : Nat :=
  if r.num = 0 then 0 else
    let exponent := max (r.log2 - ((f.precision : Int) - 1)) f.leastExponent
    let code := (exponent - f.leastExponent).toNat * f.block + (r.shiftDown exponent).nearest
    min code f.infinity

end Format
end Reql
