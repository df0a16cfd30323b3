import Reql.Number.Format

/-!
Decimal numbers, and the shortest decimal that reads back as a given binary number.

A decimal is read by rounding its exact value to the nearest number of a format.  For writing, the
decimals with one significant digit are tried first, then those with two, and so on: on each grid
the two neighbours of the value are candidates, and a candidate is good when reading it gives the
number back.  The first grid with a good candidate wins.  The search ends at the latest on the grid
that holds the value itself, so what is written always reads back.
-/

namespace Reql

/-- The number `coefficient · 10 ^ exponent`. -/
structure Decimal where
  coefficient : Nat
  exponent : Int
  deriving DecidableEq

/-- What becomes of a value that lies exactly between two candidates. -/
inductive Tie
  | toEven
  | up
  deriving DecidableEq

def digitCount (n : Nat) : Nat := if n = 0 then 0 else (Nat.toDigits 10 n).length

namespace Decimal

def value (d : Decimal) : Ratio := .scaled d.coefficient 10 d.exponent

def order (d : Decimal) : Int := d.exponent + digitCount d.coefficient - 1

def trimZeros (d : Decimal) : Nat → Decimal
  | 0 => d
  | fuel + 1 =>
      if d.coefficient ≠ 0 ∧ d.coefficient % 10 = 0 then
        trimZeros ⟨d.coefficient / 10, d.exponent + 1⟩ fuel
      else d

def normalize (d : Decimal) : Decimal := d.trimZeros (digitCount d.coefficient)

end Decimal

namespace Ratio

def order (r : Ratio) : Int :=
  if r.den ≤ r.num then (digitCount (r.num / r.den) : Int) - 1
  else -(digitCount ((r.den - 1) / r.num) : Int)

/-- `r.onGrid e` is the position of `r` on the decimal grid with step `10 ^ e`: the number of whole
steps below it, and the exact rest as a quotient of a step. -/
def onGrid (r : Ratio) (e : Int) : Ratio :=
  match e with
  | .ofNat k => ⟨r.num, r.den * Nat.pow 10 k⟩
  | .negSucc k => ⟨r.num * Nat.pow 10 (k + 1), r.den⟩

end Ratio

namespace Format

/-- `f.ofDecimal d` is the code of the number nearest to `d`.  A decimal far above the greatest
number, or far below the smallest one, is recognised by its leading digit: powers of ten are at
least as far from one as the same powers of eight. -/
def ofDecimal (f : Format) (d : Decimal) : Nat :=
  if d.coefficient = 0 then 0
  else if (Nat.pow 2 (f.exponentBits - 1) : Nat) ≤ 3 * d.order then f.infinity
  else if 3 * (d.order + 1) < f.leastExponent then 0
  else f.round d.value

/-- The best decimal for a number on the grid with step `10 ^ e`: of the two neighbours of the value
the one that reads back, and of two such the nearer. -/
def onGrid? (f : Format) (tie : Tie) (code : Nat) (e : Int) : Option Decimal :=
  let position := (f.value code).onGrid e
  let below := position.num / position.den
  let twice := 2 * (position.num % position.den)
  let low : Decimal := ⟨below, e⟩
  let high : Decimal := ⟨below + 1, e⟩
  match f.ofDecimal low == code, f.ofDecimal high == code with
  | true, true =>
      if twice < position.den then some low
      else if position.den < twice then some high
      else match tie with
        | .up => some high
        | .toEven => some (if below % 2 = 0 then low else high)
  | true, false => some low
  | false, true => some high
  | false, false => none

/-- `f.search tie code e fuel` tries `onGrid?` on the grids from step `10 ^ e` downwards. -/
def search (f : Format) (tie : Tie) (code : Nat) : Int → Nat → Option Decimal
  | _, 0 => none
  | e, fuel + 1 => (f.onGrid? tie code e).orElse fun _ => search f tie code (e - 1) fuel

/-- A negative power of two is a power of five over a power of ten. -/
def exactDecimal (f : Format) (code : Nat) : Decimal :=
  match f.exponent code with
  | .ofNat k => ⟨f.significand code * Nat.pow 2 k, 0⟩
  | .negSucc k => ⟨f.significand code * Nat.pow 5 (k + 1), -((k + 1 : Nat) : Int)⟩

/-- `f.shortest tie code` is the shortest decimal that reads back as `code`, and of the shortest
ones the nearest. -/
def shortest (f : Format) (tie : Tie) (code : Nat) : Decimal :=
  if code = 0 then ⟨0, 0⟩
  else
    let order := (f.value code).order
    ((f.search tie code order f.precision).getD (f.exactDecimal code)).normalize

end Format
end Reql
