import Mathlib.Algebra.Order.Floor.Semifield
import Mathlib.Data.Int.Log
import Mathlib.Data.Rat.Floor
import Mathlib.Tactic.FieldSimp
import Mathlib.Tactic.Linarith
import Mathlib.Tactic.NormNum
import Mathlib.Tactic.Positivity
import Reql.Number.Decimal

/-!
Quotients as rational numbers.

`Ratio.toRat` is the rational number of a quotient. Scaling, shifting,
comparing, rounding and taking logarithms are the same on both sides, so what
is computed from a quotient depends on its value only and not on how it is
reduced. A quotient has a value only if its denominator is positive, and all
operations keep it so.
-/

namespace Reql

namespace Ratio

variable {r s : Ratio}

def toRat (r : Ratio) : ℚ := (r.num : ℚ) / (r.den : ℚ)

theorem toRat_eq_zero_iff (hr : 0 < r.den) : r.toRat = 0 ↔ r.num = 0 := by
  have hden : (r.den : ℚ) ≠ 0 := by exact_mod_cast hr.ne'
  simp [toRat, hden]

/-! ### Scaling -/

theorem den_scaled_pos {b : ℕ} (hb : 0 < b) (n : ℕ) (e : ℤ) : 0 < (scaled n b e).den := by
  cases e with
  | ofNat k => exact Nat.one_pos
  | negSucc k => exact Nat.pow_pos hb

@[simp] theorem toRat_scaled (n b : ℕ) (e : ℤ) : (scaled n b e).toRat = n * (b : ℚ) ^ e := by
  cases e with
  | ofNat k => simp [scaled, toRat]
  | negSucc k => simp [scaled, toRat, zpow_negSucc, div_eq_mul_inv]

theorem den_shiftDown_pos (hr : 0 < r.den) (e : ℤ) : 0 < (r.shiftDown e).den := by
  cases e with
  | ofNat k => exact Nat.mul_pos hr (Nat.pow_pos Nat.two_pos)
  | negSucc k => exact hr

@[simp] theorem toRat_shiftDown (r : Ratio) (e : ℤ) :
    (r.shiftDown e).toRat = r.toRat / (2 : ℚ) ^ e := by
  cases e with
  | ofNat k => simp [shiftDown, toRat, div_div]
  | negSucc k => simp [shiftDown, toRat, zpow_negSucc, mul_div_right_comm]

/-! ### Comparing and rounding -/

theorem le_iff_toRat_le (hr : 0 < r.den) (hs : 0 < s.den) : r.le s = true ↔ r.toRat ≤ s.toRat := by
  have hr' : (0 : ℚ) < r.den := by exact_mod_cast hr
  have hs' : (0 : ℚ) < s.den := by exact_mod_cast hs
  rw [le, decide_eq_true_eq, toRat, toRat, div_le_div_iff₀ hr' hs']
  exact_mod_cast Iff.rfl

def nearestOf (x : ℚ) : ℕ :=
  if 2 * Int.fract x < 1 then ⌊x⌋₊
  else if 1 < 2 * Int.fract x then ⌊x⌋₊ + 1
  else ⌊x⌋₊ + ⌊x⌋₊ % 2

theorem nearest_eq_nearestOf (hr : 0 < r.den) : r.nearest = nearestOf r.toRat := by
  have hden : (0 : ℚ) < r.den := by exact_mod_cast hr
  have hfloor : ⌊r.toRat⌋₊ = r.num / r.den := Nat.floor_div_eq_div _ _
  have hfract : 2 * Int.fract r.toRat = ((2 * (r.num % r.den) : ℕ) : ℚ) / (r.den : ℚ) := by
    rw [toRat, Int.fract_div_natCast_eq_div_natCast_mod]
    push_cast
    rw [mul_div_assoc]
  have hbelow : 2 * Int.fract r.toRat < 1 ↔ 2 * (r.num % r.den) < r.den := by
    rw [hfract, div_lt_one hden]
    exact_mod_cast Iff.rfl
  have habove : 1 < 2 * Int.fract r.toRat ↔ r.den < 2 * (r.num % r.den) := by
    rw [hfract, one_lt_div hden]
    exact_mod_cast Iff.rfl
  simp only [nearest, nearestOf, hfloor, hbelow, habove]

theorem nearestOf_natCast (n : ℕ) : nearestOf n = n := by
  have hfract : Int.fract (n : ℚ) = 0 := Int.fract_natCast n
  rw [nearestOf, hfract, if_pos (by norm_num), Nat.floor_natCast]

/-! ### Logarithms -/

theorem log_eq_of_between {b : ℕ} (hb : 1 < b) {x : ℚ} {e : ℤ} (hlow : (b : ℚ) ^ e ≤ x)
    (hhigh : x < (b : ℚ) ^ (e + 1)) : Int.log b x = e := by
  have hx : 0 < x := lt_of_lt_of_le (zpow_pos (by positivity) e) hlow
  have hle : e ≤ Int.log b x := (Int.zpow_le_iff_le_log hb hx).mp hlow
  have hlt : Int.log b x < e + 1 := (Int.lt_zpow_iff_log_lt hb hx).mp hhigh
  omega

theorem log_mul_zpow {b : ℕ} (hb : 1 < b) {x : ℚ} (hx : 0 < x) (e : ℤ) :
    Int.log b (x * (b : ℚ) ^ e) = Int.log b x + e := by
  have hpos : (0 : ℚ) < b := by positivity
  refine log_eq_of_between hb ?_ ?_
  · rw [zpow_add₀ hpos.ne']
    exact mul_le_mul_of_nonneg_right (Int.zpow_log_le_self hb hx) (zpow_nonneg hpos.le e)
  · rw [add_right_comm, zpow_add₀ hpos.ne']
    exact mul_lt_mul_of_pos_right (Int.lt_zpow_succ_log_self hb x) (zpow_pos hpos e)

/-- The quotient of two numbers lies within a factor of two of the quotient of
their leading powers. -/
theorem log2_eq_log (hr : 0 < r.den) (hnum : r.num ≠ 0) : r.log2 = Int.log 2 r.toRat := by
  have hden : (0 : ℚ) < r.den := by exact_mod_cast hr
  have hnum_low : (2 : ℚ) ^ (r.num.log2 : ℤ) ≤ r.num := by
    exact_mod_cast Nat.log2_self_le hnum
  have hnum_high : (r.num : ℚ) < (2 : ℚ) ^ ((r.num.log2 : ℤ) + 1) := by
    exact_mod_cast Nat.lt_log2_self
  have hden_low : (2 : ℚ) ^ (r.den.log2 : ℤ) ≤ r.den := by
    exact_mod_cast Nat.log2_self_le hr.ne'
  have hden_high : (r.den : ℚ) < (2 : ℚ) ^ ((r.den.log2 : ℤ) + 1) := by
    exact_mod_cast Nat.lt_log2_self
  set a : ℤ := (r.num.log2 : ℤ)
  set b : ℤ := (r.den.log2 : ℤ)
  have hlow : (2 : ℚ) ^ (a - b - 1) ≤ r.toRat := by
    rw [toRat, le_div_iff₀ hden]
    calc (2 : ℚ) ^ (a - b - 1) * r.den ≤ (2 : ℚ) ^ (a - b - 1) * (2 : ℚ) ^ (b + 1) :=
          mul_le_mul_of_nonneg_left hden_high.le (zpow_nonneg zero_le_two _)
      _ = (2 : ℚ) ^ a := by rw [← zpow_add₀ two_ne_zero]; congr 1; omega
      _ ≤ r.num := hnum_low
  have hhigh : r.toRat < (2 : ℚ) ^ (a - b + 1) := by
    rw [toRat, div_lt_iff₀ hden]
    calc (r.num : ℚ) < (2 : ℚ) ^ (a + 1) := hnum_high
      _ = (2 : ℚ) ^ (a - b + 1) * (2 : ℚ) ^ b := by
          rw [← zpow_add₀ two_ne_zero]; congr 1; omega
      _ ≤ (2 : ℚ) ^ (a - b + 1) * r.den :=
          mul_le_mul_of_nonneg_left hden_low (zpow_nonneg zero_le_two _)
  -- this leaves two candidates, and `log2` tries the greater one
  have hestimate : (scaled 1 2 (a - b)).le r = true ↔ (2 : ℚ) ^ (a - b) ≤ r.toRat := by
    rw [le_iff_toRat_le (den_scaled_pos Nat.two_pos _ _) hr, toRat_scaled]
    norm_num
  have hlog : r.log2 = if (scaled 1 2 (a - b)).le r then a - b else a - b - 1 := rfl
  rw [hlog]
  split
  · rename_i h
    exact (log_eq_of_between one_lt_two (by exact_mod_cast hestimate.mp h) hhigh).symm
  · rename_i h
    have hbelow : r.toRat < (2 : ℚ) ^ (a - b) := not_le.mp fun hle => h (hestimate.mpr hle)
    refine (log_eq_of_between one_lt_two (by exact_mod_cast hlow) ?_).symm
    rw [sub_add_cancel]
    exact_mod_cast hbelow

end Ratio
end Reql
