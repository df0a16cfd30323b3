import Reql.Number.Double
import Reql.Proofs.Number.Ratio

/-!
What is written reads back.

Rounding a decimal to a format depends on the value of the decimal only
(`Format.ofDecimal_congr`), and a value that the format holds is not changed
by it (`Format.round_of_value`). The search for the shortest decimal offers
nothing that does not read back, and if it finds nothing, the value itself is
written, so the decimal that is chosen reads back in any case.

A proper format has at least one significant bit and two bits of exponent. Its
finite numbers lie below `2 ^ 2 ^ (exponentBits - 1)`, and the decimals that
are recognised as too large or too small by their leading digit are none of
them.
-/

namespace Reql

namespace Format

structure Proper (f : Format) : Prop where
  precision_pos : 0 < f.precision
  exponentBits_gt : 1 < f.exponentBits

theorem proper_double : double.Proper := ⟨by decide, by decide⟩

variable {f : Format}

/-! ### Rounding depends on the value -/

/-- `f.roundOf x` is the code of the number nearest to `x`, as `Format.round`
finds it for a quotient. -/
def roundOf (f : Format) (x : ℚ) : ℕ :=
  if x = 0 then 0 else
    let exponent := max (Int.log 2 x - ((f.precision : ℤ) - 1)) f.leastExponent
    min ((exponent - f.leastExponent).toNat * f.block + Ratio.nearestOf (x / (2 : ℚ) ^ exponent))
      f.infinity

theorem round_eq_roundOf (f : Format) {r : Ratio} (hr : 0 < r.den) :
    f.round r = f.roundOf r.toRat := by
  by_cases hnum : r.num = 0
  · rw [round, roundOf, if_pos hnum, if_pos ((Ratio.toRat_eq_zero_iff hr).mpr hnum)]
  · have hx : r.toRat ≠ 0 := fun h => hnum ((Ratio.toRat_eq_zero_iff hr).mp h)
    have hshift : ∀ e, (r.shiftDown e).nearest = Ratio.nearestOf (r.toRat / (2 : ℚ) ^ e) := by
      intro e
      rw [Ratio.nearest_eq_nearestOf (Ratio.den_shiftDown_pos hr e), Ratio.toRat_shiftDown]
    simp only [round, roundOf, if_neg hnum, if_neg hx, Ratio.log2_eq_log hr hnum, hshift]

/-! ### The values of the codes -/

theorem block_pos (f : Format) : 0 < f.block := Nat.pow_pos Nat.two_pos

theorem cast_block (hf : f.Proper) : (f.block : ℚ) = (2 : ℚ) ^ ((f.precision : ℤ) - 1) := by
  have hp := hf.precision_pos
  have hexp : ((f.precision : ℤ) - 1) = ((f.precision - 1 : ℕ) : ℤ) := by omega
  rw [hexp, zpow_natCast]
  exact Nat.cast_pow 2 (f.precision - 1)

theorem toRat_value (f : Format) (code : ℕ) :
    (f.value code).toRat = f.significand code * (2 : ℚ) ^ f.exponent code := by
  rw [value, Ratio.toRat_scaled, Nat.cast_ofNat]

theorem significand_lt (f : Format) (code : ℕ) : f.significand code < 2 * f.block := by
  have hmod := Nat.mod_lt code f.block_pos
  unfold significand
  split
  · rename_i h
    have hlt := (Nat.div_eq_zero_iff_lt f.block_pos).mp h
    omega
  · omega

theorem significand_pos (f : Format) {code : ℕ} (h : 0 < code) : 0 < f.significand code := by
  have hblock := f.block_pos
  unfold significand
  split
  · exact h
  · omega

theorem toRat_value_pos (f : Format) {code : ℕ} (h : 0 < code) : 0 < (f.value code).toRat := by
  have hsignificand : (0 : ℚ) < f.significand code := by exact_mod_cast f.significand_pos h
  rw [toRat_value]
  exact mul_pos hsignificand (zpow_pos two_pos _)

theorem leastExponent_le_exponent (f : Format) (code : ℕ) : f.leastExponent ≤ f.exponent code := by
  unfold exponent
  omega

/-- The code is put together from the exponent and the significand. -/
theorem code_eq (f : Format) (code : ℕ) :
    (f.exponent code - f.leastExponent).toNat * f.block + f.significand code = code := by
  have hexp : (f.exponent code - f.leastExponent).toNat = code / f.block - 1 := by
    unfold exponent
    omega
  have hsplit := Nat.div_add_mod code f.block
  rw [hexp, significand]
  split
  · rename_i h
    rw [h, Nat.zero_sub, Nat.zero_mul, Nat.zero_add]
  · rename_i h
    obtain ⟨k, hk⟩ := Nat.exists_eq_succ_of_ne_zero h
    rw [hk, Nat.succ_sub_one, ← Nat.add_assoc, Nat.mul_comm, ← Nat.mul_succ, ← hk, hsplit]

/-- The exponent of a number can be seen from its logarithm. -/
theorem exponent_eq (hf : f.Proper) {code : ℕ} (hcode : 0 < code) :
    max (Int.log 2 (f.value code).toRat - ((f.precision : ℤ) - 1)) f.leastExponent =
      f.exponent code := by
  have hblock := cast_block hf
  have hsignificand : (f.significand code : ℚ) < 2 * f.block := by
    exact_mod_cast f.significand_lt code
  have hhigh : (f.value code).toRat < (2 : ℚ) ^ (f.exponent code + (f.precision : ℤ)) := by
    have hpower : (2 : ℚ) ^ (f.exponent code + (f.precision : ℤ)) =
        2 * f.block * (2 : ℚ) ^ f.exponent code := by
      rw [hblock, ← zpow_one_add₀ two_ne_zero, ← zpow_add₀ two_ne_zero]
      congr 1
      omega
    rw [hpower, toRat_value]
    exact mul_lt_mul_of_pos_right hsignificand (zpow_pos two_pos _)
  have hlog_high : Int.log 2 (f.value code).toRat < f.exponent code + (f.precision : ℤ) :=
    (Int.lt_zpow_iff_log_lt one_lt_two (f.toRat_value_pos hcode)).mp (by exact_mod_cast hhigh)
  -- in the lowest block the least exponent is the maximum, elsewhere the logarithm is
  by_cases hlow : code / f.block = 0
  · have hexp : f.exponent code = f.leastExponent := by
      unfold exponent
      omega
    omega
  · have hlarge : (f.block : ℚ) ≤ f.significand code := by
      have hle : f.block ≤ f.significand code := by
        unfold significand
        rw [if_neg hlow]
        omega
      exact_mod_cast hle
    have hbelow : (2 : ℚ) ^ (f.exponent code + ((f.precision : ℤ) - 1)) ≤
        (f.value code).toRat := by
      rw [toRat_value, add_comm, zpow_add₀ two_ne_zero, ← hblock]
      exact mul_le_mul_of_nonneg_right hlarge (zpow_nonneg zero_le_two _)
    have hlog_low : f.exponent code + ((f.precision : ℤ) - 1) ≤ Int.log 2 (f.value code).toRat :=
      (Int.zpow_le_iff_le_log one_lt_two (f.toRat_value_pos hcode)).mp (by exact_mod_cast hbelow)
    have hleast := f.leastExponent_le_exponent code
    omega

/-- A number of the format is the nearest one to itself. -/
theorem roundOf_value (hf : f.Proper) {code : ℕ} (hpos : 0 < code)
    (hfinite : code < f.infinity) : f.roundOf (f.value code).toRat = code := by
  have hpower : (2 : ℚ) ^ f.exponent code ≠ 0 := zpow_ne_zero _ two_ne_zero
  simp only [roundOf, if_neg (f.toRat_value_pos hpos).ne', exponent_eq hf hpos]
  rw [toRat_value, mul_div_cancel_right₀ _ hpower, Ratio.nearestOf_natCast, code_eq]
  exact min_eq_left hfinite.le

/-! ### The range of the values -/

theorem le_toRat_value (f : Format) {code : ℕ} (h : 0 < code) :
    (2 : ℚ) ^ f.leastExponent ≤ (f.value code).toRat := by
  have hone : (1 : ℚ) ≤ f.significand code := by exact_mod_cast f.significand_pos h
  have hexp : (2 : ℚ) ^ f.leastExponent ≤ (2 : ℚ) ^ f.exponent code :=
    zpow_le_zpow_right₀ one_le_two (f.leastExponent_le_exponent code)
  rw [toRat_value]
  calc (2 : ℚ) ^ f.leastExponent ≤ (2 : ℚ) ^ f.exponent code := hexp
    _ = 1 * (2 : ℚ) ^ f.exponent code := (one_mul _).symm
    _ ≤ f.significand code * (2 : ℚ) ^ f.exponent code :=
        mul_le_mul_of_nonneg_right hone (zpow_nonneg zero_le_two _)

theorem two_le_half_range (hf : f.Proper) : 2 ≤ Nat.pow 2 (f.exponentBits - 1) :=
  Nat.le_self_pow (Nat.sub_ne_zero_of_lt hf.exponentBits_gt) 2

theorem toRat_value_lt (hf : f.Proper) {code : ℕ} (hfinite : code < f.infinity) :
    (f.value code).toRat < (2 : ℚ) ^ ((Nat.pow 2 (f.exponentBits - 1) : ℕ) : ℤ) := by
  have hhalf : Nat.pow 2 f.exponentBits = 2 * Nat.pow 2 (f.exponentBits - 1) := by
    have he : f.exponentBits = f.exponentBits - 1 + 1 := by
      have h := hf.exponentBits_gt
      omega
    conv_lhs => rw [he]
    exact Nat.pow_succ'
  have hlarge := two_le_half_range hf
  have hdiv : code / f.block < Nat.pow 2 f.exponentBits - 1 :=
    (Nat.div_lt_iff_lt_mul f.block_pos).mpr hfinite
  have hexp : f.exponent code + (f.precision : ℤ) ≤ (Nat.pow 2 (f.exponentBits - 1) : ℕ) := by
    unfold exponent leastExponent
    omega
  have hsignificand : (f.significand code : ℚ) < 2 * f.block := by
    exact_mod_cast f.significand_lt code
  rw [toRat_value]
  calc (f.significand code : ℚ) * (2 : ℚ) ^ f.exponent code
      < 2 * f.block * (2 : ℚ) ^ f.exponent code :=
        mul_lt_mul_of_pos_right hsignificand (zpow_pos two_pos _)
    _ = (2 : ℚ) ^ (f.exponent code + (f.precision : ℤ)) := by
        rw [cast_block hf, ← zpow_one_add₀ two_ne_zero, ← zpow_add₀ two_ne_zero]
        congr 1
        omega
    _ ≤ (2 : ℚ) ^ ((Nat.pow 2 (f.exponentBits - 1) : ℕ) : ℤ) :=
        zpow_le_zpow_right₀ one_le_two hexp

end Format

/-! ### Decimals -/

namespace Decimal

def toRat (d : Decimal) : ℚ := d.coefficient * (10 : ℚ) ^ d.exponent

theorem den_value_pos (d : Decimal) : 0 < d.value.den :=
  Ratio.den_scaled_pos (by norm_num) _ _

theorem toRat_value (d : Decimal) : d.value.toRat = d.toRat := by
  rw [value, Ratio.toRat_scaled, toRat, Nat.cast_ofNat]

theorem toRat_eq_zero_iff {d : Decimal} : d.toRat = 0 ↔ d.coefficient = 0 := by
  simp [toRat, zpow_ne_zero]

end Decimal

theorem digitCount_eq_log {n : ℕ} (h : n ≠ 0) : digitCount n = Nat.log 10 n + 1 := by
  have hpos : 0 < (Nat.toDigits 10 n).length := Nat.length_toDigits_pos
  refine eq_of_forall_ge_iff fun k => ?_
  rw [digitCount, if_neg h]
  rcases Nat.eq_zero_or_pos k with rfl | hk
  · omega
  · rw [Nat.length_toDigits_le_iff (by norm_num) hk, ← Nat.log_lt_iff_lt_pow (by norm_num) h]
    omega

/-- The exponent of the leading digit depends on the value only. -/
theorem Decimal.order_eq_log {d : Decimal} (h : d.coefficient ≠ 0) :
    d.order = Int.log 10 d.toRat := by
  have hcoefficient : (0 : ℚ) < d.coefficient := by exact_mod_cast Nat.pos_of_ne_zero h
  have hshift : Int.log 10 ((d.coefficient : ℚ) * (10 : ℚ) ^ d.exponent) =
      Int.log 10 (d.coefficient : ℚ) + d.exponent := by
    exact_mod_cast Ratio.log_mul_zpow (b := 10) (by norm_num) hcoefficient d.exponent
  rw [toRat, order, digitCount_eq_log h, hshift, Int.log_natCast]
  push_cast
  omega

theorem Decimal.toRat_trimZeros (d : Decimal) (fuel : ℕ) : (d.trimZeros fuel).toRat = d.toRat := by
  induction fuel generalizing d with
  | zero => rfl
  | succ fuel ih =>
      rw [trimZeros]
      split
      · rename_i h
        have hten : d.coefficient = 10 * (d.coefficient / 10) := by omega
        rw [ih, toRat, toRat, zpow_add_one₀ (by norm_num)]
        conv_rhs => rw [hten]
        push_cast
        ring
      · rfl

@[simp] theorem Decimal.toRat_normalize (d : Decimal) : d.normalize.toRat = d.toRat :=
  d.toRat_trimZeros _

namespace Format

variable {f : Format}

/-- Reading depends on the value only. -/
theorem ofDecimal_congr {d e : Decimal} (h : d.toRat = e.toRat) :
    f.ofDecimal d = f.ofDecimal e := by
  have hzero : d.coefficient = 0 ↔ e.coefficient = 0 := by
    rw [← Decimal.toRat_eq_zero_iff, h, Decimal.toRat_eq_zero_iff]
  have hround : f.round d.value = f.round e.value := by
    rw [round_eq_roundOf f d.den_value_pos, round_eq_roundOf f e.den_value_pos,
      Decimal.toRat_value, Decimal.toRat_value, h]
  by_cases hd : d.coefficient = 0
  · rw [ofDecimal, ofDecimal, if_pos hd, if_pos (hzero.mp hd)]
  · have he : ¬ e.coefficient = 0 := fun he => hd (hzero.mpr he)
    have horder : d.order = e.order := by
      rw [Decimal.order_eq_log hd, Decimal.order_eq_log he, h]
    rw [ofDecimal, ofDecimal, if_neg hd, if_neg he, horder, hround]

theorem zpow_eight_le {k : ℤ} (hk : 0 ≤ k) : (2 : ℚ) ^ (3 * k) ≤ (10 : ℚ) ^ k := by
  rw [zpow_mul]
  exact zpow_le_zpow_left₀ hk (by norm_num) (by norm_num)

theorem zpow_le_eight {k : ℤ} (hk : k ≤ 0) : (10 : ℚ) ^ k ≤ (2 : ℚ) ^ (3 * k) := by
  have h := zpow_eight_le (k := -k) (by omega)
  rw [mul_neg, zpow_neg, zpow_neg] at h
  exact (inv_le_inv₀ (zpow_pos two_pos _) (zpow_pos (by norm_num) _)).mp h

/-- A decimal with the value of a finite number reads as that number. -/
theorem ofDecimal_of_toRat_eq (hf : f.Proper) {code : ℕ} (hpos : 0 < code)
    (hfinite : code < f.infinity) {d : Decimal} (h : d.toRat = (f.value code).toRat) :
    f.ofDecimal d = code := by
  have hvalue : 0 < d.toRat := h ▸ f.toRat_value_pos hpos
  have hd : d.coefficient ≠ 0 := fun h0 => hvalue.ne' (Decimal.toRat_eq_zero_iff.mpr h0)
  have hlow : (10 : ℚ) ^ d.order ≤ d.toRat := by
    rw [Decimal.order_eq_log hd]
    exact_mod_cast Int.zpow_log_le_self (b := 10) (by norm_num) hvalue
  have hhigh : d.toRat < (10 : ℚ) ^ (d.order + 1) := by
    rw [Decimal.order_eq_log hd]
    exact_mod_cast Int.lt_zpow_succ_log_self (b := 10) (by norm_num) d.toRat
  -- neither of the two tests on the leading digit can hold for a finite number
  have hlarge : ¬ ((Nat.pow 2 (f.exponentBits - 1) : ℕ) : ℤ) ≤ 3 * d.order := by
    intro hle
    have hchain : (2 : ℚ) ^ ((Nat.pow 2 (f.exponentBits - 1) : ℕ) : ℤ) ≤ d.toRat :=
      calc (2 : ℚ) ^ ((Nat.pow 2 (f.exponentBits - 1) : ℕ) : ℤ) ≤ (2 : ℚ) ^ (3 * d.order) :=
            zpow_le_zpow_right₀ one_le_two hle
        _ ≤ (10 : ℚ) ^ d.order := zpow_eight_le (by omega)
        _ ≤ d.toRat := hlow
    rw [h] at hchain
    exact absurd (toRat_value_lt hf hfinite) (not_lt.mpr hchain)
  have hsmall : ¬ 3 * (d.order + 1) < f.leastExponent := by
    intro hlt
    have hleast : f.leastExponent ≤ 0 := by
      have hlarge := two_le_half_range hf
      have hp := hf.precision_pos
      unfold leastExponent
      omega
    have hchain : d.toRat < (2 : ℚ) ^ f.leastExponent :=
      calc d.toRat < (10 : ℚ) ^ (d.order + 1) := hhigh
        _ ≤ (2 : ℚ) ^ (3 * (d.order + 1)) := zpow_le_eight (by omega)
        _ < (2 : ℚ) ^ f.leastExponent := zpow_lt_zpow_right₀ one_lt_two hlt
    rw [h] at hchain
    exact absurd (f.le_toRat_value hpos) (not_le.mpr hchain)
  rw [ofDecimal, if_neg hd, if_neg hlarge, if_neg hsmall,
    round_eq_roundOf f d.den_value_pos, Decimal.toRat_value, h, roundOf_value hf hpos hfinite]

/-! ### The shortest decimal -/

theorem ofDecimal_of_onGrid? {tie : Tie} {code : ℕ} {e : ℤ} {d : Decimal}
    (h : f.onGrid? tie code e = some d) : f.ofDecimal d = code := by
  -- whichever of the two is chosen has been read before
  have hchosen : ∀ {c : Decimal}, (f.ofDecimal c == code) = true → some c = some d →
      f.ofDecimal d = code := by
    intro c hread hc
    obtain rfl := Option.some.inj hc
    exact beq_iff_eq.mp hread
  simp only [onGrid?] at h
  split at h
  · rename_i hlow hhigh
    cases tie with
    | up =>
        dsimp only at h
        split_ifs at h
        · exact hchosen hlow h
        · exact hchosen hhigh h
        · exact hchosen hhigh h
    | toEven =>
        dsimp only at h
        split_ifs at h
        · exact hchosen hlow h
        · exact hchosen hhigh h
        · exact hchosen hlow h
        · exact hchosen hhigh h
  · rename_i hlow _
    exact hchosen hlow h
  · rename_i hhigh
    exact hchosen hhigh h
  · cases h

theorem ofDecimal_of_search {tie : Tie} {code fuel : ℕ} {e : ℤ} {d : Decimal}
    (h : f.search tie code e fuel = some d) : f.ofDecimal d = code := by
  induction fuel generalizing e with
  | zero => cases h
  | succ fuel ih =>
      rw [search] at h
      cases hgrid : f.onGrid? tie code e with
      | none =>
          rw [hgrid] at h
          exact ih h
      | some c =>
          rw [hgrid] at h
          obtain rfl := Option.some.inj h
          exact ofDecimal_of_onGrid? hgrid

theorem toRat_exactDecimal (f : Format) (code : ℕ) :
    (f.exactDecimal code).toRat = (f.value code).toRat := by
  rw [toRat_value, exactDecimal]
  cases f.exponent code with
  | ofNat k => simp [Decimal.toRat]
  | negSucc k =>
      have hten : (10 : ℚ) ^ (k + 1) = 5 ^ (k + 1) * 2 ^ (k + 1) := by
        rw [← mul_pow]
        norm_num
      have hpow : ((Nat.pow 5 (k + 1) : ℕ) : ℚ) = 5 ^ (k + 1) := Nat.cast_pow 5 (k + 1)
      simp only [Decimal.toRat, zpow_negSucc, zpow_neg, zpow_natCast, hten]
      rw [Nat.cast_mul, hpow]
      field_simp

/-- The shortest decimal of a finite number reads as that number. -/
theorem ofDecimal_shortest (hf : f.Proper) (tie : Tie) {code : ℕ} (hfinite : code < f.infinity) :
    f.ofDecimal (f.shortest tie code) = code := by
  rcases Nat.eq_zero_or_pos code with rfl | hpos
  · rfl
  · have hexact : f.ofDecimal (f.exactDecimal code) = code :=
      ofDecimal_of_toRat_eq hf hpos hfinite (f.toRat_exactDecimal code)
    rw [shortest, if_neg hpos.ne']
    rw [ofDecimal_congr (Decimal.toRat_normalize _)]
    cases hfound : f.search tie code (f.value code).order f.precision with
    | none => exact hexact
    | some d => exact ofDecimal_of_search hfound

end Format
end Reql
