import Mathlib.Data.List.TakeWhile
import Reql.Json.Reader
import Reql.Json.Writer
import Reql.Proofs.Fields
import Reql.Proofs.Number.Rounding

/-!
Numbers in JSON text.

`Literal` is what a written number consists of: the digits before and after
the point, and the exponent. Reading the text of a literal in front of
anything that does not go on with a number gives back its parts, and every
number is written as the text of a literal that denotes it.
-/

namespace Reql

/-! ### Digits -/

theorem readDigits_eq_ofDigitChars (start : ℕ) (digits : List Char) :
    readDigits start digits = Nat.ofDigitChars 10 digits start := by
  have hstep : (fun n c => n * 10 + digitValue c) =
      fun n (c : Char) => 10 * n + (c.toNat - '0'.toNat) := by
    funext n c
    rw [digitValue, Nat.mul_comm]
  rw [readDigits, hstep, Nat.ofDigitChars_eq_foldl]

theorem readDigits_append (start : ℕ) (digits more : List Char) :
    readDigits start (digits ++ more) = readDigits (readDigits start digits) more :=
  List.foldl_append

theorem readDigits_zeros (start k : ℕ) :
    readDigits start (List.replicate k '0') = 10 ^ k * start := by
  rw [readDigits_eq_ofDigitChars, Nat.ofDigitChars_replicate_zero]

theorem readDigits_natDigits (n : ℕ) : readDigits 0 (natDigits n) = n := by
  rw [readDigits_eq_ofDigitChars]
  exact Nat.ofDigitChars_toDigits (by norm_num) (by norm_num)

theorem natDigits_ne_nil (n : ℕ) : natDigits n ≠ [] := Nat.toDigits_ne_nil

theorem isDigit_of_mem_natDigits {n : ℕ} {c : Char} (h : c ∈ natDigits n) : c.isDigit = true :=
  Nat.isDigit_of_mem_toDigits (by norm_num) (by norm_num) h

theorem mem_intDigits {n : ℤ} {c : Char} (h : c ∈ intDigits n) : c.isDigit = true ∨ c = '-' := by
  unfold intDigits at h
  split at h
  · exact (List.mem_cons.mp h).symm.imp_left isDigit_of_mem_natDigits
  · exact .inl (isDigit_of_mem_natDigits h)

theorem head?_natDigits {n : ℕ} (h : n ≠ 0) : (natDigits n).head? ≠ some '0' := by
  induction n using Nat.strongRecOn with
  | ind n ih =>
      rw [natDigits, Nat.toDigits_eq_if (by norm_num)]
      split
      · simpa [Nat.digitChar_eq_zero] using h
      · have hdiv : n / 10 ≠ 0 := by omega
        rw [List.head?_append_of_ne_nil _ Nat.toDigits_ne_nil]
        exact ih (n / 10) (by omega) hdiv

theorem spanDigits_append {digits rest : List Char} (hdigits : ∀ c ∈ digits, c.isDigit = true)
    (hrest : ∀ c ∈ rest.head?, c.isDigit = false) :
    spanDigits (digits ++ rest) = (digits, rest) := by
  have hstop : rest.takeWhile Char.isDigit = [] ∧ rest.dropWhile Char.isDigit = rest := by
    cases rest with
    | nil => exact ⟨rfl, rfl⟩
    | cons c rest => simp [hrest c rfl]
  rw [spanDigits, List.span_eq_takeWhile_dropWhile, List.takeWhile_append_of_pos hdigits,
    List.dropWhile_append_of_pos hdigits, hstop.1, hstop.2, List.append_nil]

/-- `IsWhole digits`: digits that may stand before a point. -/
structure IsWhole (digits : List Char) : Prop where
  ne_nil : digits ≠ []
  isDigit : ∀ c ∈ digits, c.isDigit = true
  noLeadingZero : digits.head? = some '0' → digits.length = 1

theorem isWhole_natDigits (n : ℕ) : IsWhole (natDigits n) where
  ne_nil := natDigits_ne_nil n
  isDigit _ hc := isDigit_of_mem_natDigits hc
  noLeadingZero h := by
    by_cases hn : n = 0
    · rw [hn]
      rfl
    · exact absurd h (head?_natDigits hn)

namespace Json

theorem readDigitRun_append {digits rest : List Char} (hne : digits ≠ [])
    (hdigits : ∀ c ∈ digits, c.isDigit = true) (hrest : ∀ c ∈ rest.head?, c.isDigit = false) :
    readDigitRun (digits ++ rest) = .ok (digits, rest) := by
  rw [readDigitRun, spanDigits_append hdigits hrest]
  simp [hne]

/-! ### Literals -/

/-- `EndsNumber rest`: a text that does not go on with a number. -/
def EndsNumber (rest : List Char) : Prop :=
  ∀ c ∈ rest.head?, c.isDigit = false ∧ c ≠ '.' ∧ c ≠ 'e' ∧ c ≠ 'E'

/-- The parts of a number without its sign, and how its exponent is set. -/
structure Literal where
  whole : List Char
  fraction : List Char := []
  exponent : Option ℤ := none
  plusSign : Bool := true

namespace Literal

structure Proper (l : Literal) : Prop where
  whole : IsWhole l.whole
  fraction : ∀ c ∈ l.fraction, c.isDigit = true

def fractionText (l : Literal) : List Char :=
  if l.fraction = [] then [] else '.' :: l.fraction

def exponentText (l : Literal) : List Char :=
  match l.exponent with
  | none => []
  | some e => 'e' :: ((if l.plusSign ∧ 0 ≤ e then ['+'] else []) ++ intDigits e)

def text (l : Literal) : List Char := l.whole ++ (l.fractionText ++ l.exponentText)

def decimal (l : Literal) : Decimal :=
  ⟨readDigits (readDigits 0 l.whole) l.fraction, l.exponent.getD 0 - l.fraction.length⟩

variable {l : Literal} {tail : List Char}

theorem head?_exponentText (l : Literal) (htail : EndsNumber tail) :
    ∀ c ∈ (l.exponentText ++ tail).head?, c.isDigit = false ∧ c ≠ '.' := by
  intro c hc
  unfold exponentText at hc
  split at hc
  · exact ⟨(htail c hc).1, (htail c hc).2.1⟩
  · obtain rfl := Option.some.inj hc
    decide

theorem head?_fractionText (l : Literal) (htail : EndsNumber tail) :
    ∀ c ∈ (l.fractionText ++ (l.exponentText ++ tail)).head?, c.isDigit = false := by
  intro c hc
  unfold fractionText at hc
  split at hc
  · exact (l.head?_exponentText htail c hc).1
  · obtain rfl := Option.some.inj hc
    decide

theorem readFraction_text (hl : l.Proper) (htail : EndsNumber tail) :
    readFraction (l.fractionText ++ (l.exponentText ++ tail)) =
      .ok (l.fraction, l.exponentText ++ tail) := by
  have hend := l.head?_exponentText htail
  by_cases h : l.fraction = []
  · rw [fractionText, if_pos h, h, List.nil_append]
    unfold readFraction
    split
    · rename_i heq
      exact absurd rfl (hend '.' (by rw [heq]; rfl)).2
    · rfl
  · rw [fractionText, if_neg h, List.cons_append, readFraction]
    exact readDigitRun_append h hl.fraction fun c hc => (hend c hc).1

theorem mem_text (hl : l.Proper) {c : Char} (hc : c ∈ l.text) :
    c.isDigit = true ∨ c ∈ ['-', '+', '.', 'e'] := by
  simp only [text, List.mem_append] at hc
  rcases hc with hc | hc | hc
  · exact .inl (hl.whole.isDigit c hc)
  · unfold fractionText at hc
    split at hc
    · cases hc
    · rcases List.mem_cons.mp hc with rfl | hc
      · exact .inr (by simp)
      · exact .inl (hl.fraction c hc)
  · unfold exponentText at hc
    split at hc
    · cases hc
    · rename_i e _
      rcases List.mem_cons.mp hc with rfl | hc
      · exact .inr (by simp)
      · rcases List.mem_append.mp hc with hc | hc
        · split at hc
          · exact .inr (by simp [List.mem_singleton.mp hc])
          · cases hc
        · exact (mem_intDigits hc).imp_right fun h => by simp [h]

theorem splitSign_natDigits (n : ℕ) (rest : List Char) :
    splitSign (natDigits n ++ rest) = (false, natDigits n ++ rest) := by
  obtain ⟨c, digits, hdigits⟩ := List.exists_cons_of_ne_nil (natDigits_ne_nil n)
  have hc : c.isDigit = true := isDigit_of_mem_natDigits (n := n) (by simp [hdigits])
  rw [hdigits, List.cons_append]
  unfold splitSign
  split
  · rename_i heq
    cases heq
    cases hc
  · rename_i heq
    cases heq
    cases hc
  · rfl

theorem splitSign_intDigits (plus : Bool) (e : ℤ) (rest : List Char) :
    splitSign ((if plus ∧ 0 ≤ e then ['+'] else []) ++ intDigits e ++ rest) =
      (decide (e < 0), natDigits e.natAbs ++ rest) := by
  unfold intDigits
  by_cases h : e < 0
  · simp [h, not_le.mpr h, splitSign]
  · cases plus with
    | true => simp [h, not_lt.mp h, splitSign]
    | false => simp [h, splitSign_natDigits]

theorem readExponent_text (l : Literal) (htail : EndsNumber tail) :
    readExponent (l.exponentText ++ tail) = .ok (l.exponent, tail) := by
  unfold exponentText
  split
  · rename_i h
    rw [h, List.nil_append]
    cases tail with
    | nil => rfl
    | cons c rest =>
        obtain ⟨-, -, he, hE⟩ := htail c rfl
        simp [readExponent, he, hE]
  · rename_i e h
    have hdigits : readDigitRun (natDigits e.natAbs ++ tail) = .ok (natDigits e.natAbs, tail) :=
      readDigitRun_append (natDigits_ne_nil _) (fun c hc => isDigit_of_mem_natDigits hc)
        fun c hc => (htail c hc).1
    have hvalue : (if e < 0 then -((e.natAbs : ℕ) : ℤ) else ((e.natAbs : ℕ) : ℤ)) = e := by
      split <;> omega
    rw [h, List.cons_append, readExponent, if_pos (.inl rfl), splitSign_intDigits]
    simp only [hdigits, bind, Except.bind, readDigits_natDigits, decide_eq_true_eq, hvalue]

theorem readNumber_sign {cs : List Char} (h : cs.head? ≠ some '-') (negative : Bool) :
    readNumber ((if negative then ['-'] else []) ++ cs) = (do
      let (whole, rest) ← readDigitRun cs
      if whole.head? = some '0' ∧ 1 < whole.length then .error .malformed
      let (fraction, rest) ← readFraction rest
      let (exponent, rest) ← readExponent rest
      let result ← Number.ofLiteral negative whole fraction exponent
      .ok (.number result, rest)) := by
  cases negative with
  | true => rfl
  | false =>
      rw [if_neg Bool.false_ne_true, List.nil_append]
      unfold readNumber
      split
      · rename_i negative rest heq
        split at heq
        · exact absurd rfl h
        · cases heq
          rfl

/-- Reading the text of a literal gives the number of its parts. -/
theorem readNumber_text (hl : l.Proper) (htail : EndsNumber tail) (negative : Bool) :
    readNumber ((if negative then ['-'] else []) ++ (l.text ++ tail)) = (do
      let n ← Number.ofLiteral negative l.whole l.fraction l.exponent
      .ok (.number n, tail)) := by
  have hsign : (l.text ++ tail).head? ≠ some '-' := by
    obtain ⟨c, rest, hwhole⟩ := List.exists_cons_of_ne_nil hl.whole.ne_nil
    have hc : c.isDigit = true := hl.whole.isDigit c (by simp [hwhole])
    rw [text, hwhole]
    rintro ⟨⟩
    cases hc
  have hwhole : readDigitRun (l.text ++ tail) =
      .ok (l.whole, l.fractionText ++ (l.exponentText ++ tail)) := by
    rw [text, List.append_assoc, List.append_assoc]
    exact readDigitRun_append hl.whole.ne_nil hl.whole.isDigit (l.head?_fractionText htail)
  have hzero : ¬ (l.whole.head? = some '0' ∧ 1 < l.whole.length) := fun h => by
    have hlength := hl.whole.noLeadingZero h.1
    omega
  rw [readNumber_sign hsign, hwhole]
  simp only [readFraction_text hl htail, l.readExponent_text htail, if_neg hzero, bind,
    Except.bind]

end Literal

/-! ### Layouts -/

/-- `DenotesFloat text x`: the text of a literal that has the value `x` and is
not an integer. -/
def DenotesFloat (text : List Char) (x : ℚ) : Prop :=
  ∃ l : Literal, l.Proper ∧ (l.fraction ≠ [] ∨ l.exponent ≠ none) ∧ l.text = text ∧
    l.decimal.toRat = x

section Layouts

variable {layout : Layout} {digits : List Char} {order : ℤ}

theorem isDigit_of_mem_zeros (k : ℕ) : ∀ c ∈ List.replicate k '0', c.isDigit = true := by
  intro c hc
  rw [(List.mem_replicate.mp hc).2]
  rfl

theorem denotesFloat_fraction (hdigits : IsWhole digits) (k : ℕ) :
    DenotesFloat ('0' :: '.' :: (List.replicate k '0' ++ digits))
      (readDigits 0 digits * (10 : ℚ) ^ (-((k + digits.length : ℕ) : ℤ))) := by
  have hwhole : IsWhole ['0'] := ⟨by simp, by simp, fun _ => rfl⟩
  have hne : List.replicate k '0' ++ digits ≠ [] := by simp [hdigits.ne_nil]
  have hfraction : ∀ c ∈ List.replicate k '0' ++ digits, c.isDigit = true :=
    List.forall_mem_append.mpr ⟨isDigit_of_mem_zeros k, hdigits.isDigit⟩
  refine ⟨{ whole := ['0'], fraction := _ }, ⟨hwhole, hfraction⟩, .inl hne, ?_, ?_⟩
  · simp [Literal.text, Literal.fractionText, Literal.exponentText, hdigits.ne_nil]
  · have hvalue : readDigits (readDigits 0 ['0']) (List.replicate k '0' ++ digits) =
        readDigits 0 digits := by
      rw [readDigits_append, readDigits_zeros]
      rfl
    simp only [Literal.decimal, Decimal.toRat, hvalue, Option.getD_none, List.length_append,
      List.length_replicate, zero_sub]

/-- Digits before the point. A leading zero stands alone. -/
theorem denotesFloat_whole (hdigits : IsWhole digits) {k : ℕ}
    (hzero : digits.head? = some '0' → k = 0) :
    DenotesFloat (digits ++ List.replicate k '0' ++ ['.', '0'])
      (readDigits 0 digits * (10 : ℚ) ^ (k : ℤ)) := by
  have hwhole : IsWhole (digits ++ List.replicate k '0') := by
    refine ⟨by simp [hdigits.ne_nil], ?_, fun h0 => ?_⟩
    · exact List.forall_mem_append.mpr ⟨hdigits.isDigit, isDigit_of_mem_zeros k⟩
    · rw [List.head?_append_of_ne_nil _ hdigits.ne_nil] at h0
      rw [List.length_append, List.length_replicate, hdigits.noLeadingZero h0, hzero h0]
  refine ⟨{ whole := _, fraction := ['0'] }, ⟨hwhole, by simp⟩, .inl (by simp), ?_, ?_⟩
  · simp [Literal.text, Literal.fractionText, Literal.exponentText]
  · have hvalue : readDigits (readDigits 0 (digits ++ List.replicate k '0')) ['0'] =
        10 ^ (1 + k) * readDigits 0 digits := by
      rw [readDigits_append, readDigits_zeros, ← List.replicate_one, readDigits_zeros,
        ← Nat.mul_assoc, ← pow_add]
    have hone : (0 : ℤ) - ((['0'] : List Char).length : ℤ) = -1 := rfl
    simp only [Literal.decimal, Decimal.toRat, hvalue, Option.getD_none, hone, zpow_natCast,
      zpow_neg_one]
    push_cast
    ring

theorem denotesFloat_point (hdigits : IsWhole digits) {k : ℕ} (hpos : 0 < k)
    (hlt : k < digits.length) :
    DenotesFloat (digits.take k ++ '.' :: digits.drop k)
      (readDigits 0 digits * (10 : ℚ) ^ ((k : ℤ) - digits.length)) := by
  have hwhole : IsWhole (digits.take k) := by
    refine ⟨?_, fun c hc => hdigits.isDigit c (List.mem_of_mem_take hc), fun h0 => ?_⟩
    · simp [hdigits.ne_nil, hpos.ne']
    · rw [List.head?_take, if_neg hpos.ne'] at h0
      have hone := hdigits.noLeadingZero h0
      omega
  have hne : digits.drop k ≠ [] := by simpa using hlt
  refine ⟨{ whole := _, fraction := digits.drop k },
    ⟨hwhole, fun c hc => hdigits.isDigit c (List.mem_of_mem_drop hc)⟩, .inl hne, ?_, ?_⟩
  · simp [Literal.text, Literal.fractionText, Literal.exponentText, hlt]
  · have hvalue : readDigits (readDigits 0 (digits.take k)) (digits.drop k) =
        readDigits 0 digits := by
      rw [← readDigits_append, List.take_append_drop]
    have hexp : (0 : ℤ) - (digits.drop k).length = (k : ℤ) - digits.length := by
      rw [List.length_drop]
      omega
    simp only [Literal.decimal, Decimal.toRat, hvalue, Option.getD_none, hexp]

theorem denotesFloat_positional (hpoint : layout.keepPoint = true) (hdigits : IsWhole digits)
    (hzero : digits.head? = some '0' → order ≤ 0) :
    DenotesFloat (layout.positional digits order)
      (readDigits 0 digits * (10 : ℚ) ^ (order + 1 - (digits.length : ℤ))) := by
  rw [Layout.positional]
  by_cases horder : order < 0
  · have hexp : order + 1 - (digits.length : ℤ) =
        -(((-order - 1).toNat + digits.length : ℕ) : ℤ) := by omega
    rw [if_pos horder, hexp]
    exact denotesFloat_fraction hdigits _
  · rw [if_neg horder]
    by_cases hlength : digits.length ≤ order.toNat + 1
    · have hexp : order + 1 - (digits.length : ℤ) =
          ((order.toNat + 1 - digits.length : ℕ) : ℤ) := by omega
      rw [hexp]
      simp only [if_pos hlength, if_pos hpoint]
      refine denotesFloat_whole hdigits fun h0 => ?_
      have hone := hdigits.noLeadingZero h0
      have hle := hzero h0
      omega
    · have hexp : order + 1 - (digits.length : ℤ) =
          ((order.toNat + 1 : ℕ) : ℤ) - digits.length := by omega
      rw [hexp]
      simp only [if_neg hlength]
      exact denotesFloat_point hdigits (by omega) (by omega)

theorem denotesFloat_scientific (layout : Layout) (hdigits : IsWhole digits) :
    DenotesFloat (layout.scientific digits order)
      (readDigits 0 digits * (10 : ℚ) ^ (order + 1 - (digits.length : ℤ))) := by
  obtain ⟨d, rest, rfl⟩ := List.exists_cons_of_ne_nil hdigits.ne_nil
  obtain ⟨hd, hrest⟩ := List.forall_mem_cons.mp hdigits.isDigit
  have hwhole : IsWhole [d] := ⟨by simp, List.forall_mem_singleton.mpr hd, fun _ => rfl⟩
  refine ⟨⟨[d], rest, some order, layout.plusSign⟩, ⟨hwhole, hrest⟩, .inr (by simp), ?_, ?_⟩
  · cases rest with
    | nil => simp [Literal.text, Literal.fractionText, Literal.exponentText, Layout.scientific]
    | cons e rest => simp [Literal.text, Literal.fractionText, Literal.exponentText,
        Layout.scientific]
  · have hvalue : readDigits (readDigits 0 [d]) rest = readDigits 0 (d :: rest) :=
      (readDigits_append 0 [d] rest).symm
    have hexp : order - (rest.length : ℤ) = order + 1 - ((d :: rest).length : ℤ) := by
      rw [List.length_cons]
      omega
    simp only [Literal.decimal, Decimal.toRat, hvalue, Option.getD_some, hexp]

end Layouts

/-- In a layout that keeps the point, every number that is not an integer is
written with a point or an exponent. -/
theorem denotesFloat_write {layout : Layout} (hpoint : layout.keepPoint = true) (d : Decimal) :
    DenotesFloat (layout.write d) d.toRat := by
  by_cases h : d.coefficient = 0
  · have hdigits : IsWhole ['0'] := ⟨by simp, by simp, fun _ => rfl⟩
    have hvalue : d.toRat = readDigits 0 ['0'] * (10 : ℚ) ^ (0 + 1 - (['0'].length : ℤ)) := by
      rw [Decimal.toRat_eq_zero_iff.mpr h]
      simp [readDigits, digitValue]
    rw [Layout.write, if_pos h, hvalue]
    exact denotesFloat_positional hpoint hdigits fun _ => le_rfl
  · have hvalue : d.toRat = readDigits 0 (natDigits d.coefficient) *
        (10 : ℚ) ^ (d.exponent + (natDigits d.coefficient).length - 1 + 1 -
          ((natDigits d.coefficient).length : ℤ)) := by
      rw [readDigits_natDigits, Decimal.toRat]
      congr 2
      omega
    rw [Layout.write, if_neg h, hvalue]
    split
    · exact denotesFloat_positional hpoint (isWhole_natDigits _) fun h0 =>
        absurd h0 (head?_natDigits h)
    · exact denotesFloat_scientific layout (isWhole_natDigits _)

/-! ### Numbers -/

theorem ofLiteral_integer {n : ℤ} (inRange : InWordRange n) :
    Number.ofLiteral (decide (n < 0)) (natDigits n.natAbs) [] none = .ok (.integer n inRange) := by
  have hvalue : (if decide (n < 0) then -((n.natAbs : ℕ) : ℤ) else ((n.natAbs : ℕ) : ℤ)) = n := by
    by_cases hn : n < 0
    · rw [decide_eq_true hn, if_pos rfl]
      omega
    · rw [decide_eq_false hn, if_neg Bool.false_ne_true]
      omega
  have hzero : (decide (n < 0) && n.natAbs == 0) = false := by
    simp only [Bool.and_eq_false_iff, decide_eq_false_iff_not, beq_eq_false_iff_ne]
    omega
  have hint : Number.ofInt? n = some (.integer n inRange) := dif_pos inRange
  simp only [Number.ofLiteral, readDigits_natDigits, hzero, hvalue, hint, List.isEmpty_nil,
    Option.isNone_none, Bool.and_self, Bool.false_eq_true, if_true, if_false]

theorem ofLiteral_float {l : Literal} (h : l.fraction ≠ [] ∨ l.exponent ≠ none) {x : Double}
    {negative : Bool} (hvalue : Double.ofDecimal negative l.decimal = x)
    (finite : x.isFinite = true) :
    Number.ofLiteral negative l.whole l.fraction l.exponent = .ok (.float x finite) := by
  have hfloat : (l.fraction.isEmpty && l.exponent.isNone) = false := by
    rcases h with h | h
    · simp [h]
    · rw [Option.isNone_eq_false_iff.mpr (Option.isSome_iff_ne_none.mpr h), Bool.and_false]
  have hnumber : Number.ofDouble? (.ofDecimal negative
      ⟨readDigits (readDigits 0 l.whole) l.fraction, l.exponent.getD 0 - l.fraction.length⟩) =
        some (.float x finite) := by
    change Number.ofDouble? (.ofDecimal negative l.decimal) = _
    rw [hvalue, Number.ofDouble?, dif_pos finite]
  simp only [Number.ofLiteral, hfloat, hnumber, Bool.false_eq_true, if_false]

end Json

namespace Double

theorem ofCode_code (x : Double) : ofCode x.negative x.code = x := by
  have hbits := x.bits.toNat_lt
  have hsum : (if x.negative = true then signWeight else 0) + x.code = x.bits.toNat := by
    by_cases h : signWeight ≤ x.bits.toNat
    · rw [negative, decide_eq_true h, if_pos rfl, code]
      unfold signWeight at *
      omega
    · rw [negative, decide_eq_false h, if_neg Bool.false_ne_true, code]
      unfold signWeight at *
      omega
  rw [ofCode, hsum, UInt64.ofNat_toNat]

/-- The decimal that is written for a number reads as that number. -/
theorem ofDecimal_shortest {x : Double} (finite : x.isFinite = true) (tie : Tie) :
    ofDecimal x.negative (Format.double.shortest tie x.code) = x := by
  have hcode : x.code < Format.double.infinity := of_decide_eq_true finite
  rw [ofDecimal, Format.ofDecimal_shortest Format.proper_double tie hcode, ofCode_code]

theorem isNaN_of_isFinite {x : Double} (finite : x.isFinite = true) : x.isNaN = false := by
  have hcode : x.code < Format.double.infinity := of_decide_eq_true finite
  exact decide_eq_false (by omega)

end Double

namespace Json

/-- `Spells text n`: the text of a literal of `n`, after a minus sign if `n` is
negative. -/
def Spells (text : List Char) (n : Number) : Prop :=
  ∃ (negative : Bool) (l : Literal), l.Proper ∧
    text = (if negative then ['-'] else []) ++ l.text ∧
    Number.ofLiteral negative l.whole l.fraction l.exponent = .ok n

theorem spells_intDigits {n : ℤ} (inRange : InWordRange n) :
    Spells (intDigits n) (.integer n inRange) := by
  refine ⟨decide (n < 0), { whole := natDigits n.natAbs },
    ⟨isWhole_natDigits _, List.forall_mem_nil _⟩, ?_, ofLiteral_integer inRange⟩
  simp only [intDigits, Literal.text, Literal.fractionText, Literal.exponentText,
    decide_eq_true_eq, if_true, List.append_nil]
  split <;> rfl

theorem spells_write {layout : Layout} (hpoint : layout.keepPoint = true) {x : Double}
    (finite : x.isFinite = true) : Spells (x.write layout) (.float x finite) := by
  obtain ⟨l, hproper, hfloat, htext, hvalue⟩ :=
    denotesFloat_write hpoint (Format.double.shortest layout.tie x.code)
  have hdouble : Double.ofDecimal x.negative l.decimal = x := by
    rw [Double.ofDecimal, Format.ofDecimal_congr hvalue]
    exact Double.ofDecimal_shortest finite _
  refine ⟨x.negative, l, hproper, ?_, ofLiteral_float hfloat hdouble finite⟩
  simp only [Double.write, Double.isNaN_of_isFinite finite, finite, htext, Bool.false_eq_true,
    if_false, if_true]
  split <;> rfl

theorem spells_digits (n : Number) : Spells n.digits n := by
  cases n with
  | integer n inRange => exact spells_intDigits inRange
  | float x finite => exact spells_write rfl finite

namespace Spells

variable {text : List Char} {n : Number}

theorem readNumber_append (h : Spells text n) {tail : List Char} (htail : EndsNumber tail) :
    readNumber (text ++ tail) = .ok (.number n, tail) := by
  obtain ⟨negative, l, hproper, rfl, hvalue⟩ := h
  rw [List.append_assoc, Literal.readNumber_text hproper htail, hvalue]
  rfl

theorem exists_cons (h : Spells text n) :
    ∃ c rest, text = c :: rest ∧ (c = '-' ∨ c.isDigit = true) := by
  obtain ⟨negative, l, hproper, rfl, -⟩ := h
  cases negative with
  | true => exact ⟨'-', l.text, rfl, .inl rfl⟩
  | false =>
      obtain ⟨c, rest, hwhole⟩ := List.exists_cons_of_ne_nil hproper.whole.ne_nil
      refine ⟨c, rest ++ (l.fractionText ++ l.exponentText), ?_, .inr ?_⟩
      · rw [Literal.text, hwhole]
        rfl
      · exact hproper.whole.isDigit c (by simp [hwhole])

theorem mem_cases (h : Spells text n) {c : Char} (hc : c ∈ text) :
    c.isDigit = true ∨ c ∈ ['-', '+', '.', 'e'] := by
  obtain ⟨negative, l, hproper, rfl, -⟩ := h
  rcases List.mem_append.mp hc with hc | hc
  · cases negative <;> simp_all
  · exact l.mem_text hproper hc

end Spells

/-- A number is read from its digits, whatever follows them. -/
theorem readNumber_digits (n : Number) {tail : List Char} (htail : EndsNumber tail) :
    readNumber (n.digits ++ tail) = .ok (.number n, tail) :=
  (spells_digits n).readNumber_append htail

theorem exists_cons_digits (n : Number) :
    ∃ c rest, n.digits = c :: rest ∧ (c = '-' ∨ c.isDigit = true) :=
  (spells_digits n).exists_cons

end Json
end Reql
