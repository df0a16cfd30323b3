import Reql.Datum.Display
import Reql.Proofs.Json.Text
import Reql.Proofs.Text.Quoted

/-!
Scalars as they are shown to a reader.

Every scalar but a string is shown as a word that the reader of JSON would
accept as well, and as the same value. So a scalar is told from its text, in
front of anything that does not go on with a number. A string is told from its
quotation.
-/

namespace Reql.Datum

open Json

/-! ### Words -/

/-- `isWordChar c`: no capital, and no mark that has a meaning in an
explanation. -/
def isWordChar (c : Char) : Bool := !c.isUpper && c != '"' && c != '=' && c != '\n'

structure IsWord (word : List Char) : Prop where
  ne_nil : word ≠ []
  all : word.all isWordChar = true

section Words

variable {word : List Char} {c : Char}

theorem isWordChar_iff :
    isWordChar c = true ↔ c.isUpper = false ∧ c ≠ '"' ∧ c ≠ '=' ∧ c ≠ '\n' := by
  simp [isWordChar, and_assoc]

theorem IsWord.notUpper (h : IsWord word) (hc : c ∈ word) : c.isUpper = false :=
  (isWordChar_iff.mp (List.all_eq_true.mp h.all c hc)).1

theorem IsWord.noMark (h : IsWord word) (hc : c ∈ word) : c ≠ '"' ∧ c ≠ '=' ∧ c ≠ '\n' :=
  (isWordChar_iff.mp (List.all_eq_true.mp h.all c hc)).2

end Words

theorem isUpper_of_isDigit {c : Char} (h : c.isDigit = true) : c.isUpper = false := by
  have hdigit : c.val ≤ '9'.val := of_decide_eq_true (Bool.and_eq_true_iff.mp h).2
  have hcapital : ¬ 'A'.val ≤ c.val := fun hle =>
    absurd (UInt32.le_trans hle hdigit) (by decide)
  exact decide_eq_false fun hupper => hcapital hupper.1

theorem isWord_of_spells {text : List Char} {n : Number} (h : Spells text n) : IsWord text := by
  have hsigns : ['-', '+', '.', 'e'].all isWordChar = true := by decide
  have hall : ∀ c ∈ text, isWordChar c = true := by
    intro c hc
    rcases h.mem_cases hc with hc | hc
    · exact isWordChar_iff.mpr ⟨isUpper_of_isDigit hc, ne_of_isDigit hc rfl, ne_of_isDigit hc rfl,
        ne_of_isDigit hc rfl⟩
    · exact List.all_eq_true.mp hsigns c hc
  obtain ⟨c, rest, rfl, -⟩ := h.exists_cons
  exact ⟨by simp, List.all_eq_true.mpr hall⟩

/-- A datum that is sent as a number is shown in digits that spell it. -/
theorem exists_spells {d : Datum} {n : Number} (h : d.toScalar? = some (.number n)) :
    ∃ text, Spells text n ∧ ∀ tail, d.write tail = text ++ tail := by
  cases d with
  | integer k =>
      obtain rfl := Json.number.inj (Option.some.inj h)
      exact ⟨intDigits k.toInt, spells_intDigits _, fun _ => rfl⟩
  | unsigned k =>
      obtain rfl := Json.number.inj (Option.some.inj h)
      have hdigits : intDigits k.toNat = natDigits k.toNat := by simp [intDigits]
      exact ⟨natDigits k.toNat, hdigits ▸ spells_intDigits _, fun _ => rfl⟩
  | number x =>
      obtain ⟨finite, hn⟩ := toScalar?_number_eq_some h
      obtain rfl := Json.number.inj hn
      exact ⟨x.write numberLayout, spells_write rfl finite, fun _ => rfl⟩
  | _ => cases h

/-- `IsBare v`: a scalar that is not shown in quotes. -/
structure IsBare (v : Json) : Prop where
  isScalar : v.isScalar = true
  notString : ∀ s, v ≠ .string s

/-- A scalar that is not shown in quotes is shown as a word, from which the
reader of JSON gets it back. -/
theorem exists_word {v : Json} (h : IsBare v) :
    ∃ word, IsWord word ∧ (∀ tail, (ofJson v).write tail = word ++ tail) ∧
      ∀ tail, EndsNumber tail → readValue 1 (word ++ tail) = .ok (v, tail) := by
  cases v with
  | null =>
      have hword : IsWord ['n', 'u', 'l', 'l'] := ⟨by simp, by decide⟩
      exact ⟨_, hword, fun _ => rfl, fun _ _ => rfl⟩
  | bool b =>
      cases b with
      | true =>
          have hword : IsWord ['t', 'r', 'u', 'e'] := ⟨by simp, by decide⟩
          exact ⟨_, hword, fun _ => rfl, fun _ _ => rfl⟩
      | false =>
          have hword : IsWord ['f', 'a', 'l', 's', 'e'] := ⟨by simp, by decide⟩
          exact ⟨_, hword, fun _ => rfl, fun _ _ => rfl⟩
  | number n =>
      obtain ⟨text, hspells, hwrite⟩ := exists_spells (toScalar?_ofNumber n)
      refine ⟨text, isWord_of_spells hspells, hwrite, fun tail htail => ?_⟩
      have hread := hspells.readNumber_append htail
      obtain ⟨c, rest, rfl, hc⟩ := hspells.exists_cons
      rw [List.cons_append, readValue_of_number hc, ← List.cons_append, hread]
  | string s => exact absurd rfl (h.notString s)
  | array items => cases h.isScalar
  | object fields => cases h.isScalar

/-! ### Scalars -/

section Scalars

variable {v w : Json} {tail tail' : List Char}

theorem isBare_or_string (h : v.isScalar = true) : IsBare v ∨ ∃ s, v = .string s := by
  cases v with
  | string s => exact .inr ⟨s, rfl⟩
  | _ => exact .inl ⟨h, by simp⟩

theorem write_ne_quote (hv : IsBare v) (s : String) :
    (ofJson v).write tail ≠ (ofJson (.string s)).write tail' := by
  obtain ⟨word, hword, hwrite, -⟩ := exists_word hv
  obtain ⟨c, rest, rfl⟩ := List.exists_cons_of_ne_nil hword.ne_nil
  rw [hwrite]
  intro h
  exact (hword.noMark (List.mem_cons_self ..)).1 (List.cons.inj h).1

/-- A scalar is told from its text, if that does not go on with a number. -/
theorem write_ofJson_inj (hv : v.isScalar = true) (hw : w.isScalar = true)
    (htail : EndsNumber tail) (htail' : EndsNumber tail')
    (h : (ofJson v).write tail = (ofJson w).write tail') : v = w ∧ tail = tail' := by
  rcases isBare_or_string hv with hv | ⟨s, rfl⟩ <;> rcases isBare_or_string hw with hw | ⟨s', rfl⟩
  · obtain ⟨word, -, hwrite, hread⟩ := exists_word hv
    obtain ⟨word', -, hwrite', hread'⟩ := exists_word hw
    rw [hwrite, hwrite'] at h
    have hvalue := (hread tail htail).symm.trans ((congrArg (readValue 1) h).trans
      (hread' tail' htail'))
    exact Prod.mk.inj (Except.ok.inj hvalue)
  · exact absurd h (write_ne_quote hv s')
  · exact absurd h.symm (write_ne_quote hw s)
  · obtain ⟨rfl, rfl⟩ := Text.quote_inj h
    exact ⟨rfl, rfl⟩

end Scalars

end Reql.Datum
