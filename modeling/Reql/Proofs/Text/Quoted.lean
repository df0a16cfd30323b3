import Mathlib.Tactic.FinCases
import Mathlib.Tactic.NormNum
import Reql.Text.Hexadecimal
import Reql.Text.Quoted

/-!
Reading a quoted text.

A character that needs an escape is shown behind a backslash, and every escape
says where it ends. So the first character of a quoted text can be read off,
and with it the whole text and the end of the quotation. A quotation mark that
belongs to the text stands behind a backslash; the one that ends it stands in
front of whatever follows.
-/

namespace Reql.Text

/-! ### Code points -/

theorem hexValue?_digitChar : ∀ n < 16, hexValue? n.digitChar = some n := by decide

theorem hexOf?_concat (digits : List Char) (c : Char) :
    hexOf? (digits ++ [c]) = (hexOf? digits).bind fun n => (hexValue? c).map (n * 16 + ·) := by
  simp [hexOf?, List.foldlM_append]

theorem hexOf?_hexDigits (n : ℕ) : hexOf? (hexDigits n) = some n := by
  induction n using Nat.strongRecOn with
  | ind n ih =>
      rw [hexDigits, Nat.toDigits_eq_if (by norm_num)]
      split
      · rename_i hn
        simp [hexOf?, hexValue?_digitChar n hn]
      · have hdiv : n / 16 * 16 + n % 16 = n := by omega
        rw [hexOf?_concat, ← hexDigits, ih (n / 16) (by omega),
          hexValue?_digitChar (n % 16) (by omega), Option.bind_some, Option.map_some, hdiv]

theorem hexDigit_of_mem {n : ℕ} {c : Char} (h : c ∈ hexDigits n) :
    ∃ k < 16, c = k.digitChar := by
  induction n using Nat.strongRecOn with
  | ind n ih =>
      rw [hexDigits, Nat.toDigits_eq_if (by norm_num)] at h
      split at h
      · rename_i hn
        exact ⟨n, hn, List.mem_singleton.mp h⟩
      · rcases List.mem_append.mp h with h | h
        · exact ih (n / 16) (by omega) h
        · exact ⟨n % 16, by omega, List.mem_singleton.mp h⟩

theorem ne_of_mem_hexDigits {n : ℕ} {c : Char} (h : c ∈ hexDigits n) :
    c ≠ '\x7d' ∧ c ≠ '"' ∧ c ≠ '\n' := by
  have hdigits : ∀ k < 16, k.digitChar ≠ '\x7d' ∧ k.digitChar ≠ '"' ∧ k.digitChar ≠ '\n' := by
    decide
  obtain ⟨k, hk, rfl⟩ := hexDigit_of_mem h
  exact hdigits k hk

/-! ### Characters -/

def readEscape : List Char → Option (Char × List Char)
  | 'u' :: '\x7b' :: rest =>
      (hexOf? (rest.takeWhile (· ≠ '\x7d'))).map fun n =>
        (Char.ofNat n, (rest.dropWhile (· ≠ '\x7d')).tail)
  | 'n' :: rest => some ('\n', rest)
  | 'r' :: rest => some ('\r', rest)
  | 't' :: rest => some ('\t', rest)
  | '0' :: rest => some ('\x00', rest)
  | c :: rest => some (c, rest)
  | [] => none

def readShown : List Char → Option (Char × List Char)
  | '\\' :: rest => readEscape rest
  | c :: rest => some (c, rest)
  | [] => none

theorem readShown_codePoint (c : Char) (rest : List Char) :
    readShown (codePoint c ++ rest) = some (c, rest) := by
  have hdigits : ∀ d ∈ hexDigits c.toNat, decide (d ≠ '\x7d') = true := fun d hd =>
    decide_eq_true (ne_of_mem_hexDigits hd).1
  have htext : codePoint c ++ rest =
      '\\' :: 'u' :: '\x7b' :: (hexDigits c.toNat ++ '\x7d' :: rest) := by
    simp [codePoint]
  rw [htext, readShown, readEscape, List.takeWhile_append_of_pos hdigits,
    List.dropWhile_append_of_pos hdigits, List.takeWhile_cons_of_neg (by simp),
    List.dropWhile_cons_of_neg (by simp), List.append_nil, hexOf?_hexDigits, Option.map_some,
    Char.ofNat_toNat, List.tail_cons]

theorem readShown_plain {c : Char} (h : c ≠ '\\') (rest : List Char) :
    readShown (c :: rest) = some (c, rest) := by
  unfold readShown
  split
  · rename_i heq
    exact absurd (List.cons.inj heq).1 h
  · rename_i heq
    cases heq
    rfl
  · rename_i heq
    cases heq

/-- The characters with a short escape, each with the one that stands for it
behind the backslash. -/
def shortEscapes : List (Char × Char) :=
  [('"', '"'), ('\\', '\\'), ('\n', 'n'), ('\r', 'r'), ('\t', 't'), ('\x00', '0')]

/-- How a character is shown: behind a backslash, by its code point, or as it
is. -/
theorem shown_cases {P : Char → List Char → Prop} (c : Char)
    (escape : ∀ p ∈ shortEscapes, P p.1 ['\\', p.2])
    (point : c ≠ '"' → c ≠ '\n' → P c (codePoint c))
    (plain : c ≠ '"' → c ≠ '\\' → c ≠ '\n' → P c [c]) : P c (shown c) := by
  unfold shown
  split_ifs with h₁ h₂ h₃ h₄ h₅ h₆
  · exact h₁ ▸ escape ('"', '"') (by simp [shortEscapes])
  · exact h₂ ▸ escape ('\\', '\\') (by simp [shortEscapes])
  · exact h₃ ▸ escape ('\n', 'n') (by simp [shortEscapes])
  · exact h₄ ▸ escape ('\r', 'r') (by simp [shortEscapes])
  · exact h₅ ▸ escape ('\t', 't') (by simp [shortEscapes])
  · exact h₆ ▸ escape ('\x00', '0') (by simp [shortEscapes])
  · exact point h₁ h₃
  · exact plain h₁ h₂ h₃
  · exact point h₁ h₃
  · exact plain h₁ h₂ h₃

theorem readShown_shown (c : Char) (rest : List Char) :
    readShown (shown c ++ rest) = some (c, rest) := by
  refine shown_cases (P := fun c text => readShown (text ++ rest) = some (c, rest)) c ?_ ?_ ?_
  · intro p hp
    fin_cases hp <;> rfl
  · exact fun _ _ => readShown_codePoint c rest
  · exact fun _ hc _ => readShown_plain hc rest

theorem newline_notMem_shown (c : Char) : '\n' ∉ shown c := by
  refine shown_cases (P := fun _ text => '\n' ∉ text) c ?_ ?_ ?_
  · intro p hp
    fin_cases hp <;> decide
  · intro _ _ h
    have hdigits : '\n' ∈ hexDigits c.toNat := by simpa [codePoint] using h
    exact (ne_of_mem_hexDigits hdigits).2.2 rfl
  · exact fun _ _ hc h => hc (List.mem_singleton.mp h).symm

theorem shown_of_quote_mem {c : Char} (h : '"' ∈ shown c) : shown c = ['\\', '"'] := by
  refine shown_cases (P := fun _ text => '"' ∈ text → text = ['\\', '"']) c ?_ ?_ ?_ h
  · intro p hp
    fin_cases hp <;> decide
  · intro _ _ h
    have hdigits : '"' ∈ hexDigits c.toNat := by simpa [codePoint] using h
    exact absurd rfl (ne_of_mem_hexDigits hdigits).2.1
  · exact fun hc _ _ h => absurd (List.mem_singleton.mp h).symm hc

/-- No character starts like the end of a quotation. -/
theorem shown_append_ne_quote (c : Char) (rest rest' : List Char) :
    shown c ++ rest ≠ '"' :: rest' := by
  refine shown_cases (P := fun _ text => text ++ rest ≠ '"' :: rest') c ?_ ?_ ?_
  · intro p _ h
    exact absurd (List.cons.inj h).1 (by decide)
  · intro _ _ h
    exact absurd (List.cons.inj h).1 (by decide)
  · exact fun hc _ _ h => hc (List.cons.inj h).1

/-! ### Texts -/

variable {cs cs' rest rest' : List Char}

theorem newline_notMem_flatMap_shown (cs : List Char) : '\n' ∉ cs.flatMap shown := by
  intro h
  obtain ⟨c, -, hc⟩ := List.mem_flatMap.mp h
  exact newline_notMem_shown c hc

/-- A quotation mark inside of a text stands behind a backslash. -/
theorem getLast?_of_flatMap_shown {before after : List Char}
    (h : cs.flatMap shown = before ++ '"' :: after) : before.getLast? = some '\\' := by
  induction cs generalizing before with
  | nil => simp at h
  | cons c cs ih =>
      rw [List.flatMap_cons] at h
      rcases List.append_eq_append_iff.mp h with ⟨more, rfl, hmore⟩ | ⟨more, hshown, hmore⟩
      · rw [List.getLast?_append, ih hmore, Option.some_or]
      · cases more with
        | nil =>
            have hempty := @ih [] hmore.symm
            cases hempty
        | cons d more =>
            obtain rfl : '"' = d := (List.cons.inj hmore).1
            have hquote : shown c = ['\\', '"'] := shown_of_quote_mem (by simp [hshown])
            rw [hquote] at hshown
            rcases before with _ | ⟨d, _ | ⟨e, before⟩⟩
            · cases hshown
            · obtain rfl := (List.cons.inj hshown).1
              rfl
            · simp at hshown

/-- A quoted text and what follows it can be told apart. -/
theorem flatMap_shown_inj
    (h : cs.flatMap shown ++ '"' :: rest = cs'.flatMap shown ++ '"' :: rest') :
    cs = cs' ∧ rest = rest' := by
  induction cs generalizing cs' with
  | nil =>
      cases cs' with
      | nil => exact ⟨rfl, (List.cons.inj h).2⟩
      | cons c' cs' =>
          rw [List.flatMap_cons, List.append_assoc] at h
          exact absurd h.symm (shown_append_ne_quote c' _ _)
  | cons c cs ih =>
      rw [List.flatMap_cons, List.append_assoc] at h
      cases cs' with
      | nil => exact absurd h (shown_append_ne_quote c _ _)
      | cons c' cs' =>
          rw [List.flatMap_cons, List.append_assoc] at h
          have hread := congrArg readShown h
          rw [readShown_shown, readShown_shown, Option.some.injEq, Prod.mk.injEq] at hread
          obtain ⟨rfl, hmore⟩ := hread
          obtain ⟨rfl, hrest⟩ := ih hmore
          exact ⟨rfl, hrest⟩

theorem quote_inj {s s' : String} (h : quote s rest = quote s' rest') : s = s' ∧ rest = rest' := by
  obtain ⟨hcs, hrest⟩ := flatMap_shown_inj (List.cons.inj h).2
  exact ⟨String.toList_injective hcs, hrest⟩

end Reql.Text
