import Reql.Proofs.Json
import Reql.Proofs.Json.Numbers

/-!
Reading written JSON text.

Whatever value is written, in either layout and in front of any rest, reading
gives back the value and leaves the rest. The statement is about a value in
front of a rest, because that is what the reader of an array or object is
called with; only a number depends on its rest, which must not go on with a
digit, a point or an exponent. An object is read as it was if its names are
distinct.

The reader needs no more fuel than there are characters. Every step takes at
least one, so the bound on the length of the text is what the induction
carries along.
-/

namespace Reql

theorem Text.hexValue?_hexDigit : ∀ n < 16, hexValue? (Json.hexDigit n) = some n := by decide

namespace Json

/-! ### Strings -/

theorem readHex_hexDigit {n : Nat} (h : n < 256) (rest : List Char) :
    readHex ('0' :: '0' :: hexDigit (n / 16) :: hexDigit (n % 16) :: rest) = .ok (n, rest) := by
  have hhigh := Text.hexValue?_hexDigit (n / 16) (by omega)
  have hlow := Text.hexValue?_hexDigit (n % 16) (by omega)
  have hzero : Text.hexValue? '0' = some 0 := by decide
  have hsum : ((0 * 16 + 0) * 16 + n / 16) * 16 + n % 16 = n := by omega
  simp only [readHex, hzero, hhigh, hlow, hsum]

theorem readString_escape (c : Char) (fuel : Nat) (done rest : List Char) :
    readString (fuel + 1) done (escape c ++ rest) = readString fuel (c :: done) rest := by
  unfold escape
  split_ifs with h₁ h₂ h₃ h₄ h₅ h₆ h₇ h₈
  · subst h₁
    rfl
  · subst h₂
    rfl
  · subst h₃
    rfl
  · subst h₄
    rfl
  · subst h₅
    rfl
  · subst h₆
    rfl
  · subst h₇
    rfl
  · have hread := readHex_hexDigit (n := c.toNat) (by omega) rest
    have hlow : ¬ (0xDC00 ≤ c.toNat ∧ c.toNat ≤ 0xDFFF) := by omega
    have hhigh : ¬ (0xD800 ≤ c.toNat ∧ c.toNat ≤ 0xDBFF) := by omega
    have hunicode : readUnicode ('0' :: '0' :: hexDigit (c.toNat / 16) ::
        hexDigit (c.toNat % 16) :: rest) = .ok (c, rest) := by
      simp only [readUnicode, hread, bind, Except.bind, if_neg hlow, if_neg hhigh,
        Char.ofNat_toNat]
    simp [readString, readEscape, hunicode, bind, Except.bind]
  · simp [readString, h₁, h₂, h₈]

theorem readString_escaped {cs tail : List Char} {fuel : Nat} (hfuel : cs.length < fuel)
    (done : List Char) :
    readString fuel done (cs.flatMap escape ++ '"' :: tail) =
      .ok (String.ofList (done.reverse ++ cs), tail) := by
  induction cs generalizing fuel done with
  | nil =>
      obtain ⟨k, rfl⟩ := Nat.exists_eq_succ_of_ne_zero (Nat.ne_of_gt hfuel)
      simp [readString]
  | cons c cs ih =>
      obtain ⟨k, rfl⟩ := Nat.exists_eq_succ_of_ne_zero (Nat.ne_zero_of_lt hfuel)
      have hk : cs.length < k := Nat.lt_of_succ_lt_succ hfuel
      rw [List.flatMap_cons, List.append_assoc, readString_escape, ih hk]
      simp

theorem length_le_length_escaped (cs : List Char) : cs.length ≤ (cs.flatMap escape).length := by
  induction cs with
  | nil => exact Nat.le_refl 0
  | cons c cs ih =>
      have hpos : 0 < (escape c).length := by
        unfold escape
        split_ifs <;> simp
      rw [List.flatMap_cons, List.length_append, List.length_cons]
      omega

theorem writeString_append (s : String) (tail more : List Char) :
    writeString s (tail ++ more) = writeString s tail ++ more := by
  simp [writeString]

theorem length_writeString (s : String) (tail : List Char) :
    (writeString s tail).length = (s.toList.flatMap escape).length + 2 + tail.length := by
  simp only [writeString, List.length_cons, List.length_append]
  omega

/-- A string is read from its written form without the opening quote. -/
theorem readString_writeString {s : String} {tail : List Char} {fuel : Nat}
    (hfuel : (writeString s tail).length ≤ fuel + 1 + tail.length) :
    readString fuel [] (s.toList.flatMap escape ++ '"' :: tail) = .ok (s, tail) := by
  have hlength := length_le_length_escaped s.toList
  rw [length_writeString] at hfuel
  rw [readString_escaped (by omega) [], List.reverse_nil, List.nil_append, String.ofList_toList]

/-! ### Blanks -/

theorem skipBlanks_append {blanks rest : List Char} (hblanks : ∀ c ∈ blanks, isBlank c = true)
    (hrest : ∀ c ∈ rest.head?, isBlank c = false) : skipBlanks (blanks ++ rest) = rest := by
  rw [skipBlanks, List.dropWhile_append_of_pos hblanks]
  cases rest with
  | nil => rfl
  | cons c rest => simp [hrest c rfl]

theorem Style.isBlank_of_mem_gap (style : Style) : ∀ c ∈ style.gap, isBlank c = true := by
  intro c hc
  cases style with
  | compact => cases hc
  | indented level =>
      rcases List.mem_cons.mp hc with rfl | hc
      · rfl
      · rw [(List.mem_replicate.mp hc).2]
        rfl

theorem Style.endsNumber_gap (style : Style) {rest : List Char} (hrest : EndsNumber rest) :
    EndsNumber (style.gap ++ rest) := by
  cases style with
  | compact => exact hrest
  | indented level =>
      rintro c ⟨⟩
      decide

theorem ne_of_isDigit {c d : Char} (hc : c.isDigit = true) (hd : d.isDigit = false) : c ≠ d := by
  rintro rfl
  rw [hc] at hd
  cases hd

/-! ### What is written -/

mutual

theorem write_append : ∀ (v : Json) (style : Style) (tail more : List Char),
    v.write style (tail ++ more) = v.write style tail ++ more
  | .null, _, _, _ => rfl
  | .bool true, _, _, _ => rfl
  | .bool false, _, _, _ => rfl
  | .number n, _, tail, more => (List.append_assoc n.digits tail more).symm
  | .string s, _, tail, more => writeString_append s tail more
  | .array [], _, _, _ => rfl
  | .array (v :: rest), style, tail, more => by
      simp only [write, ← write_append v, ← writeItems_append rest, List.cons_append,
        List.append_assoc]
  | .object [], _, _, _ => rfl
  | .object ((name, v) :: rest), style, tail, more => by
      simp only [write, ← write_append v, ← writeFields_append rest, ← writeString_append,
        List.cons_append, List.append_assoc]

theorem writeItems_append : ∀ (items : List Json) (style : Style) (tail more : List Char),
    writeItems items style (tail ++ more) = writeItems items style tail ++ more
  | [], _, _, _ => rfl
  | v :: rest, style, tail, more => by
      simp only [writeItems, ← write_append v, ← writeItems_append rest, List.cons_append,
        List.append_assoc]

theorem writeFields_append :
    ∀ (fields : List (String × Json)) (style : Style) (tail more : List Char),
    writeFields fields style (tail ++ more) = writeFields fields style tail ++ more
  | [], _, _, _ => rfl
  | (name, v) :: rest, style, tail, more => by
      simp only [writeFields, ← write_append v, ← writeFields_append rest, ← writeString_append,
        List.cons_append, List.append_assoc]

end

section Length

variable {f : List Char → List Char} (h : ∀ tail more, f (tail ++ more) = f tail ++ more)

include h

theorem length_le_of_append (tail : List Char) : tail.length ≤ (f tail).length := by
  have hf := h [] tail
  rw [List.nil_append] at hf
  rw [hf, List.length_append]
  omega

/-- What is written in front of a closing bracket is longer than the rest
behind the bracket. -/
theorem length_lt_of_append (outer : Style) (bracket : Char) (tail : List Char) :
    tail.length < (f (outer.gap ++ bracket :: tail)).length := by
  have hlength := length_le_of_append h (outer.gap ++ bracket :: tail)
  rw [List.length_append, List.length_cons] at hlength
  omega

end Length

theorem length_le_write (v : Json) (style : Style) (tail : List Char) :
    tail.length ≤ (v.write style tail).length :=
  length_le_of_append (write_append v style) tail

/-- A written value starts with neither a blank nor a closing bracket. -/
theorem head?_write (v : Json) (style : Style) (tail : List Char) :
    ∃ c rest, v.write style tail = c :: rest ∧ isBlank c = false ∧ c ≠ ']' := by
  cases v with
  | number n =>
      obtain ⟨c, rest, hdigits, hc⟩ := exists_cons_digits n
      refine ⟨c, rest ++ tail, by rw [write, hdigits, List.cons_append], ?_⟩
      rcases hc with rfl | hc
      · exact ⟨rfl, by decide⟩
      · refine ⟨?_, ne_of_isDigit hc rfl⟩
        simp [isBlank, ne_of_isDigit hc]
  | null => exact ⟨_, _, rfl, rfl, by decide⟩
  | bool b => cases b <;> exact ⟨_, _, rfl, rfl, by decide⟩
  | string s => exact ⟨_, _, rfl, rfl, by decide⟩
  | array items => cases items <;> exact ⟨_, _, rfl, rfl, by decide⟩
  | object fields => 
      rcases fields with _ | ⟨⟨name, v⟩, rest⟩ <;> exact ⟨_, _, rfl, rfl, by decide⟩

theorem skipBlanks_write (v : Json) (style : Style) (tail : List Char) :
    skipBlanks (v.write style tail) = v.write style tail := by
  obtain ⟨c, rest, hwrite, hc, -⟩ := head?_write v style tail
  have hblank : ∀ d ∈ (v.write style tail).head?, isBlank d = false := by
    rw [hwrite]
    rintro d ⟨⟩
    exact hc
  simpa using skipBlanks_append (List.forall_mem_nil _) hblank

theorem skipBlanks_gap_write (v : Json) (style style' : Style) (tail : List Char) :
    skipBlanks (style.gap ++ v.write style' tail) = v.write style' tail := by
  obtain ⟨c, rest, hwrite, hc, -⟩ := head?_write v style' tail
  refine skipBlanks_append style.isBlank_of_mem_gap ?_
  rw [hwrite]
  rintro d ⟨⟩
  exact hc

/-! ### Reading back -/

/-- `v.ReadsBack`: reading the written value gives it back and leaves what
stands behind it. -/
def ReadsBack (v : Json) : Prop :=
  ∀ (style : Style) (tail : List Char) (fuel : Nat), (∀ n, v = .number n → EndsNumber tail) →
    (v.write style tail).length ≤ fuel + tail.length →
      readValue fuel (v.write style tail) = .ok (v, tail)

theorem readValue_of_number {c : Char} (hc : c = '-' ∨ c.isDigit = true) (fuel : Nat)
    (rest : List Char) : readValue (fuel + 1) (c :: rest) = readNumber (c :: rest) := by
  have hne : ∀ d : Char, d ≠ '-' → d.isDigit = false → c ≠ d := by
    rintro d hminus hdigit rfl
    rcases hc with rfl | hc
    · exact hminus rfl
    · rw [hc] at hdigit
      cases hdigit
  rw [readValue, if_neg (hne _ (by decide) rfl), if_neg (hne _ (by decide) rfl),
    if_neg (hne _ (by decide) rfl), if_neg (hne _ (by decide) rfl), if_neg (hne _ (by decide) rfl),
    if_neg (hne _ (by decide) rfl), if_pos hc]

theorem readsBack_number (n : Number) : ReadsBack (.number n) := by
  intro style tail fuel htail hfuel
  obtain ⟨c, rest, hdigits, hc⟩ := exists_cons_digits n
  have hwrite : (number n).write style tail = c :: (rest ++ tail) := by
    rw [write, hdigits, List.cons_append]
  have hread : readNumber (c :: (rest ++ tail)) = .ok (.number n, tail) := by
    rw [← List.cons_append, ← hdigits, readNumber_digits n (htail n rfl)]
  rw [hwrite, List.length_cons, List.length_append] at hfuel
  obtain ⟨k, rfl⟩ := Nat.exists_eq_succ_of_ne_zero (n := fuel) (by omega)
  rw [hwrite, readValue_of_number hc, hread]

theorem readsBack_string (s : String) : ReadsBack (.string s) := by
  intro style tail fuel _ hfuel
  rw [write, length_writeString] at hfuel
  obtain ⟨k, rfl⟩ := Nat.exists_eq_succ_of_ne_zero (n := fuel) (by omega)
  have hread : readString k [] (s.toList.flatMap escape ++ '"' :: tail) = .ok (s, tail) :=
    readString_writeString (by rw [length_writeString]; omega)
  rw [write, writeString]
  simp [readValue, hread, bind, Except.bind]

theorem readsBack_word {v : Json} (c : Char) (word : List Char)
    (hwrite : ∀ style tail, v.write style tail = c :: (word ++ tail))
    (hread : ∀ fuel tail, readValue (fuel + 1) (c :: (word ++ tail)) = .ok (v, tail)) :
    v.ReadsBack := by
  intro style tail fuel _ hfuel
  rw [hwrite, List.length_cons, List.length_append] at hfuel
  obtain ⟨k, rfl⟩ := Nat.exists_eq_succ_of_ne_zero (n := fuel) (by omega)
  rw [hwrite, hread]

theorem readsBack_of_isScalar {v : Json} (h : v.isScalar = true) : v.ReadsBack := by
  cases v with
  | null => exact readsBack_word 'n' ['u', 'l', 'l'] (fun _ _ => rfl) fun _ _ => rfl
  | bool b =>
      cases b with
      | true =>
          exact readsBack_word 't' ['r', 'u', 'e'] (fun _ _ => rfl) fun _ _ => rfl
      | false =>
          exact readsBack_word 'f' ['a', 'l', 's', 'e'] (fun _ _ => rfl) fun _ _ => rfl
  | number n => exact readsBack_number n
  | string s => exact readsBack_string s
  | array items => cases h
  | object fields => cases h

section Elements

variable {v : Json} {cs rest tail : List Char} {fuel : Nat}

theorem readItems_close {done : List Json} (h : skipBlanks cs = ']' :: rest) :
    readItems (fuel + 1) done cs = .ok (.array done.reverse, rest) := by
  rw [readItems]
  split
  · rename_i heq
    obtain ⟨-, rfl⟩ := List.cons.inj (h.symm.trans heq)
    rfl
  · rename_i heq
    exact absurd (h.symm.trans heq) (by simp)
  · rename_i hne _
    exact absurd h (hne rest)

theorem readItems_comma {done : List Json} (h : skipBlanks cs = ',' :: rest)
    (hv : readValue fuel (skipBlanks rest) = .ok (v, tail)) :
    readItems (fuel + 1) done cs = readItems fuel (v :: done) tail := by
  rw [readItems]
  split
  · rename_i heq
    exact absurd (h.symm.trans heq) (by simp)
  · rename_i heq
    obtain ⟨-, rfl⟩ := List.cons.inj (h.symm.trans heq)
    rw [hv]
    rfl
  · rename_i _ hne
    exact absurd h (hne rest)

theorem readValue_bracket (h : ∀ rest', skipBlanks rest ≠ ']' :: rest')
    (hv : readValue fuel (skipBlanks rest) = .ok (v, tail)) :
    readValue (fuel + 1) ('[' :: rest) = readItems fuel [v] tail := by
  rw [readValue, if_neg (by decide), if_neg (by decide), if_neg (by decide), if_neg (by decide),
    if_pos rfl]
  split
  · rename_i heq
    exact absurd heq (h _)
  · rw [hv]
    rfl

theorem endsNumber_writeItems (items : List Json) (style outer : Style) (tail : List Char) :
    EndsNumber (writeItems items style (outer.gap ++ ']' :: tail)) := by
  cases items with
  | nil => exact outer.endsNumber_gap (by rintro c ⟨⟩; decide)
  | cons v items =>
      rintro c ⟨⟩
      decide

/-- Elements are read after those that have been read already. -/
theorem readItems_writeItems {items : List Json} (hitems : ∀ v ∈ items, v.ReadsBack)
    (style outer : Style) (tail : List Char) (done : List Json) (fuel : Nat)
    (hfuel : (writeItems items style (outer.gap ++ ']' :: tail)).length ≤ fuel + tail.length) :
    readItems fuel done (writeItems items style (outer.gap ++ ']' :: tail)) =
      .ok (.array (done.reverse ++ items), tail) := by
  induction items generalizing done fuel with
  | nil =>
      have hclose : skipBlanks (outer.gap ++ ']' :: tail) = ']' :: tail :=
        skipBlanks_append outer.isBlank_of_mem_gap (by rintro c ⟨⟩; rfl)
      rw [writeItems, List.length_append, List.length_cons] at hfuel
      obtain ⟨k, rfl⟩ := Nat.exists_eq_succ_of_ne_zero (n := fuel) (by omega)
      rw [writeItems, readItems_close hclose, List.append_nil]
  | cons v items ih =>
      obtain ⟨hv, hitems⟩ := List.forall_mem_cons.mp hitems
      have hmore := length_lt_of_append (writeItems_append items style) outer ']' tail
      have hends := endsNumber_writeItems items style outer tail
      rw [writeItems] at hfuel ⊢
      generalize writeItems items style (outer.gap ++ ']' :: tail) = more at *
      have hlength := length_le_write v style more
      rw [List.length_cons, List.length_append] at hfuel
      obtain ⟨k, rfl⟩ := Nat.exists_eq_succ_of_ne_zero (n := fuel) (by omega)
      have hread : readValue k (v.write style more) = .ok (v, more) :=
        hv style more k (fun _ _ => hends) (by omega)
      rw [← skipBlanks_gap_write v style style] at hread
      rw [readItems_comma rfl hread, ih hitems (v :: done) k (by omega)]
      simp

theorem readsBack_array {items : List Json} (hitems : ∀ v ∈ items, v.ReadsBack) :
    ReadsBack (.array items) := by
  intro style tail fuel _ hfuel
  cases items with
  | nil =>
      rw [write, List.length_cons, List.length_cons] at hfuel
      obtain ⟨k, rfl⟩ := Nat.exists_eq_succ_of_ne_zero (n := fuel) (by omega)
      rfl
  | cons v items =>
      obtain ⟨hv, hitems⟩ := List.forall_mem_cons.mp hitems
      have hmore := length_lt_of_append (writeItems_append items style.deeper) style ']' tail
      have hends := endsNumber_writeItems items style.deeper style tail
      have hrest := readItems_writeItems hitems style.deeper style tail [v]
      rw [write] at hfuel ⊢
      generalize writeItems items style.deeper (style.gap ++ ']' :: tail) = more at *
      have hlength := length_le_write v style.deeper more
      rw [List.length_cons, List.length_append] at hfuel
      obtain ⟨k, rfl⟩ := Nat.exists_eq_succ_of_ne_zero (n := fuel) (by omega)
      have hread : readValue k (v.write style.deeper more) = .ok (v, more) :=
        hv style.deeper more k (fun _ _ => hends) (by omega)
      have hblanks := skipBlanks_gap_write v style.deeper style.deeper more
      have hopen : ∀ rest', skipBlanks (style.deeper.gap ++ v.write style.deeper more) ≠
          ']' :: rest' := by
        obtain ⟨c, cs, hwrite, -, hc⟩ := head?_write v style.deeper more
        rw [hblanks, hwrite]
        rintro rest' ⟨⟩
        exact hc rfl
      rw [← hblanks] at hread
      rw [readValue_bracket hopen hread, hrest k (by omega)]
      rfl

end Elements

section Members

variable {v : Json} {name : String} {cs rest more tail : List Char} {fuel : Nat}

theorem readName_writeString (name : String) (v : Json) (style inner : Style)
    (hfuel : (writeString name (style.colon ++ v.write inner more)).length ≤
      fuel + 1 + (v.write inner more).length) :
    readName fuel (writeString name (style.colon ++ v.write inner more)) =
      .ok (name, v.write inner more) := by
  obtain ⟨blanks, hcolon, hblanks⟩ : ∃ blanks,
      style.colon ++ v.write inner more = ':' :: (blanks ++ v.write inner more) ∧
        skipBlanks (blanks ++ v.write inner more) = v.write inner more := by
    cases style with
    | compact => exact ⟨[], rfl, skipBlanks_write v inner more⟩
    | indented level => exact ⟨[' '], rfl, skipBlanks_write v inner more⟩
  rw [hcolon] at hfuel ⊢
  have hread : readString fuel [] (name.toList.flatMap escape ++
      '"' :: ':' :: (blanks ++ v.write inner more)) =
        .ok (name, ':' :: (blanks ++ v.write inner more)) := by
    refine readString_writeString (hfuel.trans ?_)
    simp only [List.length_cons, List.length_append]
    omega
  have hskip : skipBlanks (':' :: (blanks ++ v.write inner more)) =
      ':' :: (blanks ++ v.write inner more) := rfl
  rw [writeString, readName, hread]
  simp only [bind, Except.bind, hskip, hblanks]

theorem readFields_close {done : Fields Json} (h : skipBlanks cs = '}' :: rest) :
    readFields (fuel + 1) done cs = .ok (.object done, rest) := by
  rw [readFields]
  split
  · rename_i heq
    obtain ⟨-, rfl⟩ := List.cons.inj (h.symm.trans heq)
    rfl
  · rename_i heq
    exact absurd (h.symm.trans heq) (by simp)
  · rename_i hne _
    exact absurd h (hne rest)

theorem readFields_comma {done : Fields Json} (h : skipBlanks cs = ',' :: rest)
    (hname : readName fuel (skipBlanks rest) = .ok (name, more))
    (hv : readValue fuel more = .ok (v, tail)) :
    readFields (fuel + 1) done cs = readFields fuel (Fields.insert done name v) tail := by
  rw [readFields]
  split
  · rename_i heq
    exact absurd (h.symm.trans heq) (by simp)
  · rename_i heq
    obtain ⟨-, rfl⟩ := List.cons.inj (h.symm.trans heq)
    rw [hname]
    simp only [bind, Except.bind, hv]
  · rename_i _ hne
    exact absurd h (hne rest)

theorem readValue_brace (h : ∀ rest', skipBlanks rest ≠ '}' :: rest')
    (hname : readName fuel (skipBlanks rest) = .ok (name, more))
    (hv : readValue fuel more = .ok (v, tail)) :
    readValue (fuel + 1) ('{' :: rest) = readFields fuel [(name, v)] tail := by
  rw [readValue, if_neg (by decide), if_neg (by decide), if_neg (by decide), if_neg (by decide),
    if_neg (by decide), if_pos rfl]
  split
  · rename_i heq
    exact absurd heq (h _)
  · rw [hname]
    simp only [bind, Except.bind, hv]

theorem endsNumber_writeFields (fields : Fields Json) (style outer : Style) (tail : List Char) :
    EndsNumber (writeFields fields style (outer.gap ++ '}' :: tail)) := by
  rcases fields with _ | ⟨⟨name, v⟩, fields⟩
  · exact outer.endsNumber_gap (by rintro c ⟨⟩; decide)
  · rintro c ⟨⟩
    decide

theorem skipBlanks_gap_writeString (style : Style) (name : String) (rest : List Char) :
    skipBlanks (style.gap ++ writeString name rest) = writeString name rest :=
  skipBlanks_append style.isBlank_of_mem_gap (by rintro c ⟨⟩; rfl)

/-- Members are read after those that have been read already, whose names are
other ones. -/
theorem readFields_writeFields {fields : Fields Json} (hfields : ∀ f ∈ fields, f.2.ReadsBack)
    (style outer : Style) (tail : List Char) (done : Fields Json)
    (hnames : Fields.Distinct (done ++ fields)) (fuel : Nat)
    (hfuel : (writeFields fields style (outer.gap ++ '}' :: tail)).length ≤ fuel + tail.length) :
    readFields fuel done (writeFields fields style (outer.gap ++ '}' :: tail)) =
      .ok (.object (done ++ fields), tail) := by
  induction fields generalizing done fuel with
  | nil =>
      have hclose : skipBlanks (outer.gap ++ '}' :: tail) = '}' :: tail :=
        skipBlanks_append outer.isBlank_of_mem_gap (by rintro c ⟨⟩; rfl)
      rw [writeFields, List.length_append, List.length_cons] at hfuel
      obtain ⟨k, rfl⟩ := Nat.exists_eq_succ_of_ne_zero (n := fuel) (by omega)
      rw [writeFields, readFields_close hclose, List.append_nil]
  | cons f fields ih =>
      obtain ⟨name, v⟩ := f
      obtain ⟨hv, hfields⟩ : v.ReadsBack ∧ ∀ f ∈ fields, f.2.ReadsBack :=
        List.forall_mem_cons.mp hfields
      have hmore := length_lt_of_append (writeFields_append fields style) outer '}' tail
      have hends := endsNumber_writeFields fields style outer tail
      rw [writeFields] at hfuel ⊢
      -- from here on only the length of the further members counts, and how they begin
      generalize writeFields fields style (outer.gap ++ '}' :: tail) = more at *
      have hlength := length_le_write v style more
      have hstring := length_writeString name (style.colon ++ v.write style more)
      rw [List.length_append] at hstring
      rw [List.length_cons, List.length_append] at hfuel
      obtain ⟨k, rfl⟩ := Nat.exists_eq_succ_of_ne_zero (n := fuel) (by omega)
      have hname : readName k (writeString name (style.colon ++ v.write style more)) =
          .ok (name, v.write style more) := readName_writeString name v style style (by omega)
      have hread : readValue k (v.write style more) = .ok (v, more) :=
        hv style more k (fun _ _ => hends) (by omega)
      have hnew : name ∉ Fields.names done := by
        have hnodup : (Fields.names done ++ name :: Fields.names fields).Nodup := by
          simpa [Fields.Distinct, Fields.names] using hnames
        intro hmem
        exact (List.nodup_append.mp hnodup).2.2 name hmem name List.mem_cons_self rfl
      have hassoc : done ++ [(name, v)] ++ fields = done ++ (name, v) :: fields := by simp
      rw [← skipBlanks_gap_writeString style] at hname
      rw [readFields_comma rfl hname hread, Fields.insert_of_not_mem hnew,
        ih hfields _ (hassoc ▸ hnames) k (by omega), hassoc]

theorem readsBack_object {fields : Fields Json} (hnames : Fields.Distinct fields)
    (hfields : ∀ f ∈ fields, f.2.ReadsBack) : ReadsBack (.object fields) := by
  intro style tail fuel _ hfuel
  rcases fields with _ | ⟨⟨name, v⟩, fields⟩
  · rw [write, List.length_cons, List.length_cons] at hfuel
    obtain ⟨k, rfl⟩ := Nat.exists_eq_succ_of_ne_zero (n := fuel) (by omega)
    rfl
  · obtain ⟨hv, hfields⟩ : v.ReadsBack ∧ ∀ f ∈ fields, f.2.ReadsBack :=
      List.forall_mem_cons.mp hfields
    have hmore := length_lt_of_append (writeFields_append fields style.deeper) style '}' tail
    have hends := endsNumber_writeFields fields style.deeper style tail
    have hrest := readFields_writeFields hfields style.deeper style tail [(name, v)] hnames
    rw [write] at hfuel ⊢
    generalize writeFields fields style.deeper (style.gap ++ '}' :: tail) = more at *
    have hlength := length_le_write v style.deeper more
    have hstring := length_writeString name (style.colon ++ v.write style.deeper more)
    rw [List.length_append] at hstring
    rw [List.length_cons, List.length_append] at hfuel
    obtain ⟨k, rfl⟩ := Nat.exists_eq_succ_of_ne_zero (n := fuel) (by omega)
    have hname : readName k (writeString name (style.colon ++ v.write style.deeper more)) =
        .ok (name, v.write style.deeper more) :=
      readName_writeString name v style style.deeper (by omega)
    have hread : readValue k (v.write style.deeper more) = .ok (v, more) :=
      hv style.deeper more k (fun _ _ => hends) (by omega)
    have hblanks := skipBlanks_gap_writeString style.deeper name
      (style.colon ++ v.write style.deeper more)
    have hopen : ∀ rest', skipBlanks (style.deeper.gap ++
        writeString name (style.colon ++ v.write style.deeper more)) ≠ '}' :: rest' := by
      rw [hblanks]
      rintro rest' ⟨⟩
    rw [← hblanks] at hname
    rw [readValue_brace hopen hname hread, hrest k (by omega)]
    rfl

end Members

theorem readsBack_of_distinct {v : Json} (hv : v.Distinct) : v.ReadsBack := by
  induction v using Json.induction with
  | scalar v hscalar => exact readsBack_of_isScalar hscalar
  | array items ih =>
      exact readsBack_array fun v hmem => ih v hmem (distinct_array_iff.mp hv v hmem)
  | object fields ih =>
      obtain ⟨hnames, hvalues⟩ := distinct_object_iff.mp hv
      exact readsBack_object hnames fun f hmem => ih f hmem (hvalues f hmem)

/-- A text that begins with a written value is the text of that value if
nothing but blanks follow, and no text of a value otherwise. A number has to
end before what follows. -/
theorem read_write {v : Json} (hv : v.Distinct) (style : Style) {suffix : List Char}
    (hnumber : ∀ n, v = .number n → EndsNumber suffix) :
    read (String.ofList (v.write style suffix)) =
      if suffix.all isBlank then .ok v else .error .malformed := by
  have hvalue : readValue ((v.write style suffix).length + 1) (v.write style suffix) =
      .ok (v, suffix) := readsBack_of_distinct hv style suffix _ hnumber (by omega)
  by_cases hblank : suffix.all isBlank = true
  · have hrest : skipBlanks suffix = [] :=
      List.dropWhile_eq_nil_iff.mpr (List.all_eq_true.mp hblank)
    simp only [read, String.toList_ofList, skipBlanks_write, hvalue, hrest, if_pos hblank, bind,
      Except.bind]
  · obtain ⟨c, rest, hrest⟩ : ∃ c rest, skipBlanks suffix = c :: rest :=
      List.exists_cons_of_ne_nil fun hnil =>
        hblank (List.all_eq_true.mpr (List.dropWhile_eq_nil_iff.mp hnil))
    simp only [read, String.toList_ofList, skipBlanks_write, hvalue, hrest, if_neg hblank, bind,
      Except.bind]

end Json
end Reql
