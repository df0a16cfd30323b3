import Reql.Proofs.Json.Text
import Reql.Proofs.Wire.DepthLimit
import Reql.Proofs.Wire.RoundTrip

/-!
Encoded terms as text.

Reading what has been written gives back the value, so a term comes out of its
text as it comes out of its value, and the layout of the text plays no role. An
operation is written as an array, which ends with its bracket. Blanks behind it
are skipped, and anything else is an error.
-/

namespace Reql

namespace Json

variable {v : Json}

theorem ofList_write_append (v : Json) (style : Style) (suffix : String) :
    String.ofList (v.write style []) ++ suffix = String.ofList (v.write style suffix.toList) := by
  rw [← List.nil_append suffix.toList, write_append, String.ofList_append, String.ofList_toList]

/-- A term is read from the written text of a value as it is from the value. -/
theorem ofText_write (hv : v.Distinct) (style : Style) {suffix : List Char}
    (hnumber : ∀ n, v = .number n → EndsNumber suffix) :
    Term.ofText (String.ofList (v.write style suffix)) =
      if suffix.all isBlank then v.decode else .error (.serialization .malformed) := by
  rw [Term.ofText, read_write hv style hnumber]
  split
  · rfl
  · rfl

theorem ofText_text (hv : v.Distinct) : Term.ofText v.text = v.decode := by
  have hends : ∀ n, v = .number n → EndsNumber [] := fun _ _ c hc => by cases hc
  rw [text, ofText_write hv .compact hends, List.all_nil, if_pos rfl]

end Json

theorem Term.ne_number_of_encode {t : Term} {w : Json} (ht : t.isDatum = false)
    (h : t.encode = .ok w) (n : Json.Number) : w ≠ .number n := by
  rintro rfl
  have hdatum : t.datum?.isSome = true := (isScalar_of_encode h).symm
  cases t with
  | datum value => cases ht
  | node kind args options => cases hdatum

/-- The text of a well-formed term is read as its value is. If the term is not
a datum, its text may be followed by blanks and by nothing else. -/
theorem Encoder.ofText_encodeText {e : Encoder} {t : Term} {w : Json} (ht : t.WellFormed)
    (h : e.encode t = .ok w) :
    ∃ text, e.encodeText t = .ok text ∧ Term.ofText text = w.decode ∧
      (t.isDatum = false → ∀ suffix : String, Term.ofText (text ++ suffix) =
        if suffix.toList.all Json.isBlank then Term.ofText text
        else .error (.serialization .malformed)) := by
  have hencode : t.encode = .ok w := (encode_eq_ok_iff.mp h).1
  have hw : w.Distinct := Term.encode_distinct ht hencode
  have htext : e.encodeText t = .ok w.text := by
    rw [encodeText, h]
    rfl
  refine ⟨w.text, htext, Json.ofText_text hw, fun hnode suffix => ?_⟩
  have hends : ∀ n, w = .number n → Json.EndsNumber suffix.toList := fun n hn =>
    absurd hn (Term.ne_number_of_encode hnode hencode n)
  rw [Json.ofText_text hw, Json.text, Json.ofList_write_append,
    Json.ofText_write hw .compact hends]

/-- An object with characters that have to be escaped, a negative zero and the
greatest number. -/
def Term.escapes : Term :=
  .object [("a\"\n", .array [.datum (.string "é\\\x01"), .datum (.number (.ofCode true 0)),
    .datum (.unsigned 18446744073709551615)])]

/-- The text may be followed by a blank, but not by another bracket. -/
theorem Encoder.ofText_encodeText_escapes :
    (Term.escapes.WellFormed ∧ ∃ w, encode ⟨some 3⟩ .escapes = .ok w) ∧
      ∃ text, encodeText ⟨some 3⟩ .escapes = .ok text ∧
        text = "[3,[],\x7b\"a\\\"\\n\":[2,[\"é\\\\\\u0001\",-0.0,18446744073709551615]]\x7d]" ∧
        Term.ofText (text ++ " ") = .ok .escapes ∧
        Term.ofText (text ++ " ]") = .error (.serialization .malformed) := by
  have hwell : Term.escapes.WellFormed := by
    refine Term.wellFormed_object (List.nodup_singleton _) (List.forall_mem_singleton.mpr ?_)
    refine Term.wellFormed_array ?_
    simp [Term.wellFormed_datum]
  obtain ⟨w, hw, hspelled⟩ : ∃ w, encode ⟨some 3⟩ .escapes = .ok w ∧
      w.text = "[3,[],\x7b\"a\\\"\\n\":[2,[\"é\\\\\\u0001\",-0.0,18446744073709551615]]\x7d]" :=
    ⟨_, rfl, by decide⟩
  have hlarge : ∀ n, .datum (.unsigned n) ∈ Term.escapes.nodes → 9223372036854775808 ≤ n.toNat := by
    simp [Term.escapes, Term.object, Term.array, Term.mem_nodes_node]
  have hdecode : w.decode = .ok .escapes := by
    rw [Term.decode_of_encode hwell (encode_eq_ok_iff.mp hw).1,
      Term.mapData_narrow_eq_self hlarge]
  obtain ⟨text, htext, hread, hsuffix⟩ := ofText_encodeText hwell hw
  have hsame : w.text = text := by
    rw [encodeText, hw] at htext
    exact Except.ok.inj htext
  refine ⟨⟨hwell, w, hw⟩, text, htext, hsame.symm.trans hspelled, ?_, ?_⟩
  · rw [hsuffix rfl, if_pos (by decide), hread, hdecode]
  · rw [hsuffix rfl, if_neg (by decide)]

end Reql
