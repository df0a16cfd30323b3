/-!
Capital letters of the Latin alphabet.

The names of the catalog are in plain capitals.  A text in other letters can still be such a name in
capitals: a few letters beyond ASCII have plain letters as their capitals.
-/

namespace Reql.Text

def specialCapitals : List (Char × List Char) :=
  [('ß', ['S', 'S']), ('ı', ['I']), ('ſ', ['S']), ('ﬀ', ['F', 'F']), ('ﬁ', ['F', 'I']),
    ('ﬂ', ['F', 'L']), ('ﬃ', ['F', 'F', 'I']), ('ﬄ', ['F', 'F', 'L']), ('ﬅ', ['S', 'T']),
    ('ﬆ', ['S', 'T'])]

/-- `capital c` is a character in capitals, as far as these are plain letters; any other one is left
alone. -/
def capital (c : Char) : List Char :=
  match specialCapitals.lookup c with
  | some letters => letters
  | none => [c.toUpper]

def capitals (s : String) : String := String.ofList (s.toList.flatMap capital)

end Reql.Text
