import Reql.Datum.Basic
import Reql.Text.Quoted

/-!
Data as they are shown to a reader, in explanations and in error messages.
-/

namespace Reql.Datum

/-- Numbers are shown positionally from `0.0001` up to sixteen digits before the point. -/
def numberLayout : Layout :=
  { leastPositional := -4, greatestPositional := 15, keepPoint := true, plusSign := false,
    tie := .up }

mutual

def write : Datum → List Char → List Char
  | .null, tail => 'n' :: 'u' :: 'l' :: 'l' :: tail
  | .boolean true, tail => 't' :: 'r' :: 'u' :: 'e' :: tail
  | .boolean false, tail => 'f' :: 'a' :: 'l' :: 's' :: 'e' :: tail
  | .integer n, tail => intDigits n.toInt ++ tail
  | .unsigned n, tail => natDigits n.toNat ++ tail
  | .number x, tail => x.write numberLayout ++ tail
  | .string s, tail => Text.quote s tail
  | .array [], tail => '[' :: ']' :: tail
  | .array (d :: rest), tail => '[' :: d.write (writeItems rest (']' :: tail))
  | .object [], tail => '{' :: '}' :: tail
  | .object ((name, d) :: rest), tail =>
      '{' :: Text.quote name (':' :: ' ' :: d.write (writeFields rest ('}' :: tail)))

def writeItems : List Datum → List Char → List Char
  | [], tail => tail
  | d :: rest, tail => ',' :: ' ' :: d.write (writeItems rest tail)

def writeFields : List (String × Datum) → List Char → List Char
  | [], tail => tail
  | (name, d) :: rest, tail =>
      ',' :: ' ' :: Text.quote name (':' :: ' ' :: d.write (writeFields rest tail))

end

def text (d : Datum) : String := String.ofList (d.write [])

def numberText (x : Double) : String := String.ofList (x.write numberLayout)

end Reql.Datum
