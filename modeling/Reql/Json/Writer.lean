import Reql.Json.Basic

/-!
JSON text.

A value is written in front of a given rest, so that a text is built from its end without copying.
There are two layouts: compact, and one element to a line with two spaces for each level.  In both,
an empty array or object is written in two characters.
-/

namespace Reql.Json

/-- Numbers are written positionally from `0.00001` up to sixteen digits before the point, and show
by a point or an exponent that they are not integers. -/
def numberLayout : Layout :=
  { leastPositional := -5, greatestPositional := 15, keepPoint := true, plusSign := true,
    tie := .toEven }

def singleLayout : Layout :=
  { leastPositional := -6, greatestPositional := 12, keepPoint := true, plusSign := true,
    tie := .toEven }

def Number.digits : Number → List Char
  | .integer n _ => intDigits n
  | .float x _ => x.write numberLayout

def hexDigit (n : Nat) : Char :=
  if n < 10 then Char.ofNat ('0'.toNat + n) else Char.ofNat ('a'.toNat + (n - 10))

def escape (c : Char) : List Char :=
  if c = '"' then ['\\', '"']
  else if c = '\\' then ['\\', '\\']
  else if c = '\x08' then ['\\', 'b']
  else if c = '\t' then ['\\', 't']
  else if c = '\n' then ['\\', 'n']
  else if c = '\x0c' then ['\\', 'f']
  else if c = '\r' then ['\\', 'r']
  else if c.toNat < 0x20 then
    ['\\', 'u', '0', '0', hexDigit (c.toNat / 16), hexDigit (c.toNat % 16)]
  else [c]

def writeString (s : String) (tail : List Char) : List Char :=
  '"' :: (s.toList.flatMap escape ++ '"' :: tail)

inductive Style
  | compact
  | indented (level : Nat)
  deriving DecidableEq

namespace Style

def deeper : Style → Style
  | .compact => .compact
  | .indented level => .indented (level + 1)

/-- `s.gap` stands between a bracket or comma and the next element, and `s.colon` between a name and
its value. -/
def gap : Style → List Char
  | .compact => []
  | .indented level => '\n' :: List.replicate (2 * level) ' '

def colon : Style → List Char
  | .compact => [':']
  | .indented _ => [':', ' ']

end Style

mutual

def write : Json → Style → List Char → List Char
  | .null, _, tail => 'n' :: 'u' :: 'l' :: 'l' :: tail
  | .bool true, _, tail => 't' :: 'r' :: 'u' :: 'e' :: tail
  | .bool false, _, tail => 'f' :: 'a' :: 'l' :: 's' :: 'e' :: tail
  | .number n, _, tail => n.digits ++ tail
  | .string s, _, tail => writeString s tail
  | .array [], _, tail => '[' :: ']' :: tail
  | .array (v :: rest), style, tail =>
      '[' :: (style.deeper.gap ++
        v.write style.deeper (writeItems rest style.deeper (style.gap ++ ']' :: tail)))
  | .object [], _, tail => '{' :: '}' :: tail
  | .object ((name, v) :: rest), style, tail =>
      '{' :: (style.deeper.gap ++ writeString name (style.colon ++
        v.write style.deeper (writeFields rest style.deeper (style.gap ++ '}' :: tail))))

def writeItems : List Json → Style → List Char → List Char
  | [], _, tail => tail
  | v :: rest, style, tail => ',' :: (style.gap ++ v.write style (writeItems rest style tail))

def writeFields : List (String × Json) → Style → List Char → List Char
  | [], _, tail => tail
  | (name, v) :: rest, style, tail =>
      ',' :: (style.gap ++ writeString name (style.colon ++
        v.write style (writeFields rest style tail)))

end

def text (v : Json) : String := String.ofList (v.write .compact [])

def prettyText (v : Json) : String := String.ofList (v.write (.indented 0) [])

end Reql.Json
