import Reql.Json.Basic
import Reql.Number.Numeral
import Reql.Text.Hexadecimal

/-!
Reading JSON text.

The reader follows the grammar strictly: no trailing commas, no leading zeros, no control characters
inside strings, nothing but blanks after the value.  It stops at the first problem from left to
right, and a problem is of one of two kinds: the text ends too early, or it goes on in a way that no
value does.  A number that is too large to be finite is a problem of the second kind.

Arrays and objects may be nested to any depth.  The recursion is bounded by a number that starts at
the length of the text; every step into an element has read at least one character before.
-/

namespace Reql.Json

inductive Fault
  | truncated
  | malformed
  deriving DecidableEq

def isBlank (c : Char) : Bool := c = ' ' || c = '\t' || c = '\n' || c = '\r'

def skipBlanks (cs : List Char) : List Char := cs.dropWhile isBlank

/-- `faultAt rest` is the fault of a text with `rest` where something else was needed. -/
def faultAt (rest : List Char) : Fault := if rest.isEmpty then .truncated else .malformed

def readWord (v : Json) : List Char → List Char → Except Fault (Json × List Char)
  | [], rest => .ok (v, rest)
  | w :: word, c :: rest => if c = w then readWord v word rest else .error .malformed
  | _ :: _, [] => .error .truncated

/-! ### Numbers -/

/-- `ofLiteral` gives an integer if the literal has neither fraction nor exponent and fits, and
otherwise the nearest floating-point number.  Literals are rounded exactly, by `Double.ofDecimal`,
where the default reader of the JSON library may be one unit off on a long literal.  The literal `-0`
is a floating-point number, as no integer has a negative zero. -/
def Number.ofLiteral (negative : Bool) (whole : List Char) (fraction : List Char)
    (exponent : Option Int) : Except Fault Number :=
  let n := readDigits 0 whole
  let asFloat : Except Fault Number :=
    let d : Decimal := ⟨readDigits n fraction, exponent.getD 0 - fraction.length⟩
    match ofDouble? (.ofDecimal negative d) with
    | some result => .ok result
    | none => .error .malformed
  if fraction.isEmpty && exponent.isNone then
    if negative && n == 0 then asFloat
    else match ofInt? (if negative then -(n : Int) else n) with
      | some result => .ok result
      | none => asFloat
  else asFloat

def readDigitRun (cs : List Char) : Except Fault (List Char × List Char) :=
  let (digits, rest) := spanDigits cs
  if digits.isEmpty then .error (faultAt rest) else .ok (digits, rest)

def readFraction : List Char → Except Fault (List Char × List Char)
  | '.' :: rest => readDigitRun rest
  | rest => .ok ([], rest)

def readExponent : List Char → Except Fault (Option Int × List Char)
  | c :: rest =>
      if c = 'e' ∨ c = 'E' then do
        let (negative, rest) := splitSign rest
        let (digits, rest) ← readDigitRun rest
        let n : Int := readDigits 0 digits
        .ok (some (if negative then -n else n), rest)
      else .ok (none, c :: rest)
  | [] => .ok (none, [])

/-- The integer part of a number is a single zero or does not start with one. -/
def readNumber (cs : List Char) : Except Fault (Json × List Char) := do
  let (negative, rest) := match cs with
    | '-' :: rest => (true, rest)
    | rest => (false, rest)
  let (whole, rest) ← readDigitRun rest
  if whole.head? = some '0' ∧ 1 < whole.length then .error .malformed
  let (fraction, rest) ← readFraction rest
  let (exponent, rest) ← readExponent rest
  let result ← Number.ofLiteral negative whole fraction exponent
  .ok (.number result, rest)

/-! ### Strings -/

/-- Four hexadecimal digits.  A text counts as cut off when fewer than four bytes are left. -/
def readHex : List Char → Except Fault (Nat × List Char)
  | a :: b :: c :: d :: rest =>
      match Text.hexValue? a, Text.hexValue? b, Text.hexValue? c, Text.hexValue? d with
      | some a, some b, some c, some d => .ok (((a * 16 + b) * 16 + c) * 16 + d, rest)
      | _, _, _, _ => .error .malformed
  | rest => .error (if rest.foldr (fun c n => c.utf8Size + n) 0 < 4 then .truncated else .malformed)

/-- The character that `\u` and what follows it stand for; a high surrogate needs a low one in a
second escape behind it. -/
def readUnicode (cs : List Char) : Except Fault (Char × List Char) := do
  let (n, rest) ← readHex cs
  if 0xDC00 ≤ n ∧ n ≤ 0xDFFF then .error .malformed
  else if 0xD800 ≤ n ∧ n ≤ 0xDBFF then
    match rest with
    | '\\' :: 'u' :: rest =>
        let (m, rest) ← readHex rest
        if 0xDC00 ≤ m ∧ m ≤ 0xDFFF then
          .ok (Char.ofNat (0x10000 + (n - 0xD800) * 0x400 + (m - 0xDC00)), rest)
        else .error .malformed
    | '\\' :: rest => .error (faultAt rest)
    | rest => .error (faultAt rest)
  else .ok (Char.ofNat n, rest)

def readEscape : List Char → Except Fault (Char × List Char)
  | [] => .error .truncated
  | '"' :: rest => .ok ('"', rest)
  | '\\' :: rest => .ok ('\\', rest)
  | '/' :: rest => .ok ('/', rest)
  | 'b' :: rest => .ok ('\x08', rest)
  | 'f' :: rest => .ok ('\x0c', rest)
  | 'n' :: rest => .ok ('\n', rest)
  | 'r' :: rest => .ok ('\r', rest)
  | 't' :: rest => .ok ('\t', rest)
  | 'u' :: rest => readUnicode rest
  | _ :: _ => .error .malformed

/-- `readString` reads a string after its opening quote; the characters already read stand in reverse
order, as do the elements in `readItems`. -/
def readString : Nat → List Char → List Char → Except Fault (String × List Char)
  | 0, _, _ => .error .truncated
  | _ + 1, _, [] => .error .truncated
  | fuel + 1, done, c :: rest =>
      if c = '"' then .ok (String.ofList done.reverse, rest)
      else if c = '\\' then do
        let (c, rest) ← readEscape rest
        readString fuel (c :: done) rest
      else if c.toNat < 0x20 then .error .malformed
      else readString fuel (c :: done) rest

/-! ### Values -/

def readName (fuel : Nat) : List Char → Except Fault (String × List Char)
  | '"' :: rest => do
      let (name, rest) ← readString fuel [] rest
      match skipBlanks rest with
      | ':' :: rest => .ok (name, skipBlanks rest)
      | rest => .error (faultAt rest)
  | rest => .error (faultAt rest)

mutual

def readValue : Nat → List Char → Except Fault (Json × List Char)
  | 0, _ => .error .truncated
  | _ + 1, [] => .error .truncated
  | fuel + 1, c :: rest =>
      if c = 'n' then readWord .null ['u', 'l', 'l'] rest
      else if c = 't' then readWord (.bool true) ['r', 'u', 'e'] rest
      else if c = 'f' then readWord (.bool false) ['a', 'l', 's', 'e'] rest
      else if c = '"' then do
        let (s, rest) ← readString fuel [] rest
        .ok (.string s, rest)
      else if c = '[' then
        match skipBlanks rest with
        | ']' :: rest => .ok (.array [], rest)
        | rest => do
            let (v, rest) ← readValue fuel rest
            readItems fuel [v] rest
      else if c = '{' then
        match skipBlanks rest with
        | '}' :: rest => .ok (.object [], rest)
        | rest => do
            let (name, rest) ← readName fuel rest
            let (v, rest) ← readValue fuel rest
            readFields fuel [(name, v)] rest
      else if c = '-' ∨ c.isDigit then readNumber (c :: rest)
      else .error .malformed

def readItems : Nat → List Json → List Char → Except Fault (Json × List Char)
  | 0, _, _ => .error .truncated
  | fuel + 1, done, cs =>
      match skipBlanks cs with
      | ']' :: rest => .ok (.array done.reverse, rest)
      | ',' :: rest => do
          let (v, rest) ← readValue fuel (skipBlanks rest)
          readItems fuel (v :: done) rest
      | rest => .error (faultAt rest)

def readFields : Nat → List (String × Json) → List Char → Except Fault (Json × List Char)
  | 0, _, _ => .error .truncated
  | fuel + 1, done, cs =>
      match skipBlanks cs with
      | '}' :: rest => .ok (.object done, rest)
      | ',' :: rest => do
          let (name, rest) ← readName fuel (skipBlanks rest)
          let (v, rest) ← readValue fuel rest
          readFields fuel (Fields.insert done name v) rest
      | rest => .error (faultAt rest)

end

def read (text : String) : Except Fault Json := do
  let cs := skipBlanks text.toList
  let (v, rest) ← readValue (cs.length + 1) cs
  match skipBlanks rest with
  | [] => .ok v
  | _ :: _ => .error .malformed

end Reql.Json
