import Reql.Number.Range
import Reql.Text.Hexadecimal
import Reql.Toml.Moment

/-!
The scalars of TOML: strings, numbers, dates and times.

A reader takes the text from where the scalar starts and returns the scalar with the text behind it.
Numbers are read from the longest run of characters that can occur in one; that nothing follows which
would make it longer is then clear.
-/

namespace Reql.Toml

def isBlank (c : Char) : Bool := c = ' ' || c = '\t'

def skipBlanks (cs : List Char) : List Char := cs.dropWhile isBlank

def isPlain (c : Char) : Bool := c = '\t' || (0x20 ≤ c.toNat && c.toNat ≠ 0x7f)

/-! ### Strings -/

def escapeOf? : Char → Option Char
  | 'b' => some '\x08'
  | 't' => some '\t'
  | 'n' => some '\n'
  | 'f' => some '\x0c'
  | 'r' => some '\r'
  | '"' => some '"'
  | '\\' => some '\\'
  | _ => none

def readBasic (done : List Char) : List Char → Option (String × List Char)
  | [] => none
  | '"' :: rest => some (String.ofList done.reverse, rest)
  | '\\' :: 'u' :: a :: b :: c :: d :: rest =>
      match (Text.hexOf? [a, b, c, d]).bind Text.charOf? with
      | some c => readBasic (c :: done) rest
      | none => none
  | '\\' :: 'U' :: a :: b :: c :: d :: e :: f :: g :: h :: rest =>
      match (Text.hexOf? [a, b, c, d, e, f, g, h]).bind Text.charOf? with
      | some c => readBasic (c :: done) rest
      | none => none
  | '\\' :: c :: rest =>
      match escapeOf? c with
      | some c => readBasic (c :: done) rest
      | none => none
  | c :: rest => if isPlain c && c ≠ '\\' then readBasic (c :: done) rest else none

def readLiteral (done : List Char) : List Char → Option (String × List Char)
  | [] => none
  | '\'' :: rest => some (String.ofList done.reverse, rest)
  | c :: rest => if isPlain c then readLiteral (c :: done) rest else none

inductive Folding
  | text
  /-- The blanks behind a backslash, which have to end the line. -/
  | lineEnd
  /-- The blanks and line ends after such a line. -/
  | margin
  deriving DecidableEq

/-- A string between triple quotes, after the first three.  Up to two quotes may stand at the end of
the text, directly before the closing ones. -/
def readLongBasic (folding : Folding) (done : List Char) : List Char → Option (String × List Char)
  | [] => none
  | '\r' :: '\n' :: rest =>
      match folding with
      | .text => readLongBasic .text ('\n' :: done) rest
      | _ => readLongBasic .margin done rest
  | '\n' :: rest =>
      match folding with
      | .text => readLongBasic .text ('\n' :: done) rest
      | _ => readLongBasic .margin done rest
  | c :: rest =>
      if folding ≠ .text ∧ isBlank c then readLongBasic folding done rest
      else if folding = .lineEnd then none
      else match c, rest with
        | '"', '"' :: '"' :: '"' :: '"' :: rest =>
            some (String.ofList ('"' :: '"' :: done).reverse, rest)
        | '"', '"' :: '"' :: '"' :: rest => some (String.ofList ('"' :: done).reverse, rest)
        | '"', '"' :: '"' :: rest => some (String.ofList done.reverse, rest)
        | '\\', 'u' :: a :: b :: c :: d :: rest =>
            match (Text.hexOf? [a, b, c, d]).bind Text.charOf? with
            | some c => readLongBasic .text (c :: done) rest
            | none => none
        | '\\', 'U' :: a :: b :: c :: d :: e :: f :: g :: h :: rest =>
            match (Text.hexOf? [a, b, c, d, e, f, g, h]).bind Text.charOf? with
            | some c => readLongBasic .text (c :: done) rest
            | none => none
        | '\\', '\n' :: rest => readLongBasic .margin done rest
        | '\\', '\r' :: '\n' :: rest => readLongBasic .margin done rest
        | '\\', c :: rest =>
            if isBlank c then readLongBasic .lineEnd done rest
            else match escapeOf? c with
              | some c => readLongBasic .text (c :: done) rest
              | none => none
        | '\\', [] => none
        | c, rest => if isPlain c then readLongBasic .text (c :: done) rest else none

def readLongLiteral (done : List Char) : List Char → Option (String × List Char)
  | [] => none
  | '\'' :: '\'' :: '\'' :: '\'' :: '\'' :: rest =>
      some (String.ofList ('\'' :: '\'' :: done).reverse, rest)
  | '\'' :: '\'' :: '\'' :: '\'' :: rest => some (String.ofList ('\'' :: done).reverse, rest)
  | '\'' :: '\'' :: '\'' :: rest => some (String.ofList done.reverse, rest)
  | '\r' :: '\n' :: rest => readLongLiteral ('\n' :: done) rest
  | '\n' :: rest => readLongLiteral ('\n' :: done) rest
  | c :: rest => if isPlain c then readLongLiteral (c :: done) rest else none

def dropLineEnd : List Char → List Char
  | '\n' :: rest => rest
  | '\r' :: '\n' :: rest => rest
  | rest => rest

def readString : List Char → Option (String × List Char)
  | '"' :: '"' :: '"' :: rest => readLongBasic .text [] (dropLineEnd rest)
  | '"' :: rest => readBasic [] rest
  | '\'' :: '\'' :: '\'' :: rest => readLongLiteral [] (dropLineEnd rest)
  | '\'' :: rest => readLiteral [] rest
  | _ => none

/-! ### Numbers -/

/-- Single underscores may stand between digits. -/
def digitsOf? (isDigit : Char → Bool) : List Char → Option (List Char)
  | [] => none
  | [c] => if isDigit c then some [c] else none
  | c :: '_' :: rest => if isDigit c then (digitsOf? isDigit rest).map (c :: ·) else none
  | c :: rest => if isDigit c then (digitsOf? isDigit rest).map (c :: ·) else none

/-- The whole part of a number does not start with a superfluous zero. -/
def wholeOf? (cs : List Char) : Option (List Char) :=
  match digitsOf? Char.isDigit cs with
  | some ('0' :: _ :: _) => none
  | digits => digits

def fitting? (n : Int) : Option Int := if InSignedRange n then some n else none

def inBase (base : Nat) (digits : List Char) : Nat :=
  digits.foldl (fun n c => n * base + (Text.hexValue? c).getD 0) 0

def integerOf? (cs : List Char) : Option Int :=
  match cs with
  | '0' :: 'x' :: rest =>
      (digitsOf? (fun c => (Text.hexValue? c).isSome) rest).bind fun ds => fitting? (inBase 16 ds)
  | '0' :: 'o' :: rest =>
      (digitsOf? (fun c => '0' ≤ c && c ≤ '7') rest).bind fun ds => fitting? (inBase 8 ds)
  | '0' :: 'b' :: rest =>
      (digitsOf? (fun c => c = '0' || c = '1') rest).bind fun ds => fitting? (inBase 2 ds)
  | cs =>
      let (negative, rest) := splitSign cs
      (wholeOf? rest).bind fun ds =>
        let n : Int := readDigits 0 ds
        fitting? (if negative then -n else n)

def exponentOf? (cs : List Char) : Option Int :=
  let (negative, rest) := splitSign cs
  (digitsOf? Char.isDigit rest).map fun ds =>
    let n : Int := readDigits 0 ds
    if negative then -n else n

/-- A floating-point number: one with a fraction or an exponent, or one of the words for the special
values.  A number too large to be finite is accepted only if it is negative. -/
def floatOf? (cs : List Char) : Option Double :=
  let (negative, rest) := splitSign cs
  if rest = ['i', 'n', 'f'] then some (.infinite negative)
  else if rest = ['n', 'a', 'n'] then some .nan
  else
    let (mantissa, tail) := rest.span fun c => c ≠ 'e' && c ≠ 'E'
    let (whole, fraction) := mantissa.span fun c => c ≠ '.'
    if tail.isEmpty && fraction.isEmpty then none
    else do
      let whole ← wholeOf? whole
      let fraction ← match fraction with
        | [] => some []
        | _ :: digits => digitsOf? Char.isDigit digits
      let exponent ← match tail with
        | [] => some 0
        | _ :: digits => exponentOf? digits
      let d : Decimal := ⟨readDigits (readDigits 0 whole) fraction, exponent - fraction.length⟩
      let x := Double.ofDecimal negative d
      if x.isFinite || negative then some x else none

def isWordChar (c : Char) : Bool :=
  c.isAlphanum || c = '+' || c = '-' || c = '_' || c = '.' || c = ':'

/-! ### All of them -/

def readPlain (cs : List Char) : Option (Toml × List Char) :=
  match readMoment cs with
  | some (s, rest) => some (.moment s, rest)
  | none =>
      let (word, rest) := cs.span isWordChar
      if word = ['t', 'r', 'u', 'e'] then some (.boolean true, rest)
      else if word = ['f', 'a', 'l', 's', 'e'] then some (.boolean false, rest)
      else match floatOf? word with
        | some x => some (.float x, rest)
        | none => (integerOf? word).map fun n => (.integer n, rest)

end Reql.Toml
