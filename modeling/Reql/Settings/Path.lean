import Reql.Number.Numeral
import Reql.Number.Range
import Reql.Toml.Scalar

/-!
Paths of settings.

A path leads from all settings together to a single one: it starts with a name, and goes on with
points and further names, which lead into sections, and with numbers in brackets, which lead into
lists.  A text that is not written like this is itself one name.
-/

namespace Reql

inductive PathStep
  | name (s : String)
  /-- A step into a list; negative numbers count from the end. -/
  | index (i : Int)
  deriving DecidableEq

namespace PathStep

def isNameChar (c : Char) : Bool := c.isAlphanum || c = '_' || c = '-' || c = ' '

/-- A number after its opening bracket: blanks may stand on both sides of it, it may have a minus
sign, and it fits a signed number of 64 bits. -/
def readIndex (cs : List Char) : Option (Int × List Char) :=
  let (negative, rest) := match Toml.skipBlanks cs with
    | '-' :: rest => (true, rest)
    | rest => (false, rest)
  let (digits, rest) := spanDigits rest
  let n : Int := readDigits 0 digits
  let i := if negative then -n else n
  match Toml.skipBlanks rest with
  | ']' :: rest => if !digits.isEmpty ∧ InSignedRange i then some (i, rest) else none
  | _ => none

def readAll : Nat → List Char → Option (List PathStep)
  | 0, _ => none
  | _ + 1, [] => some []
  | fuel + 1, '.' :: rest => do
      let (word, rest) := rest.span isNameChar
      if word.isEmpty then none
      else
        let steps ← readAll fuel rest
        some (.name (String.ofList word) :: steps)
  | fuel + 1, '[' :: rest => do
      let (i, rest) ← readIndex rest
      let steps ← readAll fuel rest
      some (.index i :: steps)
  | _ + 1, _ => none

/-- A text that `readAll` does not take up as a whole is a single name. -/
def ofText (text : String) : List PathStep :=
  let (word, rest) := text.toList.span isNameChar
  match if word.isEmpty then none else readAll (rest.length + 1) rest with
  | some steps => .name (String.ofList word) :: steps
  | none => [.name text]

end PathStep
end Reql
