import Reql.Number.Numeral
import Reql.Pattern.Validity

/-!
Log filters.

A filter is a list of directives with commas between them.  A directive is a level, or a target that
may be followed by a span in brackets with a field in braces, and by an equals sign with a level.  A
field is a name, and may be compared with a number, a truth value or a pattern.
-/

namespace Reql.LogFilter

def levelNames : List String := ["off", "error", "warn", "info", "debug", "trace"]

/-- A level is given by its name or its number; nothing at all stands for a level too. -/
def isLevel (cs : List Char) : Bool :=
  let word := String.ofList (cs.map Char.toLower)
  let number := match cs with
    | '+' :: digits => digits
    | digits => digits
  cs.isEmpty || levelNames.contains word ||
    (!number.isEmpty && number.all Char.isDigit && readDigits 0 number ≤ 5)

/-- A field is compared with a number, or with a pattern, as truth values are too. -/
def isFieldValue (cs : List Char) : Bool :=
  (Numeral.read? (String.ofList cs)).isSome || Pattern.isValid cs

/-- A field: a name, and after an equals sign a value; a second equals sign ends the value. -/
def isField (cs : List Char) : Bool :=
  match cs.splitOn '=' with
  | _ :: value :: _ => isFieldValue value
  | _ => true

/-! ### Places -/

def fromByte : Nat → List Char → List Char
  | _, [] => []
  | start, c :: rest => if start = 0 then c :: rest else fromByte (start - c.utf8Size) rest

def takeBytes : Nat → List Char → List Char
  | _, [] => []
  | count, c :: rest => if count = 0 then [] else c :: takeBytes (count - c.utf8Size) rest

/-! ### Directives -/

/-- How far a directive has been read.  Parts that matter later are given by where they start. -/
inductive State
  | start
  | levelOrTarget
  | span
  | field (start : Nat)
  | fields
  | target
  | level (start : Nat)
  deriving DecidableEq

def isFirst (c : Char) : Bool :=
  c = '-' || c = ':' || c = '_' || Text.isAlphanumeric c

/-- `next directive state place c` reads the character `c` at a place.  A field is not empty, and
its text is what stands at the same place of the directive with the blanks around it. -/
def next (directive : List Char) (state : State) (place : Nat) (c : Char) : Option State :=
  match state with
  | .start => if c = '[' then some .span else if isFirst c then some .levelOrTarget else none
  | .levelOrTarget =>
      if c = '=' then some (.level (place + 1))
      else if c = '[' then some .span
      else some .levelOrTarget
  | .span =>
      if c = ']' then some .target else if c = '\x7b' then some (.field (place + 1)) else some .span
  | .field start =>
      if c = '\x7d' then
        if start < place ∧ isField (takeBytes (place - start) (fromByte start directive)) then
          some .fields
        else none
      else some (.field start)
  | .fields => if c = ']' then some .target else none
  | .target => if c = '=' then some (.level (place + 1)) else none
  | .level start => some (.level start)

def readFrom (directive : List Char) (state : State) (place : Nat) : List Char → Option State
  | [] => some state
  | c :: rest =>
      match next directive state place c with
      | some state => readFrom directive state (place + c.utf8Size) rest
      | none => none

/-- A directive is read without the blanks around it; a level at its end, however, is what stands at
the same place of the directive with them. -/
def isDirective (cs : List Char) : Bool :=
  match readFrom cs .start 0 (Text.trim cs) with
  | some .levelOrTarget => true
  | some .target => true
  | some (.level start) => isLevel (fromByte start cs)
  | _ => false

/-- A filter has directives, of which those that are empty mean nothing. -/
def isValid (text : String) : Bool :=
  (text.toList.splitOn ',').all fun cs => cs.isEmpty || isDirective cs

end Reql.LogFilter
