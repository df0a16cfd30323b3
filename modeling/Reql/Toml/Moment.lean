import Reql.Number.Numeral
import Reql.Toml.Basic

/-!
Dates and times of TOML, in their normal form.

A moment is a date, a time of day, or both with a `T` between them, and in the last case it may end in
the distance of the clock from universal time.  Inside a document it is written out in place; a table
whose first name is `momentMark` holds one as a string, for which the rules differ a little.
-/

namespace Reql.Toml

def readFixed (count : Nat) (cs : List Char) : Option (Nat × List Char) :=
  let digits := cs.take count
  if digits.length = count ∧ digits.all Char.isDigit then
    some (readDigits 0 digits, cs.drop count)
  else none

def expect (c : Char) : List Char → Option (List Char)
  | d :: rest => if d = c then some rest else none
  | [] => none

def padded (count n : Nat) : List Char :=
  let digits := natDigits n
  List.replicate (count - digits.length) '0' ++ digits

/-! ### Parts -/

def daysOf (year month : Nat) : Nat :=
  if month = 2 then
    if year % 4 = 0 ∧ (year % 100 ≠ 0 ∨ year % 400 = 0) then 29 else 28
  else if month = 4 ∨ month = 6 ∨ month = 9 ∨ month = 11 then 30
  else 31

def readDate (cs : List Char) : Option (List Char × List Char) := do
  let (year, rest) ← readFixed 4 cs
  let rest ← expect '-' rest
  let (month, rest) ← readFixed 2 rest
  let rest ← expect '-' rest
  let (day, rest) ← readFixed 2 rest
  if 1 ≤ month ∧ month ≤ 12 ∧ 1 ≤ day ∧ day ≤ daysOf year month then
    some (padded 4 year ++ '-' :: (padded 2 month ++ '-' :: padded 2 day), rest)
  else none

/-- A fraction of a second is cut to nine digits, and has no trailing zeros. -/
def fractionText (digits : List Char) : List Char :=
  match ((digits.take 9).reverse.dropWhile fun c => c = '0').reverse with
  | [] => []
  | digits => '.' :: digits

def readTime (lastHour : Nat) (cs : List Char) : Option (List Char × List Char) := do
  let (hour, rest) ← readFixed 2 cs
  let rest ← expect ':' rest
  let (minute, rest) ← readFixed 2 rest
  let rest ← expect ':' rest
  let (second, rest) ← readFixed 2 rest
  let (fraction, rest) ← match rest with
    | '.' :: rest =>
        let (digits, rest) := spanDigits rest
        if digits.isEmpty then none else some (digits, rest)
    | rest => some ([], rest)
  if hour ≤ lastHour ∧ minute ≤ 59 ∧ second ≤ 60 then
    some (padded 2 hour ++ ':' :: (padded 2 minute ++ ':' :: padded 2 second) ++
      fractionText fraction, rest)
  else none

/-- The distance of a clock from universal time, nothing if it is not given.  The hours and minutes
that are allowed are given by a test; they are written with less than sixty minutes. -/
def readOffset (allowed : Nat → Nat → Bool) (cs : List Char) : Option (List Char × List Char) :=
  let numbered (sign : Char) (cs : List Char) : Option (List Char × List Char) := do
    let (hour, rest) ← readFixed 2 cs
    let rest ← expect ':' rest
    let (minute, rest) ← readFixed 2 rest
    if allowed hour minute then
      let total := hour * 60 + minute
      let sign := if total = 0 then '+' else sign
      some (sign :: (padded 2 (total / 60) ++ ':' :: padded 2 (total % 60)), rest)
    else none
  match cs with
  | 'Z' :: rest => some (['Z'], rest)
  | 'z' :: rest => some (['Z'], rest)
  | '+' :: rest => numbered '+' rest
  | '-' :: rest => numbered '-' rest
  | rest => some ([], rest)

def isTimeMark (c : Char) : Bool := c = 'T' || c = 't' || c = ' '

/-! ### In a document -/

def readMoment (cs : List Char) : Option (String × List Char) :=
  match readDate cs with
  | some (date, c :: rest) =>
      match if isTimeMark c then readTime 23 rest else none with
      | some (time, rest) => do
          let (offset, rest) ← readOffset (fun hour minute => hour ≤ 23 && minute ≤ 59) rest
          some (String.ofList (date ++ 'T' :: (time ++ offset)), rest)
      | none => some (String.ofList date, c :: rest)
  | some (date, []) => some (String.ofList date, [])
  | none => (readTime 23 cs).map fun (time, rest) => (String.ofList time, rest)

/-! ### In a marked table -/

def momentMark : String := "$__toml_private_datetime"

def momentOf? (text : String) : Option String := do
  let cs := text.toList
  let (cs, rest) ←
    if cs[2]? = some ':' then readTime 24 cs
    else do
      let (date, rest) ← readDate cs
      match rest with
      | [] => some (date, [])
      | c :: rest =>
          if isTimeMark c then do
            let (time, rest) ← readTime 24 rest
            let (offset, rest) ←
              readOffset (fun hour minute => hour * 60 + minute ≤ 1440) rest
            some (date ++ 'T' :: (time ++ offset), rest)
          else none
  if rest.isEmpty then some (String.ofList cs) else none

/-- The moment for which a table stands, if `momentMark` says that it stands for one; its further
names mean nothing. -/
def markedMoment? : List (String × Toml) → Option (Option String)
  | (name, value) :: _ =>
      if name = momentMark then
        match value with
        | .string s => some (momentOf? s)
        | _ => some none
      else none
  | [] => none

end Reql.Toml
