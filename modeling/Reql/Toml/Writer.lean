import Reql.Number.Layout

/-!
TOML strings.

A string is written in the plainest form that needs no escapes: between quotes, else between
apostrophes, else between three quotes, else between three apostrophes.  If none of these can hold it
as it is, it is written between quotes with escapes, or between three quotes if it has several lines.
-/

namespace Reql.Toml

def longestRun (c : Char) (s : List Char) : Nat :=
  (s.foldl (fun (run, longest) d =>
    let run := if d = c then run + 1 else 0
    (run, max run longest)) (0, 0)).2

def isControl (c : Char) : Bool :=
  (c.toNat < 0x20 && c ≠ '\t' && c ≠ '\n') || c.toNat = 0x7f

inductive Quotation
  | basic
  | literal
  | longBasic
  | longLiteral
  deriving DecidableEq

namespace Quotation

def delimiter : Quotation → List Char
  | .basic => ['"']
  | .literal => ['\'']
  | .longBasic => ['"', '"', '"']
  | .longLiteral => ['\'', '\'', '\'']

def isLong : Quotation → Bool
  | .longBasic => true
  | .longLiteral => true
  | _ => false

def isBasic : Quotation → Bool
  | .basic => true
  | .longBasic => true
  | _ => false

def choose (s : List Char) : Quotation :=
  let control := s.any isControl
  let backslash := s.contains '\\'
  let lineEnd := s.contains '\n'
  let quotes := longestRun '"' s
  let apostrophes := longestRun '\'' s
  if !control && !backslash && quotes = 0 && !lineEnd then .basic
  else if !control && apostrophes = 0 && !lineEnd then .literal
  else if !control && !backslash && quotes ≤ 2 then .longBasic
  else if !control && apostrophes ≤ 2 then .longLiteral
  else if lineEnd then .longBasic
  else .basic

end Quotation

def hex4 (n : Nat) : List Char :=
  let digits := (Nat.toDigits 16 n).map Char.toUpper
  List.replicate (4 - digits.length) '0' ++ digits

/-- The text of a string in a form with escapes; `quotes` is the number of quotes directly before
it. -/
def escapeFrom (long : Bool) (quotes : Nat) : List Char → List Char
  | [] => []
  | c :: rest =>
      if c = '"' then
        if quotes < (if long then 2 else 0) then '"' :: escapeFrom long (quotes + 1) rest
        else '\\' :: '"' :: escapeFrom long 0 rest
      else if c = '\\' then '\\' :: '\\' :: escapeFrom long 0 rest
      else if c = '\x08' then '\\' :: 'b' :: escapeFrom long 0 rest
      else if c = '\t' then '\\' :: 't' :: escapeFrom long 0 rest
      else if c = '\n' then
        if long then '\n' :: escapeFrom long 0 rest else '\\' :: 'n' :: escapeFrom long 0 rest
      else if c = '\x0c' then '\\' :: 'f' :: escapeFrom long 0 rest
      else if c = '\r' then '\\' :: 'r' :: escapeFrom long 0 rest
      else if isControl c then '\\' :: 'u' :: (hex4 c.toNat ++ escapeFrom long 0 rest)
      else c :: escapeFrom long 0 rest

/-- A string that has several lines begins on a line of its own. -/
def quote (s : String) : String :=
  let cs := s.toList
  let form := Quotation.choose cs
  let start := if form.isLong && cs.contains '\n' then ['\n'] else []
  let body := if form.isBasic then escapeFrom form.isLong 0 cs else cs
  String.ofList (form.delimiter ++ start ++ body ++ form.delimiter)

end Reql.Toml
