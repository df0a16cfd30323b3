import Reql.Text.CharacterClass

/-!
Strings as they are shown to a reader.

A shown string stands in double quotes.  Quotes, backslashes and the usual control characters have
short escapes; every other character that would be invisible, or would attach itself to the one
before it, is given by its code point.
-/

namespace Reql.Text

def hexDigits (n : Nat) : List Char := Nat.toDigits 16 n

def codePoint (c : Char) : List Char :=
  ['\\', 'u', '{'] ++ hexDigits c.toNat ++ ['}']

def shown (c : Char) : List Char :=
  if c = '"' then ['\\', '"']
  else if c = '\\' then ['\\', '\\']
  else if c = '\n' then ['\\', 'n']
  else if c = '\r' then ['\\', 'r']
  else if c = '\t' then ['\\', 't']
  else if c = '\x00' then ['\\', '0']
  else if c.toNat < 0x20 ∨ c.toNat = 0x7f then codePoint c
  else if c.toNat < 0x80 then [c]
  else if isInvisible c || isExtending c then codePoint c
  else [c]

def quote (s : String) (tail : List Char) : List Char :=
  '"' :: (s.toList.flatMap shown ++ '"' :: tail)

end Reql.Text
