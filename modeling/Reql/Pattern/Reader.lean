import Reql.Pattern.Basic
import Reql.Text.Alphanumeric
import Reql.Text.Hexadecimal

/-!
Reading patterns.

A reader takes the text from where a part of the pattern starts and returns the part with the text
behind it.  Flags can allow blanks and comments in a pattern from some place on, so most readers are
told whether they do; such blanks may even stand between the digits of a number.  Groups and sets are
nested, which is why their readers are bounded by a number that starts at the length of the text.
-/

namespace Reql.Pattern

/-! ### Blanks -/

def skipSpace : (inComment : Bool) → List Char → List Char
  | _, [] => []
  | true, c :: rest => skipSpace (c ≠ '\n') rest
  | false, c :: rest =>
      if Text.isBlank c then skipSpace false rest
      else if c = '#' then skipSpace true rest
      else c :: rest

def skip (spaced : Bool) (cs : List Char) : List Char :=
  if spaced then skipSpace false cs else cs

/-! ### Single characters -/

def readHex (spaced : Bool) : Nat → Nat → List Char → Option (Nat × List Char)
  | 0, n, cs => some (n, cs)
  | count + 1, n, cs =>
      match skip spaced cs with
      | [] => none
      | c :: rest => (Text.hexValue? c).bind fun d => readHex spaced count (n * 16 + d) rest

def readCodePoint (spaced : Bool) (count : Nat) (cs : List Char) :
    Option (Pattern × List Char) := do
  let (n, rest) ← readHex spaced count 0 cs
  let c ← Text.charOf? n
  some (.char c (count = 2), rest)

/-- What a backslash and a letter behind it stand for; every other sign of ASCII that is neither a
letter nor a digit stands for itself.  Properties of characters are not known. -/
def readEscape (spaced : Bool) : List Char → Option (Pattern × List Char)
  | [] => none
  | 'x' :: rest => readCodePoint spaced 2 rest
  | 'u' :: rest => readCodePoint spaced 4 rest
  | 'U' :: rest => readCodePoint spaced 8 rest
  | 'd' :: rest => some (.kind false, rest)
  | 's' :: rest => some (.kind false, rest)
  | 'w' :: rest => some (.kind false, rest)
  | 'D' :: rest => some (.kind true, rest)
  | 'S' :: rest => some (.kind true, rest)
  | 'W' :: rest => some (.kind true, rest)
  | 'A' :: rest => some (.edge, rest)
  | 'z' :: rest => some (.edge, rest)
  | 'b' :: rest => some (.wordEdge, rest)
  | 'B' :: rest => some (.wordEdge, rest)
  | '<' :: rest => some (.wordEdge, rest)
  | '>' :: rest => some (.wordEdge, rest)
  | 'a' :: rest => some (.char '\x07' false, rest)
  | 't' :: rest => some (.char '\t' false, rest)
  | 'n' :: rest => some (.char '\n' false, rest)
  | 'v' :: rest => some (.char '\x0b' false, rest)
  | 'f' :: rest => some (.char '\x0c' false, rest)
  | 'r' :: rest => some (.char '\r' false, rest)
  | c :: rest => if c.toNat < 0x80 ∧ !c.isAlphanum then some (.char c false, rest) else none

/-! ### Sets -/

def classNames : List String :=
  ["alnum", "alpha", "ascii", "blank", "cntrl", "digit", "graph", "lower", "print", "punct", "space",
    "upper", "word", "xdigit"]

def readNamed (cs : List Char) : Option (CharSet × List Char) := do
  let (negated, rest) ← match cs with
    | ':' :: '^' :: rest => some (true, rest)
    | ':' :: rest => some (false, rest)
    | _ => none
  match rest.span fun c => c ≠ ':' with
  | (word, ':' :: ']' :: rest) =>
      if classNames.contains (String.ofList word) then some (.named negated, rest) else none
  | _ => none

/-- One end of a range, or a member by itself. -/
def readAtom (spaced : Bool) : List Char → Option (Pattern × List Char)
  | [] => none
  | '\\' :: rest => readEscape spaced rest
  | c :: rest => some (.char c false, rest)

def asMember? : Pattern → Option CharSet
  | .char c _ => some (.char c)
  | .kind negated => some (.kind negated)
  | _ => none

/-- The character that decides what a hyphen before it means. -/
def afterHyphen? (spaced : Bool) (cs : List Char) : Option Char :=
  if spaced then
    match cs.dropWhile Text.isBlank with
    | '#' :: rest => (rest.dropWhile Text.isBlank).head?
    | rest => rest.head?
  else cs.head?

/-- A range, or a member by itself.  A hyphen makes no range before another one and at the end. -/
def readMember (spaced : Bool) (cs : List Char) : Option (CharSet × List Char) := do
  let (first, rest) ← readAtom spaced cs
  match skip spaced rest with
  | '-' :: rest =>
      if afterHyphen? spaced rest = some ']' ∨ afterHyphen? spaced rest = some '-' then
        let member ← asMember? first
        some (member, '-' :: rest)
      else
        let (last, rest) ← readAtom spaced (skip spaced rest)
        match first, last with
        | .char a _, .char b _ => if a ≤ b then some (.range a b, rest) else none
        | _, _ => none
  | rest => do
      let member ← asMember? first
      some (member, rest)

inductive SetStage
  /-- A closing bracket would be a member. -/
  | opened
  | hyphens
  | inside
  deriving DecidableEq

def combine (before : Option CharSet) (done : List CharSet) : CharSet :=
  let set := CharSet.ofMembers done.reverse
  match before with
  | none => set
  | some left => .combination left set

def splitHat (spaced : Bool) (cs : List Char) : Bool × List Char :=
  match skip spaced cs with
  | '^' :: rest => (true, rest)
  | rest => (false, rest)

/-- The members of a set up to its closing bracket.  `before` is what stands before the last
operator, and `done` are the members read since then, in reverse order. -/
def readSet (spaced : Bool) : Nat → SetStage → Option CharSet → List CharSet → List Char →
    Option (CharSet × List Char)
  | 0, _, _, _, _ => none
  | fuel + 1, stage, before, done, cs =>
      match stage, skip spaced cs with
      | _, [] => none
      | .opened, ']' :: rest => readSet spaced fuel .inside before (.char ']' :: done) rest
      | .opened, '-' :: rest => readSet spaced fuel .hyphens before (.char '-' :: done) rest
      | .hyphens, '-' :: rest => readSet spaced fuel .hyphens before (.char '-' :: done) rest
      | _, ']' :: rest => some (combine before done, rest)
      | _, '[' :: rest =>
          match readNamed rest with
          | some (member, rest) => readSet spaced fuel .inside before (member :: done) rest
          | none => do
              let (negated, rest) := splitHat spaced rest
              let (set, rest) ← readSet spaced fuel .opened none [] rest
              readSet spaced fuel .inside before (.bracketed negated set :: done) rest
      | _, '&' :: '&' :: rest => readSet spaced fuel .inside (some (combine before done)) [] rest
      | _, '-' :: '-' :: rest => readSet spaced fuel .inside (some (combine before done)) [] rest
      | _, '~' :: '~' :: rest => readSet spaced fuel .inside (some (combine before done)) [] rest
      | _, cs => do
          let (member, rest) ← readMember spaced cs
          readSet spaced fuel .inside before (member :: done) rest

/-! ### Groups -/

def Flag.ofChar? : Char → Option Flag
  | 'i' => some .caseless
  | 'm' => some .multiLine
  | 's' => some .dotAll
  | 'U' => some .lazy
  | 'u' => some .unicode
  | 'R' => some .twoCharacterEnds
  | 'x' => some .spaced
  | _ => none

/-- Flags, with the character that ends them: each of them stands once, and those behind a hyphen
are cleared. -/
def readFlags (value : Bool) (done : Flags) : List Char → Option (Flags × Char × List Char)
  | [] => none
  | c :: rest =>
      if c = ')' ∨ c = ':' then some (done, c, rest)
      else if c = '-' then
        match value, rest with
        | true, d :: _ => if d = ')' ∨ d = ':' then none else readFlags false done rest
        | _, _ => none
      else do
        let flag ← Flag.ofChar? c
        if done.any fun old => old.1 = flag then none
        else readFlags value (done ++ [(flag, value)]) rest

def isName : List Char → Bool
  | [] => false
  | c :: rest =>
      (c = '_' || Text.isLetter c) &&
        rest.all fun c => c = '_' || c = '.' || c = '[' || c = ']' || Text.isAlphanumeric c

structure Scope where
  spaced : Bool := false
  names : List String := []

def Scope.switch (scope : Scope) (set : Flags) : Scope :=
  match set.find? fun flag => flag.1 = .spaced with
  | some (_, spaced) => { scope with spaced }
  | none => scope

inductive Opening
  | flags (set : Flags)
  | group (set : Flags)

/-- A name with its closing bracket; no two groups have the same one. -/
def readName (scope : Scope) (cs : List Char) : Option (Opening × Scope × List Char) :=
  match cs.span fun c => c ≠ '>' with
  | (word, '>' :: rest) =>
      let name := String.ofList word
      if isName word ∧ !scope.names.contains name then
        some (.group [], { scope with names := name :: scope.names }, rest)
      else none
  | _ => none

def readOpening (scope : Scope) (cs : List Char) : Option (Opening × Scope × List Char) :=
  match skip scope.spaced cs with
  | '?' :: 'P' :: '<' :: rest => readName scope rest
  | '?' :: '<' :: rest => readName scope rest
  | '?' :: rest => do
      let (set, last, rest) ← readFlags true [] rest
      if last = ':' then some (.group set, scope.switch set, rest)
      else if set.isEmpty then none
      else some (.flags set, scope.switch set, rest)
  | rest => some (.group [], scope, rest)

def isRepeatable : Pattern → Bool
  | .flags _ => false
  | _ => true

/-- The branches of a pattern up to its end, or up to the parenthesis that closes its group.
`branches` are those already read, and `parts` is what has been read of the last one, both in
reverse order. -/
def readBranches : Nat → Scope → List Pattern → List Pattern → List Char →
    Option (Pattern × Scope × List Char)
  | 0, _, _, _, _ => none
  | fuel + 1, scope, branches, parts, cs =>
      let whole := ofBranches (ofParts parts.reverse :: branches).reverse
      match skip scope.spaced cs with
      | [] => some (whole, scope, [])
      | ')' :: rest => some (whole, scope, ')' :: rest)
      | '|' :: rest => readBranches fuel scope (ofParts parts.reverse :: branches) [] rest
      | '(' :: rest => do
          match ← readOpening scope rest with
          | (.flags set, scope, rest) => readBranches fuel scope branches (.flags set :: parts) rest
          | (.group set, inner, rest) =>
              match ← readBranches fuel inner [] [] rest with
              | (p, inner, ')' :: rest) =>
                  readBranches fuel { inner with spaced := scope.spaced } branches
                    (.group set p :: parts) rest
              | _ => none
      | '[' :: rest => do
          let (negated, rest) := splitHat scope.spaced rest
          let (set, rest) ← readSet scope.spaced (rest.length + 1) .opened none [] rest
          readBranches fuel scope branches (.brackets negated set :: parts) rest
      | '\\' :: rest => do
          let (p, rest) ← readEscape scope.spaced rest
          readBranches fuel scope branches (p :: parts) rest
      | '\x7b' :: _ => none
      | c :: rest =>
          if c = '?' ∨ c = '*' ∨ c = '+' then
            match parts with
            | [] => none
            | p :: parts =>
                let rest := match rest with
                  | '?' :: rest => rest
                  | rest => rest
                if isRepeatable p then
                  readBranches fuel scope branches (.repetition p :: parts) rest
                else none
          else if c = '.' then readBranches fuel scope branches (.anyChar :: parts) rest
          else if c = '^' ∨ c = '$' then readBranches fuel scope branches (.edge :: parts) rest
          else readBranches fuel scope branches (.char c false :: parts) rest

def ofText? (cs : List Char) : Option Pattern :=
  match readBranches (cs.length + 1) {} [] [] cs with
  | some (p, _, []) => some p
  | _ => none

end Reql.Pattern
