/-!
Patterns of text: the regular expressions that a log filter may compare a field with.

A pattern is kept as far as its validity depends on it.  Which characters a name such as `alpha`
stands for, how often a part is repeated and what a group is called is therefore not in it, but which
flags are in force where is.
-/

namespace Reql

inductive Pattern.Flag
  | caseless
  | multiLine
  | dotAll
  | lazy
  | unicode
  /-- Line ends may have two characters. -/
  | twoCharacterEnds
  /-- Blanks and comments may stand in the pattern. -/
  | spaced
  deriving DecidableEq

abbrev Pattern.Flags := List (Pattern.Flag × Bool)

inductive Pattern.CharSet
  | empty
  | char (c : Char)
  | range (first last : Char)
  /-- A class with a name between colons, such as `[:alpha:]`. -/
  | named (negated : Bool)
  /-- Digits, blanks or word characters. -/
  | kind (negated : Bool)
  | bracketed (negated : Bool) (set : Pattern.CharSet)
  | union (sets : List Pattern.CharSet)
  /-- An intersection or a difference. -/
  | combination (left right : Pattern.CharSet)
  deriving Inhabited

inductive Pattern
  | empty
  /-- Flags for what follows in the same group. -/
  | flags (set : Pattern.Flags)
  /-- A character; `isByte` tells that it was given by two hexadecimal digits. -/
  | char (c : Char) (isByte : Bool)
  | anyChar
  /-- The beginning or end of a line or of the text, as `wordEdge` is one of a word. -/
  | edge
  | wordEdge
  | kind (negated : Bool)
  | brackets (negated : Bool) (set : Pattern.CharSet)
  | repetition (p : Pattern)
  | group (set : Pattern.Flags) (p : Pattern)
  | sequence (ps : List Pattern)
  | choice (ps : List Pattern)
  deriving Inhabited

namespace Pattern

/-! ### Depth -/

namespace CharSet

mutual

def depth : CharSet → Nat
  | .empty => 0
  | .char _ => 0
  | .range _ _ => 0
  | .named _ => 0
  | .kind _ => 0
  | .bracketed _ set => set.depth + 1
  | .union sets => depthAll sets + 1
  | .combination left right => max left.depth right.depth + 1

def depthAll : List CharSet → Nat
  | [] => 0
  | set :: rest => max set.depth (depthAll rest)

end

/-- `ofMembers` takes one member by itself as it is; so do `ofParts` and `ofBranches`. -/
def ofMembers : List CharSet → CharSet
  | [] => .empty
  | [member] => member
  | members => .union members

end CharSet

mutual

def depth : Pattern → Nat
  | .empty => 0
  | .flags _ => 0
  | .char _ _ => 0
  | .anyChar => 0
  | .edge => 0
  | .wordEdge => 0
  | .kind _ => 0
  | .brackets _ set => set.depth + 1
  | .repetition p => p.depth + 1
  | .group _ p => p.depth + 1
  | .sequence ps => depthAll ps + 1
  | .choice ps => depthAll ps + 1

def depthAll : List Pattern → Nat
  | [] => 0
  | p :: rest => max p.depth (depthAll rest)

end

def ofParts : List Pattern → Pattern
  | [] => .empty
  | [part] => part
  | parts => .sequence parts

def ofBranches : List Pattern → Pattern
  | [branch] => branch
  | branches => .choice branches

end Pattern
end Reql
