import Reql.Pattern.Reader

/-!
Which patterns can be used.

Patterns are compared with text as characters of all scripts, unless a flag turns to bytes.  Nothing
is known about the characters of other scripts: not which of them are letters or digits, nor which
capitals belong to which small letters.  A part that would need this is refused, and so is a part of a
pattern of bytes that could match something that is no text.
-/

namespace Reql.Pattern

structure Mode where
  caseless : Bool := false
  unicode : Bool := true
  deriving DecidableEq

namespace Mode

def assign (m : Mode) : Flag × Bool → Mode
  | (.caseless, value) => { m with caseless := value }
  | (.unicode, value) => { m with unicode := value }
  | _ => m

def switch (m : Mode) (set : Flags) : Mode := set.foldl assign m

end Mode

def isAscii (c : Char) : Bool := c.toNat < 0x80

namespace CharSet

mutual

/-- Whether a set can be used: with all scripts, if capitals matter and nothing has to be known
about them; with bytes, if it has only ASCII characters. -/
def isUsable (m : Mode) : CharSet → Bool
  | .empty => true
  | .char c => if m.unicode then !m.caseless else isAscii c
  | .range first last => if m.unicode then !m.caseless else isAscii first && isAscii last
  | .named negated => if m.unicode then !m.caseless else !negated
  | .kind negated => !m.unicode && !negated
  | .bracketed negated set => set.isUsable m && (m.unicode || !negated)
  | .union sets => areUsable m sets
  | .combination left right => left.isUsable m && right.isUsable m

def areUsable (m : Mode) : List CharSet → Bool
  | [] => true
  | set :: rest => set.isUsable m && areUsable m rest

end

end CharSet

mutual

/-- `check m p` is the mode for what follows `p`, if `p` can be used in the mode `m`. -/
def check (m : Mode) : Pattern → Option Mode
  | .empty => some m
  | .flags set => some (m.switch set)
  | .char c isByte =>
      if if m.unicode then m.caseless else isByte && !isAscii c then none else some m
  | .anyChar => if m.unicode then some m else none
  | .edge => some m
  | .wordEdge => if m.unicode then none else some m
  | .kind negated => if m.unicode || negated then none else some m
  | .brackets negated set => if (CharSet.bracketed negated set).isUsable m then some m else none
  | .repetition p => check m p
  | .group set p => (check (m.switch set) p).map fun _ => m
  | .sequence ps => checkAll m ps
  | .choice ps => checkAll m ps

def checkAll (m : Mode) : List Pattern → Option Mode
  | [] => some m
  | p :: rest => (check m p).bind fun m => checkAll m rest

end

def depthLimit : Nat := 250

def isValid (cs : List Char) : Bool :=
  match ofText? cs with
  | some p => p.depth ≤ depthLimit && (check {} p).isSome
  | none => false

end Reql.Pattern
