import Reql.Term.Basic
import Reql.Datum.Display

/-!
Terms laid out as an indented tree.

An operation is shown by its name with its children in parentheses, one to a line and one level
further in; the children are separated by commas.  An option stands behind its name and an equals
sign.  A datum is shown on the line of its own.
-/

namespace Reql.Term

def margin (level : Nat) : List Char := List.replicate (2 * level) ' '

mutual

/-- `t.writeTree level rest` is the tree of `t` in front of `rest`; `level` is the level of the line
on which it starts, whose space has already been written. -/
def writeTree : Term → Nat → List Char → List Char
  | .datum value, _, tail => value.write tail
  | .node kind args options, level, tail =>
      kind.name.toList ++ '(' ::
        match args, options with
        | [], [] => ')' :: tail
        | [], (name, t) :: rest =>
            '\n' :: (margin (level + 1) ++ (name.toList ++ '=' :: t.writeTree (level + 1)
              (writeOptions rest (level + 1) ('\n' :: (margin level ++ ')' :: tail)))))
        | t :: rest, options =>
            '\n' :: (margin (level + 1) ++ t.writeTree (level + 1)
              (writeArgs rest (level + 1)
                (writeOptions options (level + 1) ('\n' :: (margin level ++ ')' :: tail)))))

def writeArgs : List Term → Nat → List Char → List Char
  | [], _, tail => tail
  | t :: rest, level, tail =>
      ',' :: '\n' :: (margin level ++ t.writeTree level (writeArgs rest level tail))

def writeOptions : List (String × Term) → Nat → List Char → List Char
  | [], _, tail => tail
  | (name, t) :: rest, level, tail =>
      ',' :: '\n' :: (margin level ++ (name.toList ++ '=' :: t.writeTree level
        (writeOptions rest level tail)))

end

def explainAt (t : Term) (level : Nat) : String :=
  String.ofList (margin level ++ t.writeTree level [])

def explain (t : Term) : String := t.explainAt 0

end Reql.Term
