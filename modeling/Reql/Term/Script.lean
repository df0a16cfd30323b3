import Reql.Term.Make

/-!
Making an operation piece by piece.

A script lists the pieces in the order in which they are given.  Receivers, positional arguments and
options do not affect one another, so only the order within each of these groups matters.
-/

namespace Reql.Term

inductive Piece
  | receiver (t : Term)
  | arg (a : Arg)
  | args (items : List Arg)
  | option (name : String) (value : Arg)

structure Draft where
  kind : Kind
  receiver : Option Term := none
  args : Arguments := {}
  options : Options := {}

namespace Draft

/-- A second `receiver` replaces the first one. -/
def add (draft : Draft) : Piece → Draft
  | .receiver t => { draft with receiver := some t }
  | .arg a => { draft with args := draft.args.push a }
  | .args items => { draft with args := draft.args.extend items }
  | .option name value => { draft with options := draft.options.insert name value }

def build (draft : Draft) : Except Error Term :=
  make draft.kind draft.receiver draft.args draft.options

end Draft

def ofScript (kind : Kind) (script : List Piece) : Except Error Term :=
  (script.foldl Draft.add { kind }).build

end Reql.Term
