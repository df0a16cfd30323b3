import Reql.Fields
import Reql.Number.Double

/-!
TOML values.

A table remembers how it came about, since that decides whether later lines may add to it: a table
with a heading of its own and an inline table are complete, while one that only lies on the way to
another, or that was made by a dotted key, can still grow.
-/

namespace Reql

inductive Toml.Origin
  /-- By a heading of its own, or as the whole document. -/
  | heading
  /-- On the way to the table of a heading. -/
  | implied
  | dotted
  | inline
  deriving DecidableEq

inductive Toml
  | string (s : String)
  | integer (n : Int)
  | float (x : Double)
  | boolean (b : Bool)
  | moment (s : String)
  | array (items : List Toml)
  | table (origin : Toml.Origin) (fields : List (String × Toml))
  /-- The tables under a repeated heading. -/
  | tables (elements : List (List (String × Toml)))
  deriving Inhabited

end Reql
