import Reql.Kind.Catalog

/-!
The catalog as a table for readers.
-/

namespace Reql.Kind

def padRight (width : Nat) (s : String) : String :=
  s ++ String.ofList (List.replicate (width - s.length) ' ')

def padLeft (width : Nat) (s : String) : String :=
  String.ofList (List.replicate (width - s.length) ' ') ++ s

def row (tag name arity options : String) : String :=
  padLeft 5 tag ++ "  " ++ padRight 18 name ++ " " ++ padRight 12 arity ++ " " ++ options ++ "\n"

def optionsText : OptionRule → String
  | .noOptions => "-"
  | .only names => String.intercalate ", " names
  | .any => "(any)"

def listingRow (k : Kind) : String :=
  row (toString k.tag) k.name k.signature.arity.text (optionsText k.signature.options)

def listing (kinds : List Kind) : String :=
  row "TAG" "NAME" "ARITY" "OPTARGS" ++ String.join (kinds.map listingRow)

end Reql.Kind
