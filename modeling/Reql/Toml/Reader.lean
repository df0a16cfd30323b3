import Reql.Toml.Scalar

/-!
Reading TOML documents.

A document is a list of lines that are blank, hold a key with a value, or hold a heading under which
the following keys belong.  Keys may lead through several tables.  Nothing may be defined twice, and
a table that is complete cannot be extended from elsewhere.

Values and keys are nested less than eighty levels deep.
-/

namespace Reql.Toml

def depthLimit : Nat := 80

def skipComment : List Char → Option (List Char)
  | '#' :: rest =>
      match rest.dropWhile isPlain with
      | [] => some []
      | '\n' :: rest => some ('\n' :: rest)
      | '\r' :: '\n' :: rest => some ('\n' :: rest)
      | _ => none
  | rest => some rest

/-- What follows blanks, line ends and comments; `none` stands for a broken comment. -/
def skipSpace : Nat → List Char → Option (List Char)
  | 0, cs => some cs
  | fuel + 1, cs =>
      match skipBlanks cs with
      | '\n' :: rest => skipSpace fuel rest
      | '\r' :: '\n' :: rest => skipSpace fuel rest
      | '#' :: rest => (skipComment ('#' :: rest)).bind (skipSpace fuel)
      | rest => some rest

def endLine (cs : List Char) : Option (List Char) :=
  match skipComment (skipBlanks cs) with
  | some [] => some []
  | some ('\n' :: rest) => some rest
  | some ('\r' :: '\n' :: rest) => some rest
  | _ => none

/-! ### Keys -/

def isKeyChar (c : Char) : Bool := c.isAlphanum || c = '_' || c = '-'

def readKeyPart : List Char → Option (String × List Char)
  | '"' :: rest => readBasic [] rest
  | '\'' :: rest => readLiteral [] rest
  | cs =>
      let (part, rest) := cs.span isKeyChar
      if part.isEmpty then none else some (String.ofList part, rest)

def readKey : Nat → List Char → Option (List String × List Char)
  | 0, _ => none
  | fuel + 1, cs => do
      let (part, rest) ← readKeyPart (skipBlanks cs)
      match skipBlanks rest with
      | '.' :: rest =>
          let (parts, rest) ← readKey fuel rest
          some (part :: parts, rest)
      | rest => some ([part], rest)

/-! ### Tables -/

/-- `within origin key change` changes the table that is reached by a key.  Where the key leads
through nothing, a table of the given origin is made.  A dotted key ends in a table made by dotted
keys, and does not pass complete tables; both kinds of key enter the last of the tables of a
repeated heading. -/
def within (origin : Origin) (key : List String)
    (change : Fields Toml → Option (Fields Toml)) (fields : Fields Toml) : Option (Fields Toml) :=
  match key with
  | [] => change fields
  | part :: rest =>
      match Fields.get? fields part with
      | none => do
          let inner ← within origin rest change []
          some (Fields.insert fields part (.table origin inner))
      | some (.table old inner) =>
          let passable :=
            match origin, old with
            | _, .inline => false
            | .dotted, .heading => false
            | .dotted, .implied => !rest.isEmpty
            | _, _ => true
          if passable then do
            let inner ← within origin rest change inner
            some (Fields.insert fields part (.table old inner))
          else none
      | some (.tables elements) =>
          match elements.getLast? with
          | some last =>
              if origin = .dotted ∧ rest.isEmpty then none
              else do
                let last ← within origin rest change last
                some (Fields.insert fields part (.tables (elements.dropLast ++ [last])))
          | none => none
      | some _ => none

def define (name : String) (value : Toml) (fields : Fields Toml) : Option (Fields Toml) :=
  match Fields.get? fields name with
  | none => some (Fields.insert fields name value)
  | some _ => none

def assign (key : List String) (value : Toml) (fields : Fields Toml) : Option (Fields Toml) :=
  match key.getLast? with
  | some name => within .dotted key.dropLast (define name value) fields
  | none => none

/-- `openTable` makes a table of its own out of nothing, or out of one that other headings led
through, which moves it to the end. -/
def openTable (name : String) (fields : Fields Toml) : Option (Fields Toml) :=
  match Fields.get? fields name with
  | none => some (Fields.insert fields name (.table .heading []))
  | some (.table .implied inner) =>
      some (Fields.insert (Fields.erase fields name) name (.table .heading inner))
  | some _ => none

def openElement (name : String) (fields : Fields Toml) : Option (Fields Toml) :=
  match Fields.get? fields name with
  | none => some (Fields.insert fields name (.tables [[]]))
  | some (.tables elements) => some (Fields.insert fields name (.tables (elements ++ [[]])))
  | some _ => none

/-! ### Values -/

mutual

/-- `readValue` reads a value inside which others may be nested `depth` deep. -/
def readValue : Nat → Nat → List Char → Option (Toml × List Char)
  | 0, _, _ => none
  | fuel + 1, depth, cs =>
      match cs with
      | '"' :: _ => (readString cs).map fun (s, rest) => (.string s, rest)
      | '\'' :: _ => (readString cs).map fun (s, rest) => (.string s, rest)
      | '[' :: rest => if depth ≤ 1 then none else readItems fuel (depth - 1) [] rest
      | '{' :: rest =>
          if depth ≤ 1 then none
          else match skipBlanks rest with
            | '}' :: rest => some (.table .inline [], rest)
            | rest => readMembers fuel (depth - 1) [] rest
      | cs => readPlain cs

def readItems : Nat → Nat → List Toml → List Char → Option (Toml × List Char)
  | 0, _, _, _ => none
  | fuel + 1, depth, done, cs => do
      let cs ← skipSpace cs.length cs
      match cs with
      | ']' :: rest => some (.array done.reverse, rest)
      | cs =>
          let (value, rest) ← readValue fuel depth cs
          let rest ← skipSpace rest.length rest
          match rest with
          | ',' :: rest => readItems fuel depth (value :: done) rest
          | ']' :: rest => some (.array (value :: done).reverse, rest)
          | _ => none

def readMembers : Nat → Nat → Fields Toml → List Char → Option (Toml × List Char)
  | 0, _, _, _ => none
  | fuel + 1, depth, done, cs => do
      let (key, rest) ← readKey (depthLimit - 1) cs
      let rest ← expect '=' rest
      let (value, rest) ← readValue fuel depth (skipBlanks rest)
      let done ← assign key value done
      match skipBlanks rest with
      | ',' :: rest => readMembers fuel depth done rest
      | '}' :: rest => some (.table .inline done, rest)
      | _ => none

end

/-! ### Documents -/

def readPair (cs : List Char) : Option ((List String × Toml) × List Char) := do
  let (key, rest) ← readKey (depthLimit - 1) cs
  let rest ← expect '=' rest
  let rest := skipBlanks rest
  let (value, rest) ← readValue (rest.length + 1) depthLimit rest
  some ((key, value), rest)

/-- `readLines` reads the lines of a document.  `heading` is the key of the table to which pairs
belong, and `fields` is what has been defined so far. -/
def readLines : Nat → List String → Fields Toml → List Char → Option (Fields Toml)
  | 0, _, fields, _ => some fields
  | fuel + 1, heading, fields, cs =>
      match skipBlanks cs with
      | [] => some fields
      | '[' :: '[' :: rest => do
          let (key, rest) ← readKey (depthLimit - 1) rest
          let rest ← expect ']' rest
          let rest ← expect ']' rest
          let rest ← endLine rest
          let name ← key.getLast?
          let fields ← within .implied key.dropLast (openElement name) fields
          readLines fuel key fields rest
      | '[' :: rest => do
          let (key, rest) ← readKey (depthLimit - 1) rest
          let rest ← expect ']' rest
          let rest ← endLine rest
          let name ← key.getLast?
          let fields ← within .implied key.dropLast (openTable name) fields
          readLines fuel key fields rest
      | cs =>
          match endLine cs with
          | some rest => readLines fuel heading fields rest
          | none => do
              let ((key, value), rest) ← readPair cs
              let rest ← endLine rest
              let fields ← within .implied heading (assign key value) fields
              readLines fuel heading fields rest

def dropMark : List Char → List Char
  | '\uFEFF' :: rest => rest
  | rest => rest

def read (text : String) : Option (Fields Toml) :=
  let cs := dropMark text.toList
  readLines (cs.length + 1) [] [] cs

end Reql.Toml
