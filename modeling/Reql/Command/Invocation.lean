/-!
The arguments of the command.

The first word that is not an option names an action; options of the command as a whole may stand
before and after it, and win over the environment.  Asking for the version or for help ends the
reading at once, and so does the first mistake.
-/

namespace Reql.Command

inductive Action
  | terms (name : Option String)
  | encode (input : String) (pretty : Bool)
  | explain (input : String)
  | settings
  deriving DecidableEq

structure Invocation where
  action : Action
  settingsPath : Option String := none
  logLevel : Option String := none
  deriving DecidableEq

inductive Halt
  | version
  | help
  | misuse
  deriving DecidableEq

structure Common where
  settingsPath : Option String := none
  logLevel : Option String := none
  deriving DecidableEq

/-- What follows the letter of `-h` is not looked at; `asksVersion` does the same. -/
def asksHelp (argument : String) : Bool :=
  argument = "--help" || argument.toList.take 2 = ['-', 'h']

def asksVersion (argument : String) : Bool :=
  argument = "--version" || argument.toList.take 2 = ['-', 'V']

/-- `attached? option argument` is `some none` if the value of the option stands in the next
argument. -/
def attached? (option argument : String) : Option (Option String) :=
  if argument = option then some none
  else
    let start := option.toList ++ ['=']
    let cs := argument.toList
    if cs.take start.length = start then some (some (String.ofList (cs.drop start.length))) else none

/-- `isValue argument` tells whether an argument of its own may be the value of an option, as a
hyphen alone may. -/
def isValue (argument : String) : Bool :=
  match argument.toList with
  | [] => true
  | ['-'] => true
  | '-' :: _ => false
  | _ => true

def takeValue (attached : Option String) (rest : List String) : Except Halt (String × List String) :=
  match attached, rest with
  | some value, rest => .ok (value, rest)
  | none, value :: rest => if isValue value then .ok (value, rest) else .error .misuse
  | none, [] => .error .misuse

def setOnce {α : Type} (old : Option α) (value : α) : Except Halt (Option α) :=
  match old with
  | none => .ok (some value)
  | some _ => .error .misuse

def pathValue (value : String) : Except Halt String :=
  if value.isEmpty then .error .misuse else .ok value

def readCommon (common : Common) (argument : String) (rest : List String) :
    Option (Except Halt (Common × List String)) :=
  match attached? "--config" argument, attached? "--log-level" argument with
  | some value, _ => some do
      let (value, rest) ← takeValue value rest
      let value ← pathValue value
      let settingsPath ← setOnce common.settingsPath value
      .ok ({ common with settingsPath }, rest)
  | none, some value => some do
      let (value, rest) ← takeValue value rest
      let logLevel ← setOnce common.logLevel value
      .ok ({ common with logLevel }, rest)
  | none, none => none

structure Words where
  common : Common := {}
  name : Option String := none
  pretty : Option Unit := none
  input : Option String := none

structure Accepts where
  name : Bool := false
  pretty : Bool := false
  input : Bool := false

def addInput (accepts : Accepts) (words : Words) (argument : String) : Except Halt Words :=
  if accepts.input then do
    let value ← pathValue argument
    let input ← setOnce words.input value
    .ok { words with input }
  else .error .misuse

def readPlainWords (accepts : Accepts) (words : Words) : List String → Except Halt Words
  | [] => .ok words
  | argument :: rest => do
      let words ← addInput accepts words argument
      readPlainWords accepts words rest

def readWords (accepts : Accepts) : Nat → Words → List String → Except Halt Words
  | 0, words, _ => .ok words
  | _ + 1, words, [] => .ok words
  | fuel + 1, words, argument :: rest =>
      if argument = "--" then readPlainWords accepts words rest
      else if asksHelp argument then .error .help
      else match readCommon words.common argument rest with
        | some step => do
            let (common, rest) ← step
            readWords accepts fuel { words with common } rest
        | none =>
            match accepts.name, attached? "--name" argument with
            | true, some value => do
                let (value, rest) ← takeValue value rest
                let name ← setOnce words.name value
                readWords accepts fuel { words with name } rest
            | _, _ =>
                if accepts.pretty ∧ argument = "--pretty" then do
                  let pretty ← setOnce words.pretty ()
                  readWords accepts fuel { words with pretty } rest
                else if isValue argument then do
                  let words ← addInput accepts words argument
                  readWords accepts fuel words rest
                else .error .misuse

def needInput (words : Words) : Except Halt String :=
  match words.input with
  | some input => .ok input
  | none => .error .misuse

def topics : List String := ["terms", "encode", "explain", "config", "help"]

def readHelp : List String → Halt
  | [] => .help
  | [topic] => if topics.contains topic then .help else .misuse
  | _ => .misuse

def readAction (name : String) (rest : List String) : Except Halt (Action × Common) := do
  let fuel := rest.length + 1
  match name with
  | "terms" =>
      let words ← readWords { name := true } fuel {} rest
      .ok (.terms words.name, words.common)
  | "encode" =>
      let words ← readWords { pretty := true, input := true } fuel {} rest
      let input ← needInput words
      .ok (.encode input words.pretty.isSome, words.common)
  | "explain" =>
      let words ← readWords { pretty := true, input := true } fuel {} rest
      let input ← needInput words
      .ok (.explain input, words.common)
  | "config" =>
      let words ← readWords {} fuel {} rest
      .ok (.settings, words.common)
  | "help" => .error (readHelp rest)
  | _ => .error .misuse

def readArguments : Nat → Common → List String → Except Halt (Common × Action × Common)
  | 0, _, _ => .error .misuse
  | _ + 1, _, [] => .error .misuse
  | fuel + 1, common, argument :: rest =>
      if asksHelp argument then .error .help
      else if asksVersion argument then .error .version
      else match readCommon common argument rest with
        | some step => do
            let (common, rest) ← step
            readArguments fuel common rest
        | none => do
            let (action, inner) ← readAction argument rest
            .ok (common, action, inner)

def lookUp? (env : List (String × String)) (name : String) : Option String :=
  (env.reverse.find? fun entry => entry.1 == name).map (·.2)

/-- `Invocation.read` reads the arguments of the command in an environment.  What stands behind the
action wins over what stands before it, and both win over the environment; an empty path is a
mistake wherever it is looked at. -/
def Invocation.read (arguments : List String) (env : List (String × String)) :
    Except Halt Invocation := do
  let (outer, action, inner) ← readArguments (arguments.length + 1) {} arguments
  let fromEnv := lookUp? env "REQLWIRE_CONFIG"
  if fromEnv = some "" ∧ (outer.settingsPath.isNone ∨ inner.settingsPath.isNone) then .error .misuse
  .ok
    { action
      settingsPath := inner.settingsPath <|> outer.settingsPath <|> fromEnv
      logLevel := inner.logLevel <|> outer.logLevel <|> lookUp? env "REQLWIRE_LOG" }

end Reql.Command
