import Reql.Command.Disk
import Reql.Command.Invocation
import Reql.Kind.Listing
import Reql.Settings.Basic
import Reql.Settings.LogFilter
import Reql.Term.Explain
import Reql.Text.Capitals
import Reql.Wire.Decode

/-!
The command that lists the catalog, and checks, rewrites and explains encoded queries.

`run` is a function of the arguments and of what the command can see: the environment, the files and
the standard input.  A failure is reported by the step that failed and the causes behind it.
-/

namespace Reql.Command

structure World where
  env : List (String × String) := []
  look : String → Found
  stdin : String := ""

structure Outcome where
  code : Nat := 0
  stdout : String := ""
  stderr : String := ""
  deriving DecidableEq

structure Report where
  failed : String
  causes : List String := []
  deriving DecidableEq

namespace Report

/-- `moveIn margin s` puts the margin in front of all lines of `s` but the first. -/
def moveIn (margin : String) (s : String) : String :=
  String.ofList (s.toList.flatMap fun c => if c = '\n' then '\n' :: margin.toList else [c])

def numbered : Nat → List String → String
  | _, [] => ""
  | n, cause :: rest =>
      Kind.padLeft 5 (toString n) ++ ": " ++ moveIn "       " cause ++ "\n" ++ numbered (n + 1) rest

def text (r : Report) : String :=
  "Error: " ++ r.failed ++ "\n" ++
    match r.causes with
    | [] => ""
    | [cause] => "\nCaused by:\n    " ++ moveIn "    " cause ++ "\n"
    | causes => "\nCaused by:\n" ++ numbered 0 causes

/-- `chain e` are the messages of `e` and of the failures that it carries. -/
def chain : Error → List String
  | .encode parent position child source =>
      Error.message (.encode parent position child source) :: chain source
  | .serialization fault => [Error.message (.serialization fault), fault.message]
  | e => [e.message]

def ofError (e : Error) : Report :=
  match chain e with
  | [] => ⟨e.message, []⟩
  | failed :: causes => ⟨failed, causes⟩

def inStep (step : String) (e : Error) : Report := ⟨step, chain e⟩

end Report

def versionText : String := "reqlc 0.3.0\n"

/-- The name of a settings file may be given without its ending.  Only a `Found.file` will do. -/
def settingsFile (w : World) : Option String → SettingsFile
  | none => .absent
  | some path =>
      match w.look path with
      | .file content => .text content
      | _ =>
          match (withEnding path ".toml").map w.look with
          | some (.file content) => .text content
          | _ => .missing

/-- `readInput w input` is the standard input if `input` is a hyphen. -/
def readInput (w : World) (input : String) : Except Report String :=
  if input = "-" then .ok w.stdin
  else (w.look input).text.mapError fun why => ⟨"Failed to read " ++ input, [why.message]⟩

def readQuery (w : World) (input : String) : Except Report Term := do
  let text ← readInput w input
  (Term.ofText text).mapError (Report.inStep "Invalid wire query")

def encodeQuery (s : Settings) (pretty : Bool) (t : Term) : Except Report String := do
  let json ← ((Settings.toEncoder s.encoder).encode t).mapError Report.ofError
  .ok ((if pretty || s.encoder.pretty then json.prettyText else json.text) ++ "\n")

def listTerms : Option String → Except Report String
  | none => .ok (Kind.listing Kind.all)
  | some name =>
      match Kind.ofName? (Text.capitals name) with
      | some k => .ok (Kind.listing [k])
      | none => .error ⟨"Unknown term type: " ++ name, []⟩

def loadSettings (w : World) (i : Invocation) : Except Report Settings := do
  let s ← (Settings.load (settingsFile w i.settingsPath) w.env).mapError
    (Report.inStep "Failed to load configuration")
  let s := match i.logLevel with
    | some level => { s with logging := { s.logging with level } }
    | none => s
  if LogFilter.isValid s.logging.level then .ok s
  else .error ⟨"Invalid log level: " ++ s.logging.level, ["invalid filter directive"]⟩

def perform (w : World) (i : Invocation) : Except Report String := do
  let s ← loadSettings w i
  match i.action with
  | .terms name => listTerms name
  | .encode input pretty => do
      let t ← readQuery w input
      encodeQuery s pretty t
  | .explain input => do
      let t ← readQuery w input
      .ok (t.explain ++ "\n")
  | .settings => s.toToml.mapError Report.ofError

def usage : String :=
  "Usage: reqlc [--config <FILE>] [--log-level <LEVEL>] <terms|encode|explain|config>\n"

def run (arguments : List String) (w : World) : Outcome :=
  match Invocation.read arguments w.env with
  | .error .version => { stdout := versionText }
  | .error .help => { stdout := usage }
  | .error .misuse => { code := 2, stderr := usage }
  | .ok i =>
      match perform w i with
      | .ok text => { stdout := text }
      | .error report => { code := 1, stderr := report.text }

end Reql.Command
