import Reql.Command.Run

/-!
The command as a program.
-/

namespace Reql.Command

def obstacleOf : IO.Error → Obstacle
  | .noFileOrDirectory .. => .missing
  | .inappropriateType _ 20 _ => .notFolder
  | .inappropriateType .. => .folder
  | .invalidArgument _ 36 _ => .nameTooLong
  | .permissionDenied .. => .denied
  | .userError _ => .notText
  | _ => .missing

def find (path : String) : IO Found := do
  try
    let content ← IO.FS.readFile path
    return .file content
  catch e => return .obstacle (obstacleOf e)

def filesOf (i : Invocation) : IO (List (String × Found)) := do
  let settings := match i.settingsPath with
    | some path => path :: (withEnding path ".toml").toList
    | none => []
  let input := match i.action with
    | .encode input _ => [input]
    | .explain input => [input]
    | _ => []
  let mut files := []
  for path in settings ++ input do
    let found ← find path
    files := (path, found) :: files
  return files

def entryOf? (cs : List Char) : Option (String × String) :=
  match cs.span fun c => c ≠ '=' with
  | (name, _ :: value) => some (String.ofList name, String.ofList value)
  | (_, []) => none

/-- What `environment` looks for on systems that do not list all variables. -/
def knownVariables : List String :=
  ["REQLWIRE_CONFIG", "REQLWIRE_LOG", "REQLWIRE_ENCODER__MAX_DEPTH", "REQLWIRE_ENCODER__PRETTY",
    "REQLWIRE_LOGGING__LEVEL", "REQLWIRE_LOGGING__JSON"]

def environment : IO (List (String × String)) := do
  match ← find "/proc/self/environ" with
  | .file content => return (content.toList.splitOn '\x00').filterMap entryOf?
  | _ => do
      let mut env := []
      for name in knownVariables do
        if let some value ← IO.getEnv name then
          env := (name, value) :: env
      return env

def inputOf (i : Invocation) : IO String := do
  let reads := match i.action with
    | .encode input _ => input == "-"
    | .explain input => input == "-"
    | _ => false
  if reads then (← IO.getStdin).readToEnd else return ""

end Reql.Command

open Reql.Command in
def main (arguments : List String) : IO UInt32 := do
  let env ← environment
  let (files, stdin) ← match Invocation.read arguments env with
    | .ok i => do
        let files ← filesOf i
        let stdin ← inputOf i
        pure (files, stdin)
    | .error _ => pure ([], "")
  let look (path : String) : Found := (files.lookup path).getD (.obstacle .missing)
  let outcome := run arguments { env, look, stdin }
  (← IO.getStdout).putStr outcome.stdout
  (← IO.getStderr).putStr outcome.stderr
  return UInt32.ofNat outcome.code
