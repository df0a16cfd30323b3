import Reql.Error
import Reql.Settings.Value
import Reql.Toml.Reader
import Reql.Toml.Writer
import Reql.Wire.Encode

/-!
The settings of the encoder and of its command.

They have defaults, can be given in a file, and can be given by environment variables, which win over
the file.  A variable has the prefix `REQLWIRE_`; in the rest of its name two underscores separate a
section from a setting, so that `REQLWIRE_ENCODER__MAX_DEPTH` is the setting `max_depth` of the
section `encoder`.  Names that mean nothing are passed over.
-/

namespace Reql

structure EncoderSettings where
  maxDepth : Option Nat := none
  pretty : Bool := false
  deriving DecidableEq, Inhabited

structure LoggingSettings where
  level : String := "warn"
  json : Bool := false
  deriving DecidableEq, Inhabited

structure Settings where
  encoder : EncoderSettings := {}
  logging : LoggingSettings := {}
  deriving DecidableEq, Inhabited

inductive SettingsFile
  /-- No file is asked for, while one that is `missing` cannot be read. -/
  | absent
  | missing
  | text (content : String)

namespace Settings

def toEncoder (s : EncoderSettings) : Encoder := { maxDepth := s.maxDepth }

/-! ### Layers -/

def afterStart? (start : List Char) (cs : List Char) : Option (List Char) :=
  if cs.take start.length = start then some (cs.drop start.length) else none

/-- `pointed` replaces each pair of underscores by a point, from left to right. -/
def pointed : List Char → List Char
  | '_' :: '_' :: rest => '.' :: pointed rest
  | c :: rest => c :: pointed rest
  | [] => []

def variablePath? (name : String) : Option String :=
  (afterStart? "reqlwire_".toList name.toLower.toList).map fun rest => String.ofList (pointed rest)

def environmentLayer (env : List (String × String)) : List (String × Setting) :=
  env.filterMap fun (name, value) =>
    (variablePath? name).map fun path => (path, Setting.ofText value)

def fileLayer : SettingsFile → Except SettingsFault (List (String × Setting))
  | .absent => .ok []
  | .missing => .error .noFile
  | .text content =>
      match Toml.read content with
      | none => .error .notToml
      | some fields =>
          match Setting.ofTomlTable fields with
          | some (.group settings) => .ok settings
          | some _ => .error .wrongType
          | none => .error .notToml

/-! ### Reading off -/

/-- `lookUp root name index` finds a setting by its name, or by its place when the section is a
list. -/
def lookUp (root : Setting) (name : String) (index : Nat) : Option Setting :=
  match root with
  | .group fields => Fields.get? fields name
  | .list items => items[index]?
  | _ => none

def readOr {α : Type} (convert : Setting → Option α) (default : α) :
    Option Setting → Except SettingsFault α
  | none => .ok default
  | some s =>
      match convert s with
      | some a => .ok a
      | none => .error .wrongType

def sectionOf (root : Setting) (name : String) : Except SettingsFault Setting :=
  match Fields.get? root.fields name with
  | none => .ok (.group [])
  | some (.group fields) => .ok (.group fields)
  | some (.list items) => .ok (.list items)
  | some _ => .error .wrongType

/-- An empty place sets no limit. -/
def toDepth? : Setting → Option (Option Nat)
  | .nothing => some none
  | s => s.toNat?.map some

def readEncoder (root : Setting) : Except SettingsFault EncoderSettings := do
  let maxDepth ← readOr toDepth? none (lookUp root "max_depth" 0)
  let pretty ← readOr Setting.toBool? false (lookUp root "pretty" 1)
  .ok { maxDepth, pretty }

def readLogging (root : Setting) : Except SettingsFault LoggingSettings := do
  let level ← readOr Setting.toText? "warn" (lookUp root "level" 0)
  let json ← readOr Setting.toBool? false (lookUp root "json" 1)
  .ok { level, json }

def ofSetting (root : Setting) : Except SettingsFault Settings := do
  let encoder ← readEncoder (← sectionOf root "encoder")
  let logging ← readLogging (← sectionOf root "logging")
  .ok { encoder, logging }

def load (file : SettingsFile) (env : List (String × String)) : Except Error Settings :=
  let settings : Except SettingsFault Settings := do
    let layer ← fileLayer file
    ofSetting (((Setting.group []).layer layer).layer (environmentLayer env))
  settings.mapError .config

/-! ### Writing -/

def line (name value : String) : String := name ++ " = " ++ value ++ "\n"

def boolText (b : Bool) : String := if b then "true" else "false"

/-- The settings as the text of a file, where a depth has to fit a signed number. -/
def toToml (s : Settings) : Except Error String := do
  let depth ← match s.encoder.maxDepth with
    | none => .ok ""
    | some n =>
        if InSignedRange n then .ok (line "max_depth" (toString n)) else .error (.config .tooLarge)
  .ok ("[encoder]\n" ++ depth ++ line "pretty" (boolText s.encoder.pretty) ++
    "\n[logging]\n" ++ line "level" (Toml.quote s.logging.level) ++
    line "json" (boolText s.logging.json))

end Settings
end Reql
