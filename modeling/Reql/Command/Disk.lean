/-!
Files as a command sees them: by paths.

A path is a list of names with slashes between them, read from the working folder, or from the root if
it begins with a slash.  A point stands for the folder itself and two points for the one around it, and
empty names mean nothing, but whatever stands before a slash has to be a folder.
-/

namespace Reql.Command

inductive Obstacle
  | missing
  | folder
  | notFolder
  | nameTooLong
  | denied
  | notText
  deriving DecidableEq

def Obstacle.message : Obstacle → String
  | .missing => "No such file or directory (os error 2)"
  | .folder => "Is a directory (os error 21)"
  | .notFolder => "Not a directory (os error 20)"
  | .nameTooLong => "File name too long (os error 36)"
  | .denied => "Permission denied (os error 13)"
  | .notText => "stream did not contain valid UTF-8"

inductive Found
  | file (content : String)
  /-- A source of text that is not kept, such as a device. -/
  | stream (content : String)
  | obstacle (why : Obstacle)
  deriving DecidableEq

def Found.text : Found → Except Obstacle String
  | .file content => .ok content
  | .stream content => .ok content
  | .obstacle why => .error why

/-- The `entries` are files and streams by the names that lead to them from the root.  Folders are
not among them: `isFolder` holds wherever names lead on to an entry. -/
structure Disk where
  working : List String
  entries : List (List String × Found)

namespace Disk

/-- The greatest number of bytes of a name, as `pathLimit` is of a path. -/
def nameLimit : Nat := 255

def pathLimit : Nat := 4095

def isFolder (d : Disk) (names : List String) : Bool :=
  names.isPrefixOf d.working || d.entries.any fun entry => names.isPrefixOf entry.1

def walk (d : Disk) (here : List String) : List String → Found
  | [] => .obstacle .folder
  | name :: rest =>
      if nameLimit < name.utf8ByteSize then .obstacle .nameTooLong
      else if name = "" ∨ name = "." then d.walk here rest
      else if name = ".." then d.walk here.dropLast rest
      else
        let there := here ++ [name]
        match d.entries.lookup there with
        | some found => if rest.isEmpty then found else .obstacle .notFolder
        | none => if d.isFolder there then d.walk there rest else .obstacle .missing

def look (d : Disk) (path : String) : Found :=
  if pathLimit < path.utf8ByteSize then .obstacle .nameTooLong
  else
    match path.splitOn "/" with
    | [""] => .obstacle .missing
    | "" :: names => d.walk [] names
    | names => d.walk d.working names

end Disk

def withoutTail (names : List String) : List String :=
  (names.reverse.dropWhile fun name => name = "" || name = ".").reverse

/-- `withEnding path ending` adds the ending to the last name that `withoutTail` leaves, if there is
one that can take it. -/
def withEnding (path ending : String) : Option String :=
  let names := withoutTail (path.splitOn "/")
  match names.getLast? with
  | none => none
  | some name => if name = ".." then none else some ("/".intercalate names ++ ending)

end Reql.Command
