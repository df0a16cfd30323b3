import Reql.Method
import Reql.Wire.Encode

/-!
Queries as they are handed to a connection.

A query is a request with global options.  Only a request that starts a term is sent together with
its options; the others refer to a running query and are sent as their number alone.
-/

namespace Reql

inductive Request
  | start (t : Term)
  | more
  | stop
  | noreplyWait
  | serverInfo

namespace Request

def tag : Request → Nat
  | .start _ => 1
  | .more => 2
  | .stop => 3
  | .noreplyWait => 4
  | .serverInfo => 5

def name : Request → String
  | .start _ => "Start"
  | .more => "Continue"
  | .stop => "Stop"
  | .noreplyWait => "NoreplyWait"
  | .serverInfo => "ServerInfo"

def term? : Request → Option Term
  | .start t => some t
  | _ => none

theorem tag_lt (r : Request) : r.tag < 256 := by
  cases r <;> simp [tag]

end Request

structure Query where
  request : Request
  options : Fields Term := []

namespace Query

/-- A database given by a string is meant as the `db` of that name. -/
def optionTerm (name : String) (t : Term) : Except Error Term :=
  if name = "db" then
    match t with
    | .datum (.string s) => Operation.start ⟨.db, .one⟩ [.value (.string s)]
    | _ => .ok t
  else .ok t

def withOption (q : Query) (name : String) (value : Arg) : Except Error Query := do
  let t ← value.toTerm
  let t ← optionTerm name t
  .ok { q with options := Fields.insert q.options name t }

def withOptions (q : Query) : List (String × Arg) → Except Error Query
  | [] => .ok q
  | (name, value) :: rest => do
      let q ← q.withOption name value
      q.withOptions rest

def encodeOptions (e : Encoder) : Fields Term → Except Error (Fields Json)
  | [] => .ok []
  | (name, t) :: rest => do
      let json ← e.encode t
      let more ← encodeOptions e rest
      .ok ((name, json) :: more)

def encode (e : Encoder) (q : Query) : Except Error Json :=
  let head : Json := .number (.integer q.request.tag (by have h := q.request.tag_lt; omega))
  match q.request.term? with
  | none => .ok (.array [head])
  | some t => do
      let json ← e.encode t
      let options ← encodeOptions e q.options
      .ok (.array [head, json, .object options])

end Query
end Reql
