import Reql.IdSupply
import Reql.Term.Make

/-!
Functions.

A function is an operation with two arguments: an array of the identifiers of its parameters, and a
body that refers to them.  A term that uses the implicit variable becomes a function with one
parameter, which the implicit variable then stands for; a term that does not is left alone, and then
no identifier is taken.
-/

namespace Reql.Term

def parameterList (ids : List UInt64) : Term := .array (ids.map fun id => .datum (.ofUInt64 id))

def function (ids : List UInt64) (body : Term) : Except Error Term :=
  make .func none (.ofList [.term (parameterList ids), .term body]) {}

/-- `openFunction` takes the identifiers of the parameters in one step. The body is made from their
variables, which are given with them. -/
def openFunction (count : Nat) (ids : IdSupply) : (List UInt64 × List Term) × IdSupply :=
  let (parameters, ids) := ids.takeBlock count
  ((parameters, parameters.map .var), ids)

/-- `closeFunction` makes the `function` of the body, or fails as the body does. -/
def closeFunction {ε : Type} (embed : Error → ε) (parameters : List UInt64)
    (body : Except ε Term) : Except ε Term := do
  let body ← body
  (function parameters body).mapError embed

/-- `wrapped id t` is the function with one parameter that a term with an implicit variable stands
for. -/
def wrapped (id : UInt64) (t : Term) : Term := .node .func [parameterList [id], t] []

def wrap (t : Term) (ids : IdSupply) : Term × IdSupply :=
  if t.hasImplicitVar then
    let (id, ids) := ids.take
    (wrapped id t, ids)
  else (t, ids)

/-- `chainWrapped` applies an operation whose argument is a function: the argument is coerced on its
own by `Arg.toTerm`, wrapped if need be, and then given to the operation. -/
def chainWrapped (receiver : Term) (kind : Kind) (a : Arg) (options : Options) (ids : IdSupply) :
    Except Error Term × IdSupply :=
  match a.toTerm with
  | .error e => (.error e, ids)
  | .ok t =>
      let (t, ids) := t.wrap ids
      (receiver.chain kind (.ofList [.term t]) options, ids)

end Reql.Term
