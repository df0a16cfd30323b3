import Reql.Native
import Reql.Routine
import Reql.Term.Script
import Reql.Wire.Decode

/-!
Programs that build terms.

A program is an expression over everything that makes terms: operations, values, functions with their
parameters, decoded text, and terms that earlier programs have left under a name. What it does is a
routine, `Program.eval`, which takes identifiers from two supplies.

Within an expression the receiver comes first, then the arguments from left to right, then the
options; the first failure ends the program.
-/

namespace Reql

mutual

inductive Program
  | ref (name : String)
  /-- An operation by its kind, made at once by `Term.make` or piece by piece by `Term.ofScript`. -/
  | make (kind : Kind) (piecewise : Bool) (receiver : Option Program) (args : List Input)
      (options : List (String × Input))
  /-- A method; what it wraps is numbered from `source`. -/
  | apply (operation : Operation) (source : Source) (receiver : Program) (args : List Input)
      (options : List (String × Input))
  /-- Methods applied one after the other, the whole list `times` times. -/
  | chain (receiver : Program) (calls : List (Operation × List Input)) (times : Nat)
  | start (operation : Operation) (args : List Input)
  | coerce (value : Input)
  | native (value : Native)
  | decode (text : String)
  /-- The leaf of a datum as it is, also where `coerce` would refuse the datum. -/
  | datum (value : Datum)
  | var (id : UInt64)
  | implicitVar
  | wrap (source : Source) (body : Program)
  | function (source : Source) (params : Nat) (body : Program)
  /-- A parameter of an enclosing function; `up` is the number of functions in between. -/
  | param (index : Nat) (up : Nat)

inductive Input
  | program (p : Program)
  | value (d : Datum)
  | array (items : List Input)
  | object (fields : List (String × Input))
  | bundle (items : List Input)

end

namespace Program

/-- What a program can refer to: named terms, and the variables of the enclosing functions, the
innermost first. -/
structure Scope where
  terms : Fields Term := []
  parameters : List (List Term) := []

abbrev Draws := Routine

def parameter (scope : Scope) (index up : Nat) : Draws Term :=
  match scope.parameters[up]?.bind fun vars => vars[index]? with
  | some t => pure t
  | none => .fail .noParameter

def applyOperation (operation : Operation) (source : Source) (receiver : Term) (args : List Arg)
    (options : List (String × Arg)) : Draws Term :=
  .apply source operation receiver args (.ofList options) .settle

def pieces (receiver : Option Term) (args : List Arg) (options : List (String × Arg)) :
    List Term.Piece :=
  receiver.toList.map .receiver ++ args.map .arg ++
    options.map fun option => .option option.1 option.2

def makeOperation (kind : Kind) (piecewise : Bool) (receiver : Option Term) (args : List Arg)
    (options : List (String × Arg)) : Except Error Term :=
  if piecewise then Term.ofScript kind (pieces receiver args options)
  else Term.make kind receiver (.ofList args) (.ofList options)

def iterate (f : Term → Draws Term) : Nat → Term → Draws Term
  | 0, t => pure t
  | n + 1, t => do
      let t ← f t
      iterate f n t

mutual

def eval (scope : Scope) : Program → Draws Term
  | .ref name =>
      match Fields.get? scope.terms name with
      | some t => pure t
      | none => .fail (.unbound name)
  | .make kind piecewise receiver args options => do
      let receiver ← evalReceiver scope receiver
      let args ← evalInputs scope args
      let options ← evalFields scope options
      Routine.settle (makeOperation kind piecewise receiver args options)
  | .apply operation source receiver args options => do
      let receiver ← eval scope receiver
      let args ← evalInputs scope args
      let options ← evalFields scope options
      applyOperation operation source receiver args options
  | .chain receiver calls times => do
      let t ← eval scope receiver
      iterate (evalCalls scope calls) times t
  | .start operation args => do
      let args ← evalInputs scope args
      Routine.settle (operation.start args)
  | .coerce value => do
      let a ← evalInput scope value
      Routine.settle a.toTerm
  | .native value => Routine.settle value.toTerm
  | .decode text => Routine.settle (Term.ofText text)
  | .datum value => pure (.datum value)
  | .var id => pure (.var id)
  | .implicitVar => pure .implicitVar
  | .wrap source body => do
      let t ← eval scope body
      .wrap source t pure
  | .function source params body =>
      .function source params
        (fun vars => eval { scope with parameters := vars :: scope.parameters } body) .done
  | .param index up => parameter scope index up

def evalReceiver (scope : Scope) : Option Program → Draws (Option Term)
  | none => pure none
  | some p => do
      let t ← eval scope p
      pure (some t)

def evalInput (scope : Scope) : Input → Draws Arg
  | .program p => do
      let t ← eval scope p
      pure (.term t)
  | .value d => pure (.value d)
  | .array items => do
      let items ← evalInputs scope items
      pure (.array items)
  | .object fields => do
      let fields ← evalFields scope fields
      pure (.object (Fields.ofList fields))
  | .bundle items => do
      let items ← evalInputs scope items
      pure (.bundle items)

def evalInputs (scope : Scope) : List Input → Draws (List Arg)
  | [] => pure []
  | i :: rest => do
      let a ← evalInput scope i
      let args ← evalInputs scope rest
      pure (a :: args)

def evalFields (scope : Scope) : List (String × Input) → Draws (List (String × Arg))
  | [] => pure []
  | (name, i) :: rest => do
      let a ← evalInput scope i
      let args ← evalFields scope rest
      pure ((name, a) :: args)

def evalCalls (scope : Scope) : List (Operation × List Input) → Term → Draws Term
  | [], t => pure t
  | (operation, args) :: rest, t => do
      let args ← evalInputs scope args
      let t ← applyOperation operation .shared t args []
      evalCalls scope rest t

end

def run (p : Program) (terms : Fields Term) (supplies : Supplies) :
    Except Failure Term × Supplies :=
  (p.eval { terms }).run supplies

end Program
end Reql
