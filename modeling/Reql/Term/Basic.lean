import Reql.Datum.Basic
import Reql.Kind.Catalog

/-!
Query terms.

A query is a tree.  Its leaves are data, or operations without arguments; every other node is an
operation of some kind with positional arguments and named options, both in order.

The type leaves the numbers of arguments and the names of options open.  `WellFormed` says that
every node keeps to the signature of its kind; all constructions of the library produce such terms.
-/

namespace Reql

inductive Term
  | datum (value : Datum)
  | node (kind : Kind) (args : List Term) (options : List (String × Term))
  deriving Inhabited

namespace Term

def kind : Term → Kind
  | .datum _ => .datum
  | .node kind _ _ => kind

def args : Term → List Term
  | .datum _ => []
  | .node _ args _ => args

def options : Term → Fields Term
  | .datum _ => []
  | .node _ _ options => options

def datum? : Term → Option Datum
  | .datum value => some value
  | .node _ _ _ => none

def isDatum (t : Term) : Bool := t.kind == .datum

def arg? (t : Term) (index : Nat) : Option Term := t.args[index]?

def option? (t : Term) (name : String) : Option Term := Fields.get? t.options name

/-! ### Terms of fixed shape -/

def array (items : List Term) : Term := .node .makeArray items []

def object (fields : Fields Term) : Term := .node .makeObj [] fields

def var (id : UInt64) : Term := .node .var [.datum (.ofUInt64 id)] []

/-- The implicit variable stands for the parameter of a function yet to be made. -/
def implicitVar : Term := .node .implicitVar [] []

/-! ### Depth -/

mutual

/-- `t.depth` is the number of levels of the tree; a leaf has one. -/
def depth : Term → Nat
  | .datum _ => 1
  | .node _ args options => 1 + max (depthOfArgs args) (depthOfOptions options)

def depthOfArgs : List Term → Nat
  | [] => 0
  | t :: rest => max t.depth (depthOfArgs rest)

def depthOfOptions : List (String × Term) → Nat
  | [] => 0
  | (_, t) :: rest => max t.depth (depthOfOptions rest)

end

/-! ### The implicit variable -/

mutual

/-- The implicit variable occurs outside every function inside the term. -/
def hasImplicitVar : Term → Bool
  | .datum _ => false
  | .node kind args options =>
      match kind with
      | .implicitVar => true
      | .func => false
      | _ => hasImplicitVarArgs args || hasImplicitVarOptions options

def hasImplicitVarArgs : List Term → Bool
  | [] => false
  | t :: rest => t.hasImplicitVar || hasImplicitVarArgs rest

def hasImplicitVarOptions : List (String × Term) → Bool
  | [] => false
  | (_, t) :: rest => t.hasImplicitVar || hasImplicitVarOptions rest

end

/-! ### Comparison -/

mutual

/-- `t.same u` is the equality of terms, in which the order of options does not matter and data are
compared by `Datum.same`. -/
def same : Term → Term → Bool
  | .datum a, .datum b => a.same b
  | .node k as os, .node k' bs ps =>
      k == k' && sameArgs as bs && (os.length == ps.length && sameOptions os ps)
  | _, _ => false

def sameArgs : List Term → List Term → Bool
  | [], [] => true
  | a :: as, b :: bs => a.same b && sameArgs as bs
  | _, _ => false

def sameOptions : List (String × Term) → List (String × Term) → Bool
  | [], _ => true
  | (name, a) :: rest, ps =>
      (match Fields.get? ps name with
        | some b => a.same b
        | none => false) && sameOptions rest ps

end

/-! ### Well-formed terms -/

mutual

/-- `t.WellFormed` says that every node that is not a datum keeps to the signature of its kind, and
names its options apart. -/
def WellFormed : Term → Prop
  | .datum _ => True
  | .node kind args options =>
      kind ≠ .datum ∧
      kind.signature.arity.contains args.length = true ∧
      (∀ name ∈ Fields.names options, kind.signature.options.accepts name = true) ∧
      Fields.Distinct options ∧
      WellFormedArgs args ∧ WellFormedOptions options

def WellFormedArgs : List Term → Prop
  | [] => True
  | t :: rest => t.WellFormed ∧ WellFormedArgs rest

def WellFormedOptions : List (String × Term) → Prop
  | [] => True
  | (_, t) :: rest => t.WellFormed ∧ WellFormedOptions rest

end

end Term
end Reql
