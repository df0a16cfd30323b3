import Reql.Term.Basic

/-!
Arguments: what may be given where a term is expected.

An argument is a term, a datum, or an array or object that mixes both.  A bundle stands for several
arguments at once and is spliced into the list in which it stands; `Arguments` and `Options` collect
the arguments of an operation, and no bundle is left in the former.
-/

namespace Reql

inductive Arg
  | term (t : Term)
  | value (d : Datum)
  | array (items : List Arg)
  | object (fields : List (String × Arg))
  | bundle (items : List Arg)
  deriving Inhabited

namespace Arg

mutual

/-- `a.leaves` are the arguments that `a` stands for in a list: the leaves of the items of a
`bundle`, however deep they are, and `a` itself if it is none. -/
def leaves : Arg → List Arg
  | .bundle items => leavesOf items
  | .term t => [.term t]
  | .value d => [.value d]
  | .array items => [.array items]
  | .object fields => [.object fields]

def leavesOf : List Arg → List Arg
  | [] => []
  | a :: rest => a.leaves ++ leavesOf rest

end

end Arg

/-- Positional arguments.  `push` splices a bundle, so that none is left among the `items`. -/
structure Arguments where
  items : List Arg := []
  deriving Inhabited

namespace Arguments

def push (args : Arguments) (a : Arg) : Arguments := ⟨args.items ++ a.leaves⟩

def extend (args : Arguments) (more : List Arg) : Arguments := more.foldl push args

def ofList (items : List Arg) : Arguments := extend {} items

def size (args : Arguments) : Nat := args.items.length

@[simp] theorem items_push (args : Arguments) (a : Arg) :
    (args.push a).items = args.items ++ a.leaves := rfl

/-- However the arguments are added, what is collected are their `leaves` in order. -/
@[simp] theorem items_extend (args : Arguments) (more : List Arg) :
    (args.extend more).items = args.items ++ Arg.leavesOf more := by
  induction more generalizing args with
  | nil => simp [extend, Arg.leavesOf]
  | cons a rest ih =>
    have h := ih (args.push a)
    rw [items_push, List.append_assoc] at h
    exact h

@[simp] theorem items_ofList (items : List Arg) : (ofList items).items = Arg.leavesOf items := by
  simp [ofList]

end Arguments

structure Options where
  fields : Fields Arg := []
  deriving Inhabited

namespace Options

def insert (options : Options) (name : String) (value : Arg) : Options :=
  ⟨Fields.insert options.fields name value⟩

def ofList (pairs : List (String × Arg)) : Options := ⟨Fields.ofList pairs⟩

def names (options : Options) : List String := Fields.names options.fields

def size (options : Options) : Nat := options.fields.length

end Options
end Reql
