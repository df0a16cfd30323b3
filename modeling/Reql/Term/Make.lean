import Reql.Arg.Coerce

/-!
Making operations.

`Term.make` is the one place where operations are made from arguments.  It checks in a fixed order:
first the positional arguments are coerced, then the names of the options are looked up, then their
values are coerced, and last the positional arguments are counted together with the receiver.
-/

namespace Reql.Term

/-- `make kind receiver args options` is the operation of a kind; a receiver becomes its first
argument. -/
def make (kind : Kind) (receiver : Option Term) (args : Arguments) (options : Options) :
    Except Error Term := do
  if kind = .datum then .error (.construction (.whole .value) .datumFromArguments)
  let terms ← args.freeze
  let positional := receiver.toList ++ terms
  let named ← options.freezeFor kind
  if kind.signature.arity.contains positional.length then .ok (.node kind positional named)
  else .error (.arity kind positional.length)

def chain (receiver : Term) (kind : Kind) (args : Arguments) (options : Options) :
    Except Error Term :=
  make kind (some receiver) args options

end Reql.Term
