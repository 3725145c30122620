import ClosureMachine.Heap
import ClosureMachine.Pairing

/-!
# The table of builtins

The functions of the host that a program can load, by the byte that its instructions name them
with. Places are handed out in order; a name is registered once; there is room for as many
functions as a byte can tell apart. The names are kept apart from the functions, for those who
write or list programs.
-/

namespace ClosureMachine

inductive RegistrationError where
  | duplicate (name : String)
  | full (name : String)
  deriving DecidableEq, Repr

def RegistrationError.message : RegistrationError → String
  | duplicate name => s!"builtin {name} is already registered"
  | full name => s!"no room for builtin {name}: at most 256 builtins can be registered"

/-- Names with the bytes that stand for them, and registered functions in the order of
registration. -/
structure Builtins where
  names : Pairing String UInt8 := .empty
  functions : Array Builtin := #[]

namespace Builtins

/-- The most functions that a table holds. -/
def capacity : Nat :=
  256

def size (table : Builtins) : Nat :=
  table.functions.size

def get? (table : Builtins) (index : Nat) : Option Builtin :=
  table.functions[index]?

def indexOf? (table : Builtins) (name : String) : Option UInt8 :=
  table.names.right? name

def nameOf? (table : Builtins) (index : UInt8) : Option String :=
  table.names.left? index

/-- Registers a function at the next place. A call that fails answers with the table that it leaves
behind, as one that succeeds does. -/
def registering (builtin : Builtin) : EStateM RegistrationError Builtins UInt8 := fun table =>
  if table.size = capacity then
    .error (.full builtin.name) table
  else
    let index := table.size.toUInt8
    match table.names.add? builtin.name index with
    | none => .error (.duplicate builtin.name) table
    | some names => .ok index { names, functions := table.functions.push builtin }

/-- Registers a function for a caller who has no use for the table if that fails. -/
def register (table : Builtins) (builtin : Builtin) :
    Except RegistrationError (UInt8 × Builtins) :=
  match registering builtin table with
  | .ok index table => .ok (index, table)
  | .error e _ => .error e

end Builtins

end ClosureMachine
