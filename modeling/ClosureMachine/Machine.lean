import ClosureMachine.Builtins
import ClosureMachine.Frame

/-!
# The machine

Its operand stack is shared by all frames, the active frame being the last called. Globals and
heap can outlive a machine: they make up a session, with which a next machine goes on.
-/

namespace ClosureMachine

/-- How much a machine may use. -/
structure Limits where
  stackSize : Nat := 2048
  maxFrames : Nat := 1024
  globalsSize : Nat := 65536
  deriving DecidableEq, Repr

/-- What one machine hands to the next. -/
structure Session where
  globals : Array Value := #[]
  heap : Heap := {}

structure Machine where
  constants : Array Value
  builtins : Builtins := {}
  modules : Dict String Value := .empty
  globals : Array Value
  /-- The operand stack. Its top is the last element. -/
  stack : Array Value := #[]
  /-- The call stack. The active frame comes first. -/
  frames : List Frame
  limits : Limits
  /-- The value that was discarded last. -/
  lastPopped : Value := .null
  heap : Heap

namespace Machine

/-- Globals cut off or filled up to `size`. -/
def resize (globals : Array Value) (size : Nat) : Array Value :=
  globals.shrink size ++ Array.replicate (size - globals.size) .null

/-- A machine about to run a main stream. Main captures nothing and has no slots. -/
def start (session : Session) (limits : Limits) (main : Code) (constants : Array Value) :
    Machine :=
  let (closure, heap) := session.heap.newClosure { code := main } #[]
  { constants
    globals := resize session.globals limits.globalsSize
    frames := [{ closure, base := 0 }]
    limits
    heap }

def load (session : Session) (limits : Limits) (program : Program) : Machine :=
  let (constants, heap) := session.heap.newConstants program.constants
  start { session with heap } limits program.main constants

/-- What a next machine goes on with. -/
def session (m : Machine) : Session :=
  ⟨m.globals, m.heap⟩

/-- Makes a module known under a name, in place of any other of that name. -/
def addModule (m : Machine) (name : String) (members : Dict String Value) : Machine :=
  let (module, heap) := m.heap.newModule ⟨name, members⟩
  { m with modules := m.modules.insert name module, heap }

def depth (m : Machine) : Nat :=
  m.frames.length

def top? (m : Machine) : Option Value :=
  m.stack.back?

/-- The lowest place on the stack that the active frame may pop. -/
def floor (m : Machine) : Nat :=
  match m.frames with
  | [] => 0
  | frame :: _ => frame.floor

end Machine

end ClosureMachine
