import ClosureMachine.Fault
import ClosureMachine.Dict

/-!
# The heap

Everything that is shared by reference: arrays and hashes, which programs change in place, the
captures of closures, which a closure can change in one way, and modules, which nothing changes.
Places in the heap are given out in order and are never taken back.
-/

namespace ClosureMachine

/-- A named collection of values that the host provides. -/
structure Module where
  name : String
  members : Dict String Value

structure Heap where
  arrays : Array (Array Value) := #[]
  hashes : Array (Dict Key Value) := #[]
  captures : Array (Array Value) := #[]
  modules : Array Module := #[]
  /-- How many functions and builtins have been told apart so far. -/
  identities : Nat := 0

instance : Inhabited Heap := ⟨{}⟩

namespace Heap

/-! ### What stands at a place -/

def array (heap : Heap) (id : Nat) : Array Value :=
  heap.arrays[id]?.getD #[]

def hash (heap : Heap) (id : Nat) : Dict Key Value :=
  heap.hashes[id]?.getD .empty

def captured (heap : Heap) (closure : Closure) : Array Value :=
  heap.captures[closure.id]?.getD #[]

def module (heap : Heap) (id : Nat) : Module :=
  heap.modules[id]?.getD ⟨"", .empty⟩

/-! ### New places -/

def newArray (heap : Heap) (elements : Array Value) : Value × Heap :=
  (.array heap.arrays.size, { heap with arrays := heap.arrays.push elements })

def newHash (heap : Heap) (entries : Dict Key Value) : Value × Heap :=
  (.hash heap.hashes.size, { heap with hashes := heap.hashes.push entries })

def newClosure (heap : Heap) (routine : Routine) (captures : Array Value) : Closure × Heap :=
  (⟨heap.captures.size, routine⟩, { heap with captures := heap.captures.push captures })

def newModule (heap : Heap) (module : Module) : Value × Heap :=
  (.module heap.modules.size, { heap with modules := heap.modules.push module })

def newFunction (heap : Heap) (routine : Routine) : Value × Heap :=
  (.function heap.identities routine, { heap with identities := heap.identities + 1 })

def newBuiltin (heap : Heap) (name label : String) : Builtin × Heap :=
  (⟨heap.identities, name, label⟩, { heap with identities := heap.identities + 1 })

def newConstant (heap : Heap) : Constant → Value × Heap
  | .integer n => (.integer n, heap)
  | .string text => (.string text, heap)
  | .function routine => heap.newFunction routine

def newConstants (heap : Heap) (constants : Array Constant) : Array Value × Heap :=
  constants.foldl
    (fun (values, heap) constant =>
      let (value, heap) := heap.newConstant constant
      (values.push value, heap))
    (#[], heap)

/-! ### Changes in place -/

def setElement (heap : Heap) (id slot : Nat) (value : Value) : Heap :=
  { heap with arrays := heap.arrays.modify id (·.setIfInBounds slot value) }

def appendTo (heap : Heap) (id : Nat) (elements : Array Value) : Heap :=
  { heap with arrays := heap.arrays.modify id (· ++ elements) }

def setEntry (heap : Heap) (id : Nat) (key : Key) (value : Value) : Heap :=
  { heap with hashes := heap.hashes.modify id (·.insert key value) }

def setCapture (heap : Heap) (closure : Closure) (slot : Nat) (value : Value) : Heap :=
  { heap with captures := heap.captures.modify closure.id (·.setIfInBounds slot value) }

end Heap

/-- A function of the host: given its arguments, it answers a value or faults, and may change what
stands in the heap. -/
abbrev HostFunction := Heap → List Value → Except Fault Value × Heap

/-- A host: the functions it offers, by their labels. -/
abbrev Host := String → HostFunction

end ClosureMachine
