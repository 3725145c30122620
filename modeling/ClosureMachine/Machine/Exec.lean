import ClosureMachine.Machine

/-!
# Actions on a machine

The steps out of which instructions are made: each reads or changes one part of the machine, or
faults. A fault leaves the machine as the action found it.
-/

namespace ClosureMachine

/-- An action on a machine: it answers a value or faults. What was done before a fault stays done. -/
abbrev Exec := EStateM Fault Machine

namespace Exec

/-! ### The operand stack -/

def push (value : Value) : Exec Unit := fun m =>
  if m.stack.size < m.limits.stackSize then
    .ok () { m with stack := m.stack.push value }
  else
    .error .stackOverflow m

/-- Takes the top of the stack, which has to be a temporary of the active frame. -/
def pop : Exec Value := fun m =>
  if _ : m.floor < m.stack.size then
    .ok (m.stack.back (by omega)) { m with stack := m.stack.pop }
  else
    .error .stackUnderflow m

/-- Takes `count` temporaries at once, and answers them in the order in which they were pushed. -/
def popMany (count : Nat) : Exec (Array Value) := fun m =>
  if m.floor + count ≤ m.stack.size then
    let start := m.stack.size - count
    .ok (m.stack.extract start m.stack.size) { m with stack := m.stack.shrink start }
  else
    .error .stackUnderflow m

def truncate (height : Nat) : Exec Unit := fun m =>
  .ok () { m with stack := m.stack.shrink height }

def discard (value : Value) : Exec Unit := fun m =>
  .ok () { m with lastPopped := value }

/-! ### Constants, builtins and modules -/

def constant (index : Nat) : Exec Value := fun m =>
  match m.constants[index]? with
  | some value => .ok value m
  | none => .error (.constantOutOfRange index) m

def routine (index : Nat) : Exec Routine := do
  match ← constant index with
  | .function _ routine => pure routine
  | value => throw (.notAFunction value.kind)

def builtin (index : Nat) : Exec Value := fun m =>
  match m.builtins.get? index with
  | some builtin => .ok (.builtin builtin) m
  | none => .error (.unknownBuiltin index) m

def moduleNamed (name : Value) : Exec Value := fun m =>
  match name with
  | .string name =>
    match m.modules.find? name with
    | some module => .ok module m
    | none => .error (.unknownModule name) m
  | name => .error (.unsupportedOperand name.kind) m

/-! ### Variables -/

def checkGlobal (index : Nat) : Exec Unit := fun m =>
  if index < m.globals.size then .ok () m
  else .error (.globalOutOfRange index m.globals.size) m

def global (index : Nat) : Exec Value := fun m =>
  match m.globals[index]? with
  | some value => .ok value m
  | none => .error (.globalOutOfRange index m.globals.size) m

def setGlobal (index : Nat) (value : Value) : Exec Unit := fun m =>
  .ok () { m with globals := m.globals.setIfInBounds index value }

def frame : Exec Frame := fun m =>
  match m.frames with
  | [] => .error .stackUnderflow m
  | frame :: _ => .ok frame m

def isOutermost : Exec Bool := fun m =>
  .ok (m.depth == 1) m

/-- The place on the stack of a local slot of the active frame. -/
def localSlot (index : Nat) : Exec Nat := do
  let frame ← frame
  if index < frame.slots then
    pure (frame.base + index)
  else
    throw (.localOutOfRange index frame.slots)

def slot (place : Nat) : Exec Value := fun m =>
  .ok (m.stack[place]?.getD .null) m

def setSlot (place : Nat) (value : Value) : Exec Unit := fun m =>
  .ok () { m with stack := m.stack.setIfInBounds place value }

/-! ### The heap -/

def query {α : Type} (f : Heap → Except Fault α) : Exec α := fun m =>
  match f m.heap with
  | .ok a => .ok a m
  | .error fault => .error fault m

def onHeap {α : Type} (f : Heap → Except Fault α × Heap) : Exec α := fun m =>
  -- the machine lets go of its heap, which can then be changed in place
  let heap := m.heap
  let m := { m with heap := {} }
  match f heap with
  | (.ok a, heap) => .ok a { m with heap }
  | (.error fault, heap) => .error fault { m with heap }

def create {α : Type} (f : Heap → α × Heap) : Exec α :=
  onHeap fun heap =>
    let (a, heap) := f heap
    (.ok a, heap)

def change (f : Heap → Heap) : Exec Unit :=
  create fun heap => ((), f heap)

/-- Works on the heap unless there is a fault. -/
def attempt {α : Type} (f : Heap → Except Fault (α × Heap)) : Exec α :=
  onHeap fun heap =>
    match f heap with
    | .ok (a, heap) => (.ok a, heap)
    | .error fault => (.error fault, heap)

/-! ### Frames -/

def fetch : Exec Instruction := fun m =>
  match m.frames with
  | [] => .error .stackUnderflow m
  | frame :: callers =>
    match frame.fetch with
    | .ok (i, frame) => .ok i { m with frames := frame :: callers }
    | .error e => .error (.codec e) m

def jump (target : Nat) : Exec Unit := fun m =>
  match m.frames with
  | [] => .error .stackUnderflow m
  | frame :: callers =>
    match frame.jump target with
    | .ok frame => .ok () { m with frames := frame :: callers }
    | .error length => .error (.jumpOutOfRange target length) m

/-- Puts a frame for `closure` on the call stack. The top `given` values are its arguments, and
they become its first slots; the other slots start out null. The sums are taken without a bound: a
function whose slots and the stack size together reach `2 ^ 64` is left out. -/
def enter (closure : Closure) (given : Nat) : Exec Unit := fun m =>
  let expected := closure.routine.params
  let base := m.stack.size - given
  let top := base + closure.routine.slots
  if given ≠ expected then
    .error (.arityMismatch expected given) m
  else if m.limits.maxFrames ≤ m.depth then
    .error (.frameOverflow m.limits.maxFrames) m
  else if m.limits.stackSize < top then
    .error .stackOverflow m
  else
    .ok () { m with
      stack := m.stack ++ Array.replicate (top - m.stack.size) .null
      frames := { closure, base } :: m.frames }

/-- Takes the active frame off the call stack, and off the operand stack everything down to its
callee. The outermost frame has no callee. -/
def leave : Exec Unit := fun m =>
  match m.frames with
  | [] => .error .stackUnderflow m
  | frame :: callers =>
    let height := if callers.isEmpty then frame.base else frame.base - 1
    .ok () { m with stack := m.stack.shrink height, frames := callers }

/-- Takes the outermost frame off the call stack and leaves the operand stack alone. -/
def endRun : Exec Unit := fun m =>
  .ok () { m with frames := m.frames.tail }

/-- What stands below the top `given` values, and its place. It has to be a temporary. -/
def callee (given : Nat) : Exec (Nat × Value) := fun m =>
  if _ : m.floor + (given + 1) ≤ m.stack.size then
    let place := m.stack.size - (given + 1)
    .ok (place, m.stack[place]) m
  else
    .error .stackUnderflow m

def above (place : Nat) : Exec (List Value) := fun m =>
  .ok (m.stack.extract (place + 1) m.stack.size).toList m

end Exec

end ClosureMachine
