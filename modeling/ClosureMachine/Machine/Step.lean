import ClosureMachine.Machine.Exec
import ClosureMachine.Value.Item
import ClosureMachine.Value.Operation

/-!
# Steps of the machine

A step decodes the instruction at the active frame and executes it. Checks that need no operand
come before the operands are taken, and writes come last, so a fault changes nothing but the
operands already taken and the place in the stream.

A frame at the end of its stream returns null, without an instruction to say so. The outermost one
just ends the run.
-/

namespace ClosureMachine

/-- What a step has done to the call stack. -/
inductive Progress where
  /-- Nothing, or it has ended the run. -/
  | next
  /-- A frame has been entered. -/
  | entered
  /-- A frame has been left, with a value that is still to be put on the stack. -/
  | left (value : Value)

namespace Exec

/-- Runs an action that leaves the call stack alone. -/
def proceed (action : Exec Unit) : Exec Progress := do
  action
  return .next

def leaveWith (value : Value) : Exec Progress := do
  leave
  return .left value

/-- Calls what stands below the top `given` values. A closure gets a frame. A builtin answers at
once, and its answer takes the place of callee and arguments. -/
def call (host : Host) (given : Nat) : Exec Progress := do
  let (place, value) ← callee given
  match value with
  | .closure closure =>
    enter closure given
    return .entered
  | .builtin builtin =>
    let arguments ← above place
    let answer ← onHeap fun heap => host builtin.label heap arguments
    truncate place
    push answer
    return .next
  | value => throw (.notCallable value.kind)

/-- Keys and values, as they lie one after the other on the stack. -/
def pairs : List Value → List (Value × Value)
  | key :: value :: rest => (key, value) :: pairs rest
  | _ => []

/-- The hash of the given entries, a later one taking the place of an earlier one with its key. -/
def hashOf (entries : List (Value × Value)) : Except Fault (Dict Key Value) :=
  entries.foldlM (fun dict (key, value) => (dict.insert · value) <$> key.hashKey) .empty

/-- Executes an instruction, which the active frame is already past. -/
def execute (host : Host) (i : Instruction) : Exec Progress :=
  match i.opcode with
  -- Literals and constants
  | .loadConstant => proceed do push (← constant i.first)
  | .loadTrue => proceed (push (.boolean true))
  | .loadFalse => proceed (push (.boolean false))
  | .loadNull => proceed (push .null)
  -- Scopes
  | .loadBuiltin => proceed do push (← builtin i.first)
  | .assignGlobal => proceed do
    checkGlobal i.first
    setGlobal i.first (← pop)
  | .bindGlobal => proceed do
    checkGlobal i.first
    let value ← pop
    setGlobal i.first value
    push value
  | .loadGlobal => proceed do push (← global i.first)
  | .assignLocal => proceed do
    let place ← localSlot i.first
    setSlot place (← pop)
  | .bindLocal => proceed do
    let place ← localSlot i.first
    let value ← pop
    setSlot place value
    push value
  | .loadLocal => proceed do
    let place ← localSlot i.first
    push (← slot place)
  | .loadFree => proceed do
    let closure := (← frame).closure
    push (← query fun heap =>
      match (heap.captured closure)[i.first]? with
      | some value => .ok value
      | none => .error (.freeOutOfRange i.first (heap.captured closure).size))
  | .setSelf => proceed do
    let closure := (← frame).closure
    query fun heap =>
      if i.first < (heap.captured closure).size then .ok ()
      else .error (.freeOutOfRange i.first (heap.captured closure).size)
    change fun heap => heap.setCapture closure i.first (.closure closure)
  | .loadModule => proceed do push (← moduleNamed (← pop))
  -- Collections
  | .getItem => proceed do
    let index ← pop
    let container ← pop
    push (← query fun heap => heap.getItem container index)
  | .setItem => proceed do
    let value ← pop
    let index ← pop
    let container ← pop
    let place ← query fun heap => heap.locate container index
    change fun heap => heap.write place value
  | .makeArray => proceed do
    let elements ← popMany i.first
    push (← create fun heap => heap.newArray elements)
  | .makeHash => proceed do
    if i.first % 2 ≠ 0 then throw (.oddHashOperand i.first)
    let items ← popMany i.first
    let entries ← query fun _ => hashOf (pairs items.toList)
    push (← create fun heap => heap.newHash entries)
  | .makeClosure => proceed do
    let routine ← routine i.first
    let captures ← popMany i.second
    push (.closure (← create fun heap => heap.newClosure routine captures))
  -- Stack hygiene
  | .pop => proceed do discard (← pop)
  | .noop => proceed (pure ())
  -- Arithmetic and logic
  | .add | .sub | .mul | .div | .mod | .bitwiseOr | .bitwiseXor | .bitwiseAnd | .leftShift
  | .rightShift | .greaterThan | .greaterThanEqual => proceed do
    let right ← pop
    let left ← pop
    push (← attempt fun heap => heap.binary i.opcode left right)
  | .equal => proceed do
    let right ← pop
    let left ← pop
    push (.boolean (left.equals right))
  | .notEqual => proceed do
    let right ← pop
    let left ← pop
    push (.boolean !(left.equals right))
  | .or => proceed do
    let right ← pop
    let left ← pop
    push (.boolean (left.isTruthy || right.isTruthy))
  | .and => proceed do
    let right ← pop
    let left ← pop
    push (.boolean (left.isTruthy && right.isTruthy))
  | .not | .minus | .bitwiseNot => proceed do
    let operand ← pop
    push (← query fun _ => operand.unary i.opcode)
  -- Control flow
  | .jump => proceed (jump i.first)
  | .jumpIfFalse => proceed do
    let condition ← pop
    if !condition.isTruthy then jump i.first
  | .call => call host i.first
  | .returnValue => do leaveWith (← pop)
  | .bareReturn => leaveWith .null

/-- What the active frame does next, up to the value that it may leave behind. -/
def dispatch (host : Host) : Exec Progress := do
  let frame ← frame
  if frame.isFinished then
    if ← isOutermost then proceed endRun else leaveWith .null
  else
    execute host (← fetch)

/-- Puts the value that a frame has left behind on the stack. -/
def deliver : Progress → Exec Unit
  | .left value => push value
  | _ => pure ()

def step (host : Host) : Exec Unit := do
  deliver (← dispatch host)

end Exec

end ClosureMachine
