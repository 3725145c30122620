import ClosureMachine.Machine.Step

/-!
# The machine with its demands written out

The actions of the machine have an answer in every state. What a processor does has not: to index or
to slice an array demands that the place is in it, a sum that the word it goes to is wide enough, a
difference that it is not negative. Here the steps of the machine are made of operations that check
these demands where they come up, and stop at the first one that is not met.

An action without demands is taken over from the machine by `lift`.
-/

namespace ClosureMachine

/-- What has to hold where an operation is not possible on all numbers. -/
inductive Demand where
  /-- To take all elements from `start` on. -/
  | suffix (start length : Nat)
  | element (place length : Nat)
  /-- To copy `count` elements into a block of `capacity`. -/
  | copy (count capacity : Nat)
  | sum (a b : Nat)
  | difference (a b : Nat)
  deriving DecidableEq, Repr

/-- Numbers are words of 64 bits. -/
def Demand.Met : Demand → Prop
  | suffix start length => start ≤ length
  | element place length => place < length
  | copy count capacity => count ≤ capacity
  | sum a b => a + b < Nat.pow 2 64
  | difference a b => b ≤ a

instance Demand.decidableMet : DecidablePred Demand.Met
  | suffix start length => inferInstanceAs (Decidable (start ≤ length))
  | element place length => inferInstanceAs (Decidable (place < length))
  | copy count capacity => inferInstanceAs (Decidable (count ≤ capacity))
  | sum a b => inferInstanceAs (Decidable (a + b < Nat.pow 2 64))
  | difference a b => inferInstanceAs (Decidable (b ≤ a))

/-- Why an action has not come to its end. -/
inductive Stop where
  | fault (fault : Fault)
  | unmet (demand : Demand)
  deriving DecidableEq, Repr

abbrev Guarded := EStateM Stop Machine

namespace Guarded

variable {α : Type}

/-- A result of the machine, as one in which every demand was met. -/
def met : EStateM.Result Fault Machine α → EStateM.Result Stop Machine α
  | .ok x m => .ok x m
  | .error fault m => .error (.fault fault) m

def lift (a : Exec α) : Guarded α := fun m =>
  met (a m)

def ofExcept : Except Fault α → Guarded α
  | .ok x => pure x
  | .error fault => throw (.fault fault)

def decoded : Except CodecError α → Guarded α
  | .ok x => pure x
  | .error e => throw (.fault (.codec e))

/-! ### Operations with a demand -/

def check (demand : Demand) : Guarded Unit :=
  if demand.Met then pure () else throw (.unmet demand)

def sum (a b : Nat) : Guarded Nat := do
  check (.sum a b)
  return a + b

def difference (a b : Nat) : Guarded Nat := do
  check (.difference a b)
  return a - b

def element (values : Array α) (place : Nat) : Guarded α :=
  match values[place]? with
  | some x => pure x
  | none => throw (.unmet (.element place values.size))

def suffix (values : Array α) (start : Nat) : Guarded (Array α) := do
  check (.suffix start values.size)
  return values.extract start values.size

/-! ### The operand stack -/

/-- The lowest place on the stack that the active frame may pop. -/
def floor : Guarded Nat := do
  match (← get).frames with
  | [] => return 0
  | frame :: _ => sum frame.base frame.slots

def pop : Guarded Value := do
  let height := (← get).stack.size
  if height ≤ (← floor) then throw (.fault .stackUnderflow) else lift Exec.pop

def popMany (count : Nat) : Guarded (Array Value) := do
  let m ← get
  if m.stack.size < count then throw (.fault .stackUnderflow)
  else
    let start := m.stack.size - count
    if start < (← floor) then throw (.fault .stackUnderflow)
    else
      let values ← suffix m.stack start
      set { m with stack := m.stack.shrink start }
      return values

/-! ### Variables -/

def global (index : Nat) : Guarded Value := do
  lift (Exec.checkGlobal index)
  element (← get).globals index

def setGlobal (index : Nat) (value : Value) : Guarded Unit := do
  check (.element index (← get).globals.size)
  lift (Exec.setGlobal index value)

def localSlot (index : Nat) : Guarded Nat := do
  let frame ← lift Exec.frame
  if index < frame.slots then
    sum frame.base index
  else
    throw (.fault (.localOutOfRange index frame.slots))

def slot (place : Nat) : Guarded Value := do
  element (← get).stack place

def setSlot (place : Nat) (value : Value) : Guarded Unit := do
  check (.element place (← get).stack.size)
  lift (Exec.setSlot place value)

/-! ### Collections -/

/-- The values by twos. If they are odd in number, the last one is left by itself. -/
def chunks : List Value → List (Array Value)
  | key :: value :: rest => #[key, value] :: chunks rest
  | [key] => [#[key]]
  | [] => []

def hashOf (items : List Value) : Guarded (Dict Key Value) :=
  (chunks items).foldlM (fun dict pair => do
    let key ← ofExcept (← element pair 0).hashKey
    return dict.insert key (← element pair 1)) .empty

/-! ### Frames -/

/-- Operands at the given widths, the first of them at `offset`, and where the last one ends. -/
def readOperands : List Nat → Array UInt8 → Nat → Guarded (List Nat × Nat)
  | [], _, offset => return ([], offset)
  | width :: widths, bytes, offset => do
    let operand ← decoded (Instruction.readNumber width (← suffix bytes offset).toList)
    let (operands, stop) ← readOperands widths bytes (← sum offset width)
    return (operand :: operands, stop)

/-- The next instruction of a frame, and the frame past it. The operands are copied to a block of
two. -/
def next (frame : Frame) : Guarded (Instruction × Frame) := do
  let byte ← decoded (Instruction.readNumber 1 (← suffix frame.code frame.ip).toList)
  let op ← decoded (Opcode.lookup byte.toUInt8)
  let start ← sum frame.ip 1
  let bytes ← suffix frame.code start
  if bytes.size < op.operandBytes then
    throw (.fault (.codec (.unexpectedEnd op.operandBytes bytes.size)))
  else
    let (operands, read) ← readOperands op.widths bytes 0
    check (.copy operands.length 2)
    return (⟨op, operands⟩, { frame with ip := ← sum start read })

def fetch : Guarded Instruction := do
  let m ← get
  match m.frames with
  | [] => throw (.fault .stackUnderflow)
  | frame :: callers =>
    let (i, frame) ← next frame
    set { m with frames := frame :: callers }
    return i

def enter (closure : Closure) (given : Nat) : Guarded Unit := do
  let m ← get
  if given ≠ closure.routine.params then
    throw (.fault (.arityMismatch closure.routine.params given))
  else if m.limits.maxFrames ≤ m.depth then
    throw (.fault (.frameOverflow m.limits.maxFrames))
  else
    let base ← difference m.stack.size given
    let top ← sum base closure.routine.slots
    if m.limits.stackSize < top then
      throw (.fault .stackOverflow)
    else
      set { m with
        stack := m.stack ++ Array.replicate (top - m.stack.size) Value.null
        frames := { closure, base } :: m.frames }

def leave : Guarded Unit := do
  let m ← get
  match m.frames with
  | [] => throw (.fault .stackUnderflow)
  | frame :: callers =>
    let height ← if callers.isEmpty then pure frame.base else difference frame.base 1
    set { m with stack := m.stack.shrink height, frames := callers }

def callee (given : Nat) : Guarded (Nat × Value) := do
  let m ← get
  let taken ← sum given 1
  if m.stack.size < taken then throw (.fault .stackUnderflow)
  else
    let place := m.stack.size - taken
    if place < (← floor) then throw (.fault .stackUnderflow)
    else return (place, ← element m.stack place)

def above (place : Nat) : Guarded (List Value) := do
  return (← suffix (← get).stack (← sum place 1)).toList

/-! ### Instructions and steps -/

def proceed (action : Guarded Unit) : Guarded Progress := do
  action
  return .next

def leaveWith (value : Value) : Guarded Progress := do
  leave
  return .left value

def call (host : Host) (given : Nat) : Guarded Progress := do
  let (place, value) ← callee given
  match value with
  | .closure closure =>
    enter closure given
    return .entered
  | .builtin builtin =>
    let arguments ← above place
    let answer ← lift (Exec.onHeap fun heap => host builtin.label heap arguments)
    lift (Exec.truncate place)
    lift (Exec.push answer)
    return .next
  | value => throw (.fault (.notCallable value.kind))

def execute (host : Host) (i : Instruction) : Guarded Progress :=
  match i.opcode with
  | .assignGlobal => proceed do
    lift (Exec.checkGlobal i.first)
    setGlobal i.first (← pop)
  | .bindGlobal => proceed do
    lift (Exec.checkGlobal i.first)
    let value ← pop
    setGlobal i.first value
    lift (Exec.push value)
  | .loadGlobal => proceed do lift (Exec.push (← global i.first))
  | .assignLocal => proceed do
    let place ← localSlot i.first
    setSlot place (← pop)
  | .bindLocal => proceed do
    let place ← localSlot i.first
    let value ← pop
    setSlot place value
    lift (Exec.push value)
  | .loadLocal => proceed do
    let place ← localSlot i.first
    lift (Exec.push (← slot place))
  | .loadModule => proceed do lift (Exec.push (← lift (Exec.moduleNamed (← pop))))
  | .getItem => proceed do
    let index ← pop
    let container ← pop
    lift (Exec.push (← lift (Exec.query fun heap => heap.getItem container index)))
  | .setItem => proceed do
    let value ← pop
    let index ← pop
    let container ← pop
    let place ← lift (Exec.query fun heap => heap.locate container index)
    lift (Exec.change fun heap => heap.write place value)
  | .makeArray => proceed do
    let elements ← popMany i.first
    lift (Exec.push (← lift (Exec.create fun heap => heap.newArray elements)))
  | .makeHash => proceed do
    if i.first % 2 ≠ 0 then throw (.fault (.oddHashOperand i.first))
    let items ← popMany i.first
    let entries ← hashOf items.toList
    lift (Exec.push (← lift (Exec.create fun heap => heap.newHash entries)))
  | .makeClosure => proceed do
    let routine ← lift (Exec.routine i.first)
    let captures ← popMany i.second
    lift (Exec.push (.closure (← lift (Exec.create fun heap => heap.newClosure routine captures))))
  | .pop => proceed do lift (Exec.discard (← pop))
  | .add | .sub | .mul | .div | .mod | .bitwiseOr | .bitwiseXor | .bitwiseAnd | .leftShift
  | .rightShift | .greaterThan | .greaterThanEqual => proceed do
    let right ← pop
    let left ← pop
    lift (Exec.push (← lift (Exec.attempt fun heap => heap.binary i.opcode left right)))
  | .equal => proceed do
    let right ← pop
    let left ← pop
    lift (Exec.push (.boolean (left.equals right)))
  | .notEqual => proceed do
    let right ← pop
    let left ← pop
    lift (Exec.push (.boolean !(left.equals right)))
  | .or => proceed do
    let right ← pop
    let left ← pop
    lift (Exec.push (.boolean (left.isTruthy || right.isTruthy)))
  | .and => proceed do
    let right ← pop
    let left ← pop
    lift (Exec.push (.boolean (left.isTruthy && right.isTruthy)))
  | .not | .minus | .bitwiseNot => proceed do
    let operand ← pop
    lift (Exec.push (← lift (Exec.query fun _ => operand.unary i.opcode)))
  | .jumpIfFalse => proceed do
    let condition ← pop
    if !condition.isTruthy then lift (Exec.jump i.first)
  | .call => call host i.first
  | .returnValue => do leaveWith (← pop)
  | .bareReturn => leaveWith .null
  -- these take nothing off the stack, and what they look up they may miss
  | .loadConstant | .loadTrue | .loadFalse | .loadNull | .loadBuiltin | .loadFree | .setSelf
  | .noop | .jump => lift (Exec.execute host i)

def dispatch (host : Host) : Guarded Progress := do
  let frame ← lift Exec.frame
  if frame.isFinished then
    if ← lift Exec.isOutermost then proceed (lift Exec.endRun) else leaveWith .null
  else
    execute host (← fetch)

def step (host : Host) : Guarded Unit := do
  lift (Exec.deliver (← dispatch host))

end Guarded

end ClosureMachine
