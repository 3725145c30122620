import ClosureMachine.Value

/-!
# Faults

What can go wrong in the course of a run, and where it did.
-/

namespace ClosureMachine

/-- What goes wrong when an instruction is decoded or executed. -/
inductive Fault where
  | stackOverflow
  | stackUnderflow
  | frameOverflow (limit : Nat)
  | arityMismatch (expected given : Nat)
  | typeMismatch (left right : Kind)
  | unsupportedOperand (kind : Kind)
  | divisionByZero
  | invalidShift (amount : Int64)
  | indexOutOfRange (index : Int64) (length : Nat)
  | unhashableKey (kind : Kind)
  | oddHashOperand (count : Nat)
  | notCallable (kind : Kind)
  | notAFunction (kind : Kind)
  | constantOutOfRange (index : Nat)
  | globalOutOfRange (index size : Nat)
  | localOutOfRange (index slots : Nat)
  | freeOutOfRange (index captured : Nat)
  | unknownBuiltin (index : Nat)
  | unknownModule (name : String)
  | jumpOutOfRange (target length : Nat)
  /-- Raised by a function of the host, in its own words. -/
  | host (text : String)
  | codec (e : CodecError)
  deriving DecidableEq, Repr

def Fault.message : Fault → String
  | stackOverflow => "stack overflow"
  | stackUnderflow => "stack underflow"
  | frameOverflow limit => s!"call stack overflow: more than {limit} frames"
  | arityMismatch expected given =>
    s!"wrong number of arguments: want={expected}, got={given}"
  | typeMismatch left right => s!"unsupported types for operation: {left.name} {right.name}"
  | unsupportedOperand kind => s!"unsupported type for operation: {kind.name}"
  | divisionByZero => "division by zero"
  | invalidShift amount => s!"shift by {amount.toInt} is out of range"
  | indexOutOfRange index length =>
    s!"index {index.toInt} out of range for array of length {length}"
  | unhashableKey kind => s!"unusable as hash key: {kind.name}"
  | oddHashOperand count => s!"MakeHash operand {count} is odd"
  | notCallable kind => s!"calling non-function: {kind.name}"
  | notAFunction kind => s!"constant is not a function: {kind.name}"
  | constantOutOfRange index => s!"constant {index} undefined"
  | globalOutOfRange index size =>
    s!"global {index} out of range: the store has {size} slots"
  | localOutOfRange index slots =>
    s!"local {index} out of range: the frame has {slots} slots"
  | freeOutOfRange index captured =>
    s!"free variable {index} out of range: the closure captures {captured}"
  | unknownBuiltin index => s!"builtin {index} undefined"
  | unknownModule name => s!"module {name} undefined"
  | jumpOutOfRange target length =>
    s!"jump target {target} is past the end of the {length} byte stream"
  | host text => text
  | codec e => e.message

/-- A fault and where it happened. -/
structure Failure where
  fault : Fault
  /-- The operation that was being executed; none if no instruction could be decoded. -/
  opcode? : Option Opcode
  /-- The offset of the instruction in the stream of the active frame. -/
  offset : Nat
  /-- How many frames were on the call stack, the outermost included. -/
  depth : Nat
  deriving DecidableEq, Repr

def Failure.message (e : Failure) : String :=
  let activity :=
    match e.opcode? with
    | some op => s!"executing {op.mnemonic}"
    | none => "decoding"
  let offset := String.ofList (Decimal.padded 4 e.offset)
  s!"{e.fault.message} ({activity} at {offset}, frame depth {e.depth})"

/-- The key that a value can serve as, or the fault of using it as one. -/
def Value.hashKey (v : Value) : Except Fault Key :=
  match v.key? with
  | some key => .ok key
  | none => .error (.unhashableKey v.kind)

end ClosureMachine
