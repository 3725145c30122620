import ClosureMachine.Value

/-!
# Frames

A frame is one call of one closure. Its slots stand on the stack from its base on: first the
parameters, then the other locals. Just below the base stands the closure that was called.
Temporaries live above the slots.
-/

namespace ClosureMachine

/-- An activation of a closure. -/
structure Frame where
  closure : Closure
  /-- The offset of the next instruction. -/
  ip : Nat := 0
  /-- The place on the stack of local slot 0. -/
  base : Nat
  deriving DecidableEq, Repr

namespace Frame

def code (frame : Frame) : Code :=
  frame.closure.routine.code

def slots (frame : Frame) : Nat :=
  frame.closure.routine.slots

/-- The place on the stack where temporaries begin. Nothing below it may be popped. The sum is
taken without a bound: a function whose slots and the stack size together reach `2 ^ 64` is left
out. -/
def floor (frame : Frame) : Nat :=
  frame.base + frame.slots

def isFinished (frame : Frame) : Bool :=
  frame.code.size ≤ frame.ip

/-- The frame about to go on at `target`, or the length of the stream that `target` lies beyond.
The very end of the stream is a target like any other. -/
def jump (frame : Frame) (target : Nat) : Except Nat Frame :=
  if frame.code.size < target then .error frame.code.size else .ok { frame with ip := target }

def next (frame : Frame) : Except CodecError Instruction :=
  Instruction.decodeAt frame.code frame.ip

/-- The next instruction, and the frame past it. -/
def fetch (frame : Frame) : Except CodecError (Instruction × Frame) :=
  (fun i => (i, { frame with ip := frame.ip + i.size })) <$> frame.next

def display (frame : Frame) : String :=
  let ip := String.ofList (Decimal.padded 4 frame.ip)
  s!"closure/{frame.closure.routine.params} ip={ip} bp={frame.base}"

end Frame

end ClosureMachine
