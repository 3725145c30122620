import ClosureMachine.Machine.Step

/-!
# Runs

A run steps until the outermost frame has returned or come to its end, or until a fault. A faulted
machine can be run again and goes on from where the fault left it. Programs need not end, so a run
is given fuel, one unit for each step and one to see that there is nothing left to do.
-/

namespace ClosureMachine

/-- How a run has ended. -/
inductive Outcome where
  | finished
  | failed (e : Failure)
  deriving DecidableEq, Repr

/-- A fault in the step that began with this active frame, and that ended with `depth` frames on
the call stack. -/
def Frame.failure (frame : Frame) (depth : Nat) (fault : Fault) : Failure where
  fault := fault
  opcode? := frame.next.toOption.map (·.opcode)
  offset := frame.ip
  depth := depth

namespace Machine

/-- Runs the machine; no answer if the fuel does not last. -/
def run (host : Host) : Nat → Machine → Option (Outcome × Machine)
  | 0, _ => none
  | fuel + 1, m =>
    match m.frames.head? with
    | none => some (.finished, m)
    | some frame =>
      match Exec.step host m with
      | .ok () m => run host fuel m
      | .error fault m => some (.failed (frame.failure m.depth fault), m)

end Machine

end ClosureMachine
