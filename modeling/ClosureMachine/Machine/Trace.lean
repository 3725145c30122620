import ClosureMachine.Machine.Display
import ClosureMachine.Machine.Run

/-!
# Traced runs

A traced run is a run that also tells what happens: a line for each instruction that has been
decoded, before it is executed, and the picture of the machine after each frame that is entered or
left. A frame is left before its value is put on the stack. A picture that cannot be drawn brings
the run down.
-/

namespace ClosureMachine

/-- A machine, and the text that it has told. -/
structure Narrator where
  machine : Machine
  told : String

/-- What stops a traced machine. -/
inductive Halt where
  | fault (f : Fault)
  /-- A picture could not be drawn; `message` says so. -/
  | undrawn (message : String)
  deriving DecidableEq, Repr

/-- An action on a machine that may tell something. What was told before it stops stays told. -/
abbrev Traced := EStateM Halt Narrator

namespace Traced

variable {α : Type}

/-- An action of the machine, which tells nothing. -/
def silently (a : Exec α) : Traced α := fun ⟨m, told⟩ =>
  match a m with
  | .ok x m => .ok x ⟨m, told⟩
  | .error fault m => .error (.fault fault) ⟨m, told⟩

def tell (text : Machine → String) : Traced Unit := fun ⟨m, told⟩ =>
  let told := told ++ text m
  .ok () ⟨m, told⟩

/-- Shows the machine, and a line feed. -/
def pose (draw : Typesetter) : Traced Unit := fun ⟨m, told⟩ =>
  match m.view.picture draw with
  | .ok text => tell (fun _ => text ++ "\n") ⟨m, told⟩
  | .error message => .error (.undrawn message) ⟨m, told⟩

/-- The line for an instruction: the depth of the call stack in three columns, the offset, and as
many of the two operands as its operation takes. -/
def instructionLine (depth offset : Nat) (i : Instruction) : String :=
  let depth := String.ofList ((Decimal.ofNat depth).leftpad 3 ' ')
  let offset := String.ofList (Decimal.padded 4 offset)
  let operands := [i.first, i.second].take i.opcode.arity
  s!"{depth} {offset} {String.ofList (Instruction.text ⟨i.opcode, operands⟩)}\n"

def dispatch (host : Host) : Traced Progress := do
  let frame ← silently Exec.frame
  if frame.isFinished then
    silently do if ← Exec.isOutermost then Exec.proceed Exec.endRun else Exec.leaveWith .null
  else
    let i ← silently Exec.fetch
    tell fun m => instructionLine m.depth frame.ip i
    silently (Exec.execute host i)

/-- Shows the machine if a frame has been entered or left. -/
def picture (draw : Typesetter) (progress : Progress) : Traced Unit :=
  match progress with
  | .next => pure ()
  | .entered | .left _ => pose draw

def step (draw : Typesetter) (host : Host) : Traced Unit := do
  let progress ← dispatch host
  picture draw progress
  silently (Exec.deliver progress)

end Traced

/-- How a traced run has ended. -/
inductive Ending where
  /-- The way in which the machine has. -/
  | ran (outcome : Outcome)
  /-- With a picture that could not be drawn. -/
  | undrawn (message : String)
  deriving DecidableEq, Repr

namespace Machine

/-- Runs the machine and tells what happens, after the text told so far. -/
def runTraced (draw : Typesetter) (host : Host) :
    Nat → Machine → String → Option (String × Ending × Machine)
  | 0, _, _ => none
  | fuel + 1, m, told =>
    match m.frames.head? with
    | none => some (told, .ran .finished, m)
    | some frame =>
      match Traced.step draw host ⟨m, told⟩ with
      | .ok () ⟨m, told⟩ => runTraced draw host fuel m told
      | .error (.fault fault) ⟨m, told⟩ =>
        some (told, .ran (.failed (frame.failure m.depth fault)), m)
      | .error (.undrawn message) ⟨m, told⟩ => some (told, .undrawn message, m)

end Machine

end ClosureMachine
