import ClosureMachine.Proofs.Machine.Invariant
import ClosureMachine.Proofs.Machine.Refusals

/-!
# What an instruction does to the stack

Every instruction but the call and the returns moves the stack by numbers that are written in it,
`Instruction.pops` and `Instruction.pushes`, whatever the state it is executed in.

* **`Commit.size_eq`** and **`Commit.getElem?_of_lt`** are about the end of an instruction, when its
  operands are gone. **`shifts_of_step`** is about all of it.
* **`stack_effect`** is about the step of any state of a machine. It says what is on the stack
  afterwards, and that it is a fault to have too few temporaries. A fault of the stack comes of
  nothing else, but for an instruction that takes nothing and pushes onto a full stack.
-/

namespace ClosureMachine

variable {host : Host} {m m' : Machine} {frame : Frame} {callers : List Frame} {i : Instruction}

namespace Instruction

theorem pushes_le (i : Instruction) : i.pushes ≤ 1 := by
  unfold pushes
  split <;> decide

/-- The instruction writes a slot of its frame. -/
def WritesSlot (i : Instruction) : Prop :=
  i.opcode = .assignLocal ∨ i.opcode = .bindLocal

end Instruction

/-- The stack `after` is the stack `before` without its top `i.pops` values and with `i.pushes`
values on top. Of the values that are left, only the slot that `i` writes may be another. -/
structure Shifts (i : Instruction) (frame : Frame) (before after : Array Value) : Prop where
  enough : frame.floor + i.pops ≤ before.size
  size : after.size = before.size - i.pops + i.pushes
  kept : ∀ place < before.size - i.pops, after[place]? = before[place]?
    ∨ i.WritesSlot ∧ place = frame.base + i.first

/-! ## The end of an instruction -/

theorem Commit.size_eq (h : Commit i m m') : m'.stack.size = m.stack.size + i.pushes := by
  cases h with
  | nothing hop | jump hop => rcases hop with hop | hop <;> simp [Instruction.pushes, hop]
  | push v hpushes => simp [hpushes]
  | discard v hop | assignGlobal v hop | bindGlobal v hop | assignLocal v hop | bindLocal v hop
  | setSelf hop | setItem place v hop => simp [Instruction.pushes, hop]

/-- What is left on the stack stays as it is, but for the slot that is written. -/
theorem Commit.getElem?_of_lt (hframes : m.frames = frame :: callers) (h : Commit i m m')
    {place : Nat} (hplace : place < m.stack.size) :
    m'.stack[place]? = m.stack[place]? ∨ i.WritesSlot ∧ place = frame.base + i.first := by
  have hset : ∀ v, place ≠ frame.base + i.first →
      (m.stack.setIfInBounds (frame.base + i.first) v)[place]? = m.stack[place]? :=
    fun v hne => Array.getElem?_setIfInBounds_ne fun heq => hne heq.symm
  cases h with
  | push v | bindGlobal v =>
    left
    rw [Array.getElem?_push, if_neg (by omega)]
  | assignLocal v hop hframes' =>
    cases hframes.symm.trans hframes'
    by_cases heq : place = frame.base + i.first
    · exact Or.inr ⟨Or.inl hop, heq⟩
    · exact Or.inl (hset v heq)
  | bindLocal v hop hframes' =>
    cases hframes.symm.trans hframes'
    by_cases heq : place = frame.base + i.first
    · exact Or.inr ⟨Or.inr hop, heq⟩
    · left
      rw [Array.getElem?_push, if_neg (by rw [Array.size_setIfInBounds]; omega)]
      exact hset v heq
  | _ => exact Or.inl rfl

/-! ## The step of an instruction -/

theorem shifts_of_step (h : WellFormed m) (hframes : m.frames = frame :: callers)
    (hnext : frame.next = .ok i) (hop : i.opcode.transfers = false)
    (hstep : Exec.step host m = .ok () m') : Shifts i frame m.stack m'.stack := by
  obtain ⟨a, ha, hends⟩ := Exec.execute_straight host i hop
  rw [Exec.step_of_proceed hframes hnext ha] at hstep
  have hfloor : m.floor = frame.floor := Exec.floor_of_frames hframes
  have hpast : frame.floor ≤ m.stack.size := hfloor ▸ h.floor_le
  obtain ⟨m₁, took, hcommit⟩ :=
    hends.ok (m := { m with frames := frame.past i :: callers }) hpast h.stack_le hstep
  refine ⟨took.enough, hcommit.size_eq.trans (by rw [took.size]), fun place hplace => ?_⟩
  rw [← took.getElem?_of_lt hplace]
  exact hcommit.getElem?_of_lt took.frames (by rwa [took.size])

/-- An instruction that stays in its frame is refused for the reasons that there are in the state
before its step. -/
theorem refusal_of_step (hframes : m.frames = frame :: callers) (hnext : frame.next = .ok i)
    (hop : i.opcode.transfers = false) {fault : Fault}
    (hstep : Exec.step host m = .error fault m') :
    Refusal i i.pops { m with frames := frame.past i :: callers } fault := by
  obtain ⟨a, ha, -⟩ := Exec.execute_straight host i hop
  rw [Exec.step_of_proceed hframes hnext ha] at hstep
  have hexecute : Exec.execute host i { m with frames := frame.past i :: callers }
      = .error fault m' := by
    rw [ha]
    exact Exec.bind_eq_error.mpr (Or.inl hstep)
  exact Exec.refuses_execute host i hop _ m' fault (by simp) hexecute

/-- **The stack effect of an instruction.** In every state of a machine whose next instruction is `i`,
no call and no return: its step takes `i.pops` values off the stack and pushes `i.pushes`, at most
one. With fewer temporaries than `i.pops` it faults, only then for want of them, and for want of room
only where it takes nothing and the stack is full. -/
theorem stack_effect (hreach : m.Reachable host) (hframes : m.frames = frame :: callers)
    (hnext : frame.next = .ok i) (hop : i.opcode.transfers = false) :
    i.pushes ≤ 1
      ∧ (∀ m', Exec.step host m = .ok () m' → Shifts i frame m.stack m'.stack)
      ∧ (m.stack.size < frame.floor + i.pops → ∃ fault m', Exec.step host m = .error fault m')
      ∧ (∀ m', Exec.step host m = .error .stackUnderflow m' →
        m.stack.size < frame.floor + i.pops)
      ∧ ∀ m', Exec.step host m = .error .stackOverflow m' →
        i.pops = 0 ∧ i.pushes = 1 ∧ m.stack.size = m.limits.stackSize := by
  have hwf : WellFormed m := hreach.induct (fun _ => .of_fresh) fun _ hm => hm.advance host
  refine ⟨i.pushes_le, fun m' => shifts_of_step hwf hframes hnext hop, fun hfew => ?_,
    fun m' hstep => ?_, fun m' hstep => ?_⟩
  · cases hstep : Exec.step host m with
    | ok _ m' =>
      have henough := (shifts_of_step hwf hframes hnext hop hstep).enough
      omega
    | error fault m' => exact ⟨fault, m', rfl⟩
  · cases refusal_of_step hframes hnext hop hstep with
    | few hfew => exact hfew
    | operand hblames => cases hblames
  · cases refusal_of_step hframes hnext hop hstep with
    | full hpushes hfull =>
      have hfull : m.limits.stackSize + i.pops ≤ m.stack.size := hfull
      have hle := hwf.stack_le
      exact ⟨by omega, hpushes, by omega⟩
    | operand hblames => cases hblames

/-- A machine with room for two values, about to make an array of the two that it has. -/
def packedPair : Machine :=
  (Machine.load {} ⟨2, 1, 0⟩ ⟨#[11, 13, 16, 0, 2], #[]⟩).after Host.sample 2

/-- On a full stack two values give way to the array that is made of them. -/
theorem stack_effect_full :
    ∃ (m' : Machine) (frame : Frame), packedPair.stack.size = packedPair.limits.stackSize
      ∧ frame.next = .ok ⟨.makeArray, [2]⟩ ∧ Exec.step Host.sample packedPair = .ok () m'
      ∧ Shifts ⟨.makeArray, [2]⟩ frame packedPair.stack m'.stack := by
  have hreach : packedPair.Reachable Host.sample := (Machine.fresh_load {} _ _).reachable.after 2
  have hframes : packedPair.frames = [⟨⟨0, { code := #[11, 13, 16, 0, 2] }⟩, 2, 0⟩] := by
    decide +kernel
  have hok : (match Exec.step Host.sample packedPair with
      | .ok _ _ => true
      | .error _ _ => false) = true := by decide +kernel
  have heffect := stack_effect hreach hframes (i := ⟨.makeArray, [2]⟩) rfl rfl
  cases hstep : Exec.step Host.sample packedPair with
  | ok _ m' => exact ⟨m', _, by decide +kernel, rfl, rfl, heffect.2.1 m' hstep⟩
  | error fault m' =>
    rw [hstep] at hok
    cases hok

end ClosureMachine
