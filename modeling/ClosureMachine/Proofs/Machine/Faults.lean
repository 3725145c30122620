import ClosureMachine.Host.Sample
import ClosureMachine.Proofs.Machine.Invariant

/-!
# What a fault leaves behind

A fault is either one of decoding, and then nothing at all has happened, or one of execution, and
then the instruction has been stepped over and some of its operands may be gone. No variable,
container, capture or frame has been written.

* **`DecodingFault`** and **`ExecutionFault`** say so in full, together with the failure that a run
  reports.
* **`fault_cases`**: there is no other fault, save one. A bare return of the outermost frame has no
  room for its null on a stack that may hold nothing, and by then the frame has been left.

A function of the host can write what it likes in the heap before it fails. What is said here of
the heap is about hosts that do not (`Host.FailsClean`).
-/

namespace ClosureMachine

/-- A function of the host that fails has written nothing that was there before. -/
def Host.FailsClean (host : Host) : Prop :=
  ∀ {label : String} {heap heap' : Heap} {arguments : List Value} {fault : Fault},
    host label heap arguments = (.error fault, heap') → heap.Extends heap'

theorem Host.sample_failsClean : Host.sample.FailsClean := by
  intro label heap heap' arguments fault h
  unfold Host.sample at h
  split at h
  case h_1 | h_2 | h_5 | h_6 => cases h
  case h_3 | h_4 | h_9 =>
    cases h
    exact .refl heap
  case h_7 =>
    obtain ⟨-, rfl⟩ := Prod.mk.inj h
    exact .refl heap
  case h_8 =>
    unfold Sample.append at h
    split at h
    · cases h
    · cases h
      exact .refl heap

/-- No instruction could be decoded. The failure names no operation, the machine is as it was, and to
run it again fails again in the same way. -/
structure DecodingFault (host : Host) (m : Machine) (frame : Frame) (fault : Fault) (m' : Machine) :
    Prop where
  kind : (∃ byte, fault = .codec (.unknownOpcode byte))
    ∨ ∃ needed available, fault = .codec (.unexpectedEnd needed available)
  unchanged : m' = m
  failure : frame.failure m'.depth fault = ⟨fault, none, frame.ip, m.depth⟩
  again : ∀ fuel, m'.run host (fuel + 1) = some (.failed (frame.failure m'.depth fault), m')

/-- The instruction `i` was decoded and could not be executed. The failure names its operation and
its place. The active frame is past the instruction, some temporaries are gone, the heap may have
new places; everything else is as it was. -/
structure ExecutionFault (m : Machine) (frame : Frame) (callers : List Frame) (i : Instruction)
    (fault : Fault) (m' : Machine) : Prop where
  next : frame.next = .ok i
  failure : frame.failure m'.depth fault = ⟨fault, some i.opcode, frame.ip, m.depth⟩
  depth : m'.depth = m.depth
  frames : m'.frames = { frame with ip := frame.ip + i.size } :: callers
  stack : m'.stack.toList <+: m.stack.toList
  floor_le : m.floor ≤ m'.stack.size
  heap : m.heap.Extends m'.heap
  rest : m' = { m with stack := m'.stack, frames := m'.frames, heap := m'.heap }

/-! ## Faults of decoding -/

variable {host : Host} {m m' : Machine} {frame : Frame} {callers : List Frame} {fault : Fault}

theorem decodingFault_of_next {e : CodecError} (hframes : m.frames = frame :: callers)
    (hnext : frame.next = .error e) (hstep : Exec.step host m = .error (.codec e) m) :
    DecodingFault host m frame (.codec e) m where
  kind := by
    unfold Frame.next Instruction.decodeAt at hnext
    rcases Instruction.decode_cases (frame.code.extract frame.ip (frame.ip + 4)).toList with
      ⟨i, h, -⟩ | ⟨byte, h⟩ | ⟨needed, available, h⟩
    · cases h.symm.trans hnext
    · cases h.symm.trans hnext
      exact Or.inl ⟨byte, rfl⟩
    · cases h.symm.trans hnext
      exact Or.inr ⟨needed, available, rfl⟩
  unchanged := rfl
  failure := by
    unfold Frame.failure
    rw [hnext]
    rfl
  again := Machine.run_of_error hframes hstep

/-! ## Faults of execution -/

/-- Once decoded, what has faulted with the call stack as it was is reported at its place. -/
theorem failure_of_next (m' : Machine) (fault : Fault) {i : Instruction}
    (hframes : m.frames = frame :: callers) (hnext : frame.next = .ok i)
    (hframes' : m'.frames = frame.past i :: callers) :
    m'.depth = m.depth
      ∧ frame.failure m'.depth fault = ⟨fault, some i.opcode, frame.ip, m.depth⟩ := by
  have hdepth : m'.depth = m.depth :=
    (Exec.depth_of_frames hframes').trans (Exec.depth_of_frames hframes).symm
  refine ⟨hdepth, ?_⟩
  unfold Frame.failure
  rw [hnext, hdepth]
  rfl

theorem executionFault_of_took {i : Instruction} {k : Nat} (hframes : m.frames = frame :: callers)
    (hnext : frame.next = .ok i) (took : Took k { m with frames := frame.past i :: callers } m') :
    ExecutionFault m frame callers i fault m' := by
  obtain ⟨hdepth, hfailure⟩ := failure_of_next m' fault hframes hnext took.frames
  refine ⟨hnext, hfailure, hdepth, took.frames, ?_, ?_, took.heap, ?_⟩
  · rw [took.stack]
    simp only [Array.take_eq_extract, Array.toList_extract, List.extract_eq_take_drop]
    exact List.take_prefix ..
  · have hle := took.floor_le
    rw [took.floor] at hle
    rw [Exec.floor_of_frames hframes]
    exact hle
  · rw [took.rest]

theorem executionFault_of_host (hhost : host.FailsClean) (h : WellFormed m) {i : Instruction}
    {place : Nat} {b : Builtin} {heap : Heap} (hframes : m.frames = frame :: callers)
    (hcalls : Calls m frame i place (.builtin b))
    (hfault : host b.label m.heap (m.stack.extract (place + 1) m.stack.size).toList
      = (.error fault, heap)) :
    ExecutionFault m frame callers i fault
      { m with frames := frame.past i :: callers, heap } := by
  obtain ⟨hdepth, hfailure⟩ := failure_of_next
    { m with frames := frame.past i :: callers, heap } fault hframes hcalls.next rfl
  exact ⟨hcalls.next, hfailure, hdepth, rfl, List.prefix_rfl, h.floor_le, hhost hfault, rfl⟩

/-! ## There is no other -/

/-- A frame that is left finds room for its value, unless it is the outermost and there is no room
for anything. -/
theorem overflow_outermost (h : WellFormed m) (hframes : m.frames = frame :: callers) {v : Value}
    (hleaves : Leaves m frame callers v)
    (full : m.limits.stackSize ≤ frame.height callers) :
    m.limits.stackSize = 0 ∧ callers = [] ∧ ∃ i, frame.next = .ok i ∧ i.opcode = .bareReturn := by
  have hle := h.stack_le
  cases hcallers : callers with
  | cons caller rest =>
    -- the callee gives way to the value
    have hlt := h.height_lt hframes (by simp [hcallers])
    omega
  | nil =>
    subst hcallers
    -- nothing is below the outermost frame, so there is no room at all
    have hbase : frame.height [] = 0 := (h.chained_cons hframes).1
    refine ⟨by omega, rfl, ?_⟩
    cases hleaves with
    | atEnd _ hcallers => exact absurd rfl hcallers
    | bareReturn hnext hop => exact ⟨_, hnext, hop⟩
    | returnValue _ _ henough => omega

/-- **Faults.** The step of a reachable state that faults ends a run with the failure reported here,
and is a fault of decoding or of execution. The one exception is a bare return of the outermost
frame on a stack without any room. -/
theorem fault_cases (hhost : host.FailsClean) (hreach : m.Reachable host)
    (hframes : m.frames = frame :: callers) (hstep : Exec.step host m = .error fault m') :
    (∀ fuel, m.run host (fuel + 1) = some (.failed (frame.failure m'.depth fault), m'))
      ∧ (DecodingFault host m frame fault m'
        ∨ (∃ i, ExecutionFault m frame callers i fault m')
        ∨ m.limits.stackSize = 0 ∧ callers = []
          ∧ ∃ i, frame.next = .ok i ∧ i.opcode = .bareReturn) := by
  refine ⟨Machine.run_of_error hframes hstep, ?_⟩
  have hwf : WellFormed m := hreach.induct (fun _ => .of_fresh) fun _ hm => hm.advance host
  have ht := Exec.step_transition host hwf.floor_le hwf.stack_le hframes
  rw [hstep] at ht
  cases ht with
  | undecodable _ hnext => exact Or.inl (decodingFault_of_next hframes hnext hstep)
  | refused hnext took => exact Or.inr (Or.inl ⟨_, executionFault_of_took hframes hnext took⟩)
  | hostFault hcalls hfault =>
    exact Or.inr (Or.inl ⟨_, executionFault_of_host hhost hwf hframes hcalls hfault⟩)
  | overflow hleaves full =>
    exact Or.inr (Or.inr (overflow_outermost hwf hframes hleaves full))

/-- A machine about to add two booleans, with a byte behind that no operation has. -/
def refusedSum : Machine :=
  .load {} {} ⟨#[Opcode.loadTrue.toByte, Opcode.loadTrue.toByte, Opcode.add.toByte, 250], #[]⟩

/-- An `Add` takes two operands off the stack and then refuses them. The run that goes on from there
comes to the byte that no operation has. -/
theorem fault_cases_resumed :
    ∃ (m m' : Machine) (frame frame' : Frame) (i : Instruction),
      m.stack.size = 2 ∧ m'.stack.size = 0
        ∧ Exec.step Host.sample m = .error (.typeMismatch .boolean .boolean) m'
        ∧ ExecutionFault m frame [] i (.typeMismatch .boolean .boolean) m'
        ∧ Exec.step Host.sample m' = .error (.codec (.unknownOpcode 250)) m'
        ∧ DecodingFault Host.sample m' frame' (.codec (.unknownOpcode 250)) m' := by
  have hreach (n : Nat) : (refusedSum.after Host.sample n).Reachable Host.sample :=
    (Machine.fresh_load {} {} _).reachable.after n
  obtain ⟨frame, hframe⟩ : ∃ frame, (refusedSum.after Host.sample 2).frames = [frame] := ⟨_, rfl⟩
  obtain ⟨frame', hframe', hnext⟩ : ∃ frame, (refusedSum.after Host.sample 3).frames = [frame]
      ∧ frame.next = .error (.unknownOpcode 250) := ⟨_, rfl, rfl⟩
  have hrefused : Exec.step Host.sample (refusedSum.after Host.sample 2)
      = .error (.typeMismatch .boolean .boolean) (refusedSum.after Host.sample 3) := rfl
  have hunknown : Exec.step Host.sample (refusedSum.after Host.sample 3)
      = .error (.codec (.unknownOpcode 250)) (refusedSum.after Host.sample 3) := rfl
  have hroom : (refusedSum.after Host.sample 2).limits.stackSize = 2048
      ∧ (refusedSum.after Host.sample 3).limits.stackSize = 2048 := ⟨rfl, rfl⟩
  obtain ⟨-, hdecoding | ⟨i, hexecution⟩ | ⟨hfull, -⟩⟩ :=
    fault_cases Host.sample_failsClean (hreach 2) hframe hrefused
  · rcases hdecoding.kind with ⟨byte, h⟩ | ⟨needed, available, h⟩ <;> cases h
  · obtain ⟨-, hdecoding | ⟨i', hexecution'⟩ | ⟨hfull, -⟩⟩ :=
      fault_cases Host.sample_failsClean (hreach 3) hframe' hunknown
    · exact ⟨_, _, frame, frame', i, rfl, rfl, hrefused, hexecution, hunknown, hdecoding⟩
    · cases hnext.symm.trans hexecution'.next
    · cases hroom.2.symm.trans hfull
  · cases hroom.1.symm.trans hfull

end ClosureMachine
