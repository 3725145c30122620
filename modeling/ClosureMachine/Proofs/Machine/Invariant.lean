import ClosureMachine.Host.Sample
import ClosureMachine.Proofs.Machine.Reachable
import ClosureMachine.Proofs.Machine.Transition

/-!
# The invariant of the machine

`WellFormed` says what every state of a machine is like: it keeps to its limits, each frame is at a
place within its stream, and the frames lie on the operand stack one above the other
(`Chained`).

* **`WellFormed.of_transition`** is the step: each of the transitions keeps the invariant, those to
  a fault included.
* **`reachable_wellFormed`** is the whole run.

What makes the step go through is that nothing below the slots of the active frame is ever written:
so the closures that the callers stand on stay where they are (`Chained.congr`).
-/

namespace ClosureMachine

/-- The closure that `frame` runs stands right below its slots, and above all that its caller may
not pop. -/
structure StandsOn (stack : Array Value) (frame caller : Frame) : Prop where
  above : caller.floor + 1 ≤ frame.base
  callee : stack[frame.base - 1]? = some (.closure frame.closure)

/-- The outermost frame begins at the bottom of the stack and has no slots; every other frame stands
on its caller. -/
def Chained (stack : Array Value) : List Frame → Prop
  | [] => True
  | [outermost] => outermost.base = 0 ∧ outermost.slots = 0
  | frame :: caller :: callers => StandsOn stack frame caller ∧ Chained stack (caller :: callers)

/-- What every state of a machine is like. -/
structure WellFormed (m : Machine) : Prop where
  stack_le : m.stack.size ≤ m.limits.stackSize
  globals_size : m.globals.size = m.limits.globalsSize
  depth_le : m.depth ≤ max 1 m.limits.maxFrames
  ip_le : ∀ frame ∈ m.frames, frame.ip ≤ frame.code.size
  chained : Chained m.stack m.frames
  floor_le : m.floor ≤ m.stack.size

/-! ## Chains of frames -/

namespace Chained

variable {stack stack' : Array Value} {frame caller : Frame} {callers : List Frame}

theorem below (h : Chained stack (frame :: callers)) : Chained stack callers := by
  cases callers with
  | nil => trivial
  | cons caller rest => exact h.2

/-- Where a frame goes on does not matter to the chain. -/
theorem goto (h : Chained stack (frame :: callers)) (ip : Nat) :
    Chained stack ({ frame with ip } :: callers) := by
  cases callers with
  | nil => exact h
  | cons caller rest => exact ⟨⟨h.1.above, h.1.callee⟩, h.2⟩

/-- A chain rests on what is below the slots of its active frame only. -/
theorem congr (h : Chained stack (frame :: callers))
    (hagree : ∀ place < frame.base, stack'[place]? = stack[place]?) :
    Chained stack' (frame :: callers) := by
  -- the callee of each frame stands below its base, and the bases go down with the callers
  induction callers generalizing frame with
  | nil => exact h
  | cons caller rest ih =>
    obtain ⟨hstands, hrest⟩ := h
    have habove := hstands.above
    refine ⟨⟨habove, ?_⟩, ih hrest fun place hplace => hagree place ?_⟩
    · rw [hagree _ (by omega)]
      exact hstands.callee
    · unfold Frame.floor at habove
      omega

theorem base_lt_base (h : Chained stack (frame :: caller :: callers)) :
    caller.base < frame.base := by
  have habove := h.1.above
  unfold Frame.floor at habove
  omega

/-- What is left of the stack when a frame is left reaches up to the temporaries of its caller. -/
theorem floor_le_height (h : Chained stack (frame :: caller :: callers)) :
    caller.floor ≤ frame.height (caller :: callers) := by
  have habove := h.1.above
  show caller.floor ≤ frame.base - 1
  omega

end Chained

namespace WellFormed

variable {m : Machine} {frame : Frame} {callers : List Frame}

theorem chained_cons (h : WellFormed m) (hframes : m.frames = frame :: callers) :
    Chained m.stack (frame :: callers) :=
  hframes ▸ h.chained

/-- A frame that stands on another has its callee on the stack. -/
theorem height_lt (h : WellFormed m) (hframes : m.frames = frame :: callers)
    (hcallers : callers ≠ []) :
    frame.height callers = frame.base - 1 ∧ frame.height callers < m.stack.size := by
  cases callers with
  | nil => exact absurd rfl hcallers
  | cons caller rest =>
    have habove := (h.chained_cons hframes).1.above
    have hfloor := h.floor_le
    rw [Exec.floor_of_frames hframes] at hfloor
    have hbase := frame.base_le_floor
    refine ⟨rfl, ?_⟩
    show frame.base - 1 < m.stack.size
    omega

/-! ## What keeps the invariant -/

/-- The active frame may go on anywhere in its stream. -/
theorem goto (h : WellFormed m) (hframes : m.frames = frame :: callers) {ip : Nat}
    (hip : ip ≤ frame.code.size) :
    WellFormed { m with frames := { frame with ip } :: callers } where
  stack_le := h.stack_le
  globals_size := h.globals_size
  depth_le := by
    have hdepth := h.depth_le
    rw [Exec.depth_of_frames hframes] at hdepth
    exact hdepth
  ip_le := by
    intro f hf
    rcases List.mem_cons.mp hf with rfl | hf
    · exact hip
    · exact h.ip_le f (hframes ▸ List.mem_cons_of_mem _ hf)
  chained := (h.chained_cons hframes).goto ip
  floor_le := by
    have hfloor := h.floor_le
    rw [Exec.floor_of_frames hframes] at hfloor
    exact hfloor

/-- The stack may change above the slots of the active frame, within the limit. -/
theorem restack (h : WellFormed m) {stack : Array Value} (hsize : stack.size ≤ m.limits.stackSize)
    (hfloor : m.floor ≤ stack.size) (hagree : ∀ place < m.floor, stack[place]? = m.stack[place]?) :
    WellFormed { m with stack } where
  stack_le := hsize
  globals_size := h.globals_size
  depth_le := h.depth_le
  ip_le := h.ip_le
  chained := by
    show Chained stack m.frames
    cases hframes : m.frames with
    | nil => trivial
    | cons frame callers =>
      refine (h.chained_cons hframes).congr fun place hplace => hagree place ?_
      rw [Exec.floor_of_frames hframes]
      exact Nat.lt_of_lt_of_le hplace frame.base_le_floor
  floor_le := hfloor

theorem setHeap (h : WellFormed m) (heap : Heap) : WellFormed { m with heap } :=
  ⟨h.stack_le, h.globals_size, h.depth_le, h.ip_le, h.chained, h.floor_le⟩

theorem setGlobal (h : WellFormed m) (index : Nat) (v : Value) :
    WellFormed { m with globals := m.globals.setIfInBounds index v } :=
  ⟨h.stack_le, by simpa using h.globals_size, h.depth_le, h.ip_le, h.chained, h.floor_le⟩

theorem discard (h : WellFormed m) (v : Value) : WellFormed { m with lastPopped := v } :=
  ⟨h.stack_le, h.globals_size, h.depth_le, h.ip_le, h.chained, h.floor_le⟩

theorem push (h : WellFormed m) (v : Value) (room : m.stack.size < m.limits.stackSize) :
    WellFormed { m with stack := m.stack.push v } := by
  have hfloor := h.floor_le
  have hsize : (m.stack.push v).size = m.stack.size + 1 := Array.size_push ..
  refine h.restack (by omega) (by omega) fun place hplace => ?_
  rw [Array.getElem?_push, if_neg (by omega)]

/-- A local slot is not below the base of its frame. -/
theorem setSlot (h : WellFormed m) (hframes : m.frames = frame :: callers) (index : Nat)
    (v : Value) :
    WellFormed { m with stack := m.stack.setIfInBounds (frame.base + index) v } := by
  have hsize : (m.stack.setIfInBounds (frame.base + index) v).size = m.stack.size :=
    Array.size_setIfInBounds
  refine ⟨hsize ▸ h.stack_le, h.globals_size, h.depth_le, h.ip_le, ?_, hsize ▸ h.floor_le⟩
  show Chained _ m.frames
  rw [hframes]
  refine (h.chained_cons hframes).congr fun place hplace => ?_
  rw [Array.getElem?_setIfInBounds_ne (by omega)]

theorem took (h : WellFormed m) {k : Nat} {m' : Machine} (took : Took k m m') : WellFormed m' := by
  have henough := took.enough
  have hsize := took.size
  have hle := h.stack_le
  have hrestack : WellFormed { m with stack := m'.stack } :=
    h.restack (by omega) (by omega) fun place hplace => took.getElem?_of_lt (by omega)
  rw [took.rest]
  exact hrestack.setHeap m'.heap

/-- The end of an instruction keeps the invariant, whichever it is. -/
theorem commit (h : WellFormed m) {i : Instruction} {m' : Machine} (hcommit : Commit i m m') :
    WellFormed m' := by
  cases hcommit with
  | nothing => exact h
  | push v _ room => exact h.push v room
  | discard v => exact h.discard v
  | assignGlobal v => exact h.setGlobal i.first v
  | bindGlobal v _ room => exact (h.setGlobal i.first v).push v room
  | assignLocal v _ hframes => exact h.setSlot hframes i.first v
  | bindLocal v _ hframes _ room =>
    exact (h.setSlot hframes i.first v).push v (by simpa using room)
  | setSelf => exact h.setHeap _
  | setItem place v => exact h.setHeap _
  | jump _ hframes htarget => exact h.goto hframes htarget

theorem leave (h : WellFormed m) (hframes : m.frames = frame :: callers) :
    WellFormed { m with stack := m.stack.take (frame.height callers), frames := callers } where
  stack_le := by
    have hle := h.stack_le
    simp only [Array.size_extract]
    omega
  globals_size := h.globals_size
  depth_le := by
    have hdepth := h.depth_le
    rw [Exec.depth_of_frames hframes] at hdepth
    show callers.length ≤ max 1 m.limits.maxFrames
    omega
  ip_le := fun f hf => h.ip_le f (hframes ▸ List.mem_cons_of_mem _ hf)
  chained := by
    have hchained := h.chained_cons hframes
    cases callers with
    | nil => trivial
    | cons caller rest =>
      -- what is cut off of the stack begins with the callee, above the temporaries of the caller
      refine (Chained.below hchained).congr fun place hplace => ?_
      have hheight := Chained.floor_le_height hchained
      unfold Frame.floor at hheight
      exact getElem?_take_of_lt m.stack (by omega)
  floor_le := by
    cases callers with
    | nil => exact Nat.zero_le _
    | cons caller rest =>
      have hheight := (h.chained_cons hframes).floor_le_height
      have := Exec.height_le_floor hframes
      have := h.floor_le
      show caller.floor ≤ _
      simp only [Array.size_extract]
      omega

/-- A frame that is entered stands on its caller: its callee is a temporary of the caller. -/
theorem enter (h : WellFormed m) (hframes : m.frames = frame :: callers) {i : Instruction}
    {place : Nat} {closure : Closure} (hcalls : Calls m frame i place (.closure closure))
    (harity : i.first = closure.routine.params) (hdepth : m.depth < m.limits.maxFrames)
    (room : place + 1 + closure.routine.slots ≤ m.limits.stackSize) :
    WellFormed { m with
      stack := m.stack ++ Array.replicate (closure.routine.slots - i.first) .null
      frames := { closure, base := place + 1 } :: frame.past i :: callers } := by
  have hpast := h.goto hframes (Frame.past_le hcalls.next)
  have hfloor := Exec.floor_of_frames hframes
  have henough := hcalls.enough
  have hplace := hcalls.place_eq
  have hslots : i.first ≤ closure.routine.slots := harity ▸ Nat.le_max_right ..
  have hsize : (m.stack ++ Array.replicate (closure.routine.slots - i.first) Value.null).size
      = place + 1 + closure.routine.slots := by
    rw [Array.size_append, Array.size_replicate]
    omega
  have hbelow : ∀ j, j ≤ place →
      (m.stack ++ Array.replicate (closure.routine.slots - i.first) Value.null)[j]? = m.stack[j]? :=
    fun j hj => Array.getElem?_append_left (by omega)
  refine ⟨?_, h.globals_size, ?_, ?_, ⟨⟨?_, ?_⟩, ?_⟩, ?_⟩
  · rwa [hsize]
  · have hlen := Exec.depth_of_frames hframes
    show callers.length + 1 + 1 ≤ max 1 m.limits.maxFrames
    omega
  · intro f hf
    rcases List.mem_cons.mp hf with rfl | hf
    · exact Nat.zero_le _
    · exact hpast.ip_le f hf
  -- the callee was a temporary of the caller, so it is above all that the caller may not pop
  · show frame.floor + 1 ≤ place + 1
    omega
  · show (m.stack ++ _)[place]? = _
    rw [hbelow place (Nat.le_refl place)]
    exact hcalls.callee
  · refine hpast.chained.congr fun j hj => hbelow j ?_
    have hbase := frame.base_le_floor
    have hj' : j < frame.base := hj
    omega
  · show place + 1 + closure.routine.slots ≤ _
    exact hsize ▸ Nat.le_refl _

theorem answer (h : WellFormed m) {i : Instruction} {place : Nat} {callee : Value}
    (hcalls : Calls m frame i place callee) (v : Value) :
    WellFormed { m with stack := (m.stack.take place).push v } := by
  have hle := h.stack_le
  have henough := hcalls.enough
  have hplace := hcalls.place_eq
  have hsize : ((m.stack.take place).push v).size = place + 1 := by
    rw [Array.size_push, Array.size_extract]
    omega
  refine h.restack (by omega) (by omega) fun j hj => ?_
  rw [Array.getElem?_push, if_neg (by rw [Array.size_extract]; omega)]
  exact getElem?_take_of_lt m.stack (by omega)

/-! ## Steps and runs -/

/-- **A step keeps the invariant**, whether it faults or not. -/
theorem of_transition {host : Host} {r : EStateM.Result Fault Machine Unit} (h : WellFormed m)
    (hframes : m.frames = frame :: callers) (ht : Transition host m frame callers r) :
    WellFormed (Machine.ofResult r) := by
  cases ht with
  | straight hnext _ took hcommit =>
    exact ((h.goto hframes (Frame.past_le hnext)).took took).commit hcommit
  | @builtin i place b v heap hcalls =>
    have hanswer := h.answer hcalls v
    exact (hanswer.goto hframes (Frame.past_le hcalls.next)).setHeap _
  | enter hcalls harity hdepth room => exact h.enter hframes hcalls harity hdepth room
  | leave hleaves room =>
    -- there is room at the height itself, and the stack that is left may be lower still
    refine (h.leave hframes).push _ ?_
    exact Nat.lt_of_le_of_lt (Array.size_extract .. ▸ Nat.min_le_left ..) room
  | finish =>
    exact ⟨h.stack_le, h.globals_size, Nat.zero_le _, List.forall_mem_nil _, trivial, Nat.zero_le _⟩
  | undecodable => exact h
  | refused hnext took => exact (h.goto hframes (Frame.past_le hnext)).took took
  | hostFault hcalls => exact (h.goto hframes (Frame.past_le hcalls.next)).setHeap _
  | overflow => exact h.leave hframes

theorem advance (h : WellFormed m) (host : Host) : WellFormed (m.advance host) := by
  cases hframes : m.frames with
  | nil => rwa [Machine.advance_of_nil hframes]
  | cons frame callers =>
    rw [Machine.advance_of_cons hframes]
    exact h.of_transition hframes (Exec.step_transition host h.floor_le h.stack_le hframes)

theorem after (h : WellFormed m) (host : Host) (n : Nat) : WellFormed (m.after host n) :=
  Machine.after_induct (fun _ h => h.advance host) h n

theorem of_fresh (h : m.Fresh) : WellFormed m := by
  cases h with
  | start session limits main constants builtins modules heap =>
    refine ⟨Nat.zero_le _, ?_, Nat.le_max_left .., ?_, ⟨rfl, rfl⟩, Nat.le_refl 0⟩
    · show (Machine.resize session.globals limits.globalsSize).size = limits.globalsSize
      unfold Machine.resize
      rw [Array.shrink_eq_take, Array.size_append, Array.size_extract, Array.size_replicate]
      omega
    · intro frame hframe
      rw [List.mem_singleton.mp hframe]
      exact Nat.zero_le _

end WellFormed

/-- **Every state of a machine is well-formed**: whatever it was given to run, however often it was
run, and whatever faults there have been. -/
theorem reachable_wellFormed {host : Host} {m : Machine} (h : m.Reachable host) : WellFormed m :=
  h.induct (fun _ => WellFormed.of_fresh) (fun _ h => h.advance host)

/-- After a fault in a function that pops more than it has pushed, say. -/
theorem reachable_wellFormed_faulted :
    ∃ m : Machine, m.Reachable Host.sample ∧ m.depth = 2 ∧ WellFormed m := by
  -- `MakeClosure 0 0; Call 0` and, in the function, `Pop`
  let program : Program := ⟨#[18, 0, 0, 0, 42, 0], #[.function { code := #[19], locals := 1 }]⟩
  have hreach : ((Machine.load {} {} program).after Host.sample 3).Reachable Host.sample :=
    (Machine.fresh_load {} {} program).reachable.after 3
  exact ⟨_, hreach, by decide +kernel, reachable_wellFormed hreach⟩

end ClosureMachine
