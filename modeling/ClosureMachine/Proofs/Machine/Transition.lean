import ClosureMachine.Proofs.Code.Codec
import ClosureMachine.Proofs.Machine.Effect

/-!
# What a step does

`Transition` lists everything that a step can come to, with the exact machine it leaves behind:
an instruction that stays in its frame, a call of a builtin or of a closure, a frame that is left,
a run that ends, and the faults. `step_transition` says that the list is complete. Everything that
holds of a single step is read off the list, one case for each of its entries.

A step faults in one of four ways: no instruction can be decoded, the instruction faults when it
has at most taken temporaries, a function of the host faults, or the value of a frame that has been
left finds no room.
-/

namespace ClosureMachine

/-! ## Instructions lie within their stream -/

namespace Frame

theorem base_le_floor (frame : Frame) : frame.base ≤ frame.floor :=
  Nat.le_add_right ..

/-- The frame past its next instruction. -/
def past (frame : Frame) (i : Instruction) : Frame :=
  { frame with ip := frame.ip + i.size }

theorem past_le {frame : Frame} {i : Instruction} (h : frame.next = .ok i) :
    (frame.past i).ip ≤ frame.code.size :=
  Instruction.end_le_size h

theorem isFinished_of_next {frame : Frame} {i : Instruction} (h : frame.next = .ok i) :
    frame.isFinished = false := by
  have hle := past_le h
  have hpos := i.size_pos
  unfold isFinished
  simp only [past] at hle
  exact decide_eq_false (by omega)

end Frame

/-! ## The list of transitions -/

/-- How high the stack is when a frame has been left: its callee is gone, if it has one. -/
def Frame.height (frame : Frame) (callers : List Frame) : Nat :=
  if callers.isEmpty then frame.base else frame.base - 1

/-- The active frame is about to be left with a value. -/
inductive Leaves (m : Machine) (frame : Frame) (callers : List Frame) : Value → Prop
  | atEnd (hend : frame.isFinished = true) (hcallers : callers ≠ []) :
      Leaves m frame callers .null
  | bareReturn {i : Instruction} (hnext : frame.next = .ok i) (hop : i.opcode = .bareReturn) :
      Leaves m frame callers .null
  | returnValue {i : Instruction} {v : Value} (hnext : frame.next = .ok i)
      (hop : i.opcode = .returnValue) (enough : m.floor < m.stack.size)
      (htop : m.stack.back? = some v) : Leaves m frame callers v

/-- The active frame is about to call what stands at `place`, below the arguments. -/
structure Calls (m : Machine) (frame : Frame) (i : Instruction) (place : Nat) (callee : Value) :
    Prop where
  next : frame.next = .ok i
  op : i.opcode = .call
  enough : m.floor + (i.first + 1) ≤ m.stack.size
  place_eq : place = m.stack.size - (i.first + 1)
  callee : m.stack[place]? = some callee

/-- The faults that are about the limits of the machine. -/
def Fault.isOverflow : Fault → Bool
  | stackOverflow | frameOverflow _ => true
  | _ => false

/-- What a step comes to, given the active frame and its callers. -/
inductive Transition (host : Host) (m : Machine) (frame : Frame) (callers : List Frame) :
    EStateM.Result Fault Machine Unit → Prop
  | straight {i : Instruction} {m₁ m' : Machine} (hnext : frame.next = .ok i)
      (hop : i.opcode.transfers = false)
      (took : Took i.pops { m with frames := frame.past i :: callers } m₁)
      (hcommit : Commit i m₁ m') : Transition host m frame callers (.ok () m')
  | builtin {i : Instruction} {place : Nat} {b : Builtin} {answer : Value} {heap : Heap}
      (hcalls : Calls m frame i place (.builtin b))
      (hhost : host b.label m.heap (m.stack.extract (place + 1) m.stack.size).toList
        = (.ok answer, heap)) :
      Transition host m frame callers (.ok () { m with
        stack := (m.stack.take place).push answer
        frames := frame.past i :: callers
        heap })
  | enter {i : Instruction} {place : Nat} {closure : Closure}
      (hcalls : Calls m frame i place (.closure closure))
      (harity : i.first = closure.routine.params) (hdepth : m.depth < m.limits.maxFrames)
      (room : place + 1 + closure.routine.slots ≤ m.limits.stackSize) :
      Transition host m frame callers (.ok () { m with
        stack := m.stack ++ Array.replicate (closure.routine.slots - i.first) .null
        frames := { closure, base := place + 1 } :: frame.past i :: callers })
  | leave {v : Value} (hleaves : Leaves m frame callers v)
      (room : frame.height callers < m.limits.stackSize) :
      Transition host m frame callers (.ok () { m with
        stack := (m.stack.take (frame.height callers)).push v
        frames := callers })
  | finish (hend : frame.isFinished = true) (hcallers : callers = []) :
      Transition host m frame callers (.ok () { m with frames := [] })
  | undecodable {e : CodecError} (hend : frame.isFinished = false) (hnext : frame.next = .error e) :
      Transition host m frame callers (.error (.codec e) m)
  | refused {i : Instruction} {k : Nat} {fault : Fault} {m' : Machine} (hnext : frame.next = .ok i)
      (took : Took k { m with frames := frame.past i :: callers } m') :
      Transition host m frame callers (.error fault m')
  | hostFault {i : Instruction} {place : Nat} {b : Builtin} {fault : Fault} {heap : Heap}
      (hcalls : Calls m frame i place (.builtin b))
      (hhost : host b.label m.heap (m.stack.extract (place + 1) m.stack.size).toList
        = (.error fault, heap)) :
      Transition host m frame callers (.error fault { m with
        frames := frame.past i :: callers
        heap })
  | overflow {v : Value} (hleaves : Leaves m frame callers v)
      (full : m.limits.stackSize ≤ frame.height callers) :
      Transition host m frame callers (.error .stackOverflow { m with
        stack := m.stack.take (frame.height callers)
        frames := callers })

namespace Exec

variable {host : Host} {m : Machine} {frame : Frame} {callers : List Frame}

/-! ## What a frame does next -/

theorem fetch_of_next {i : Instruction} (hframes : m.frames = frame :: callers)
    (hnext : frame.next = .ok i) :
    fetch m = .ok i { m with frames := frame.past i :: callers } := by
  have hfetch : frame.fetch = .ok (i, frame.past i) := by
    unfold Frame.fetch
    rw [hnext]
    rfl
  unfold fetch
  simp only [hframes, hfetch]

theorem fetch_of_error {e : CodecError} (hframes : m.frames = frame :: callers)
    (hnext : frame.next = .error e) : fetch m = .error (.codec e) m := by
  have hfetch : frame.fetch = .error e := by
    unfold Frame.fetch
    rw [hnext]
    rfl
  unfold fetch
  simp only [hframes, hfetch]

theorem frame_of_frames (hframes : m.frames = frame :: callers) : Exec.frame m = .ok frame m := by
  unfold Exec.frame
  rw [hframes]

theorem dispatch_of_frames (hframes : m.frames = frame :: callers) :
    dispatch host m =
      if frame.isFinished then
        if callers.isEmpty then .ok .next { m with frames := [] } else leaveWith .null m
      else (fetch >>= execute host) m := by
  unfold dispatch
  rw [bind_apply, frame_of_frames hframes]
  by_cases hend : frame.isFinished
  · simp only [if_pos hend]
    rw [bind_apply]
    show (if (m.depth == 1) = true then proceed endRun else leaveWith .null) m = _
    cases callers with
    | nil =>
      rw [if_pos (by simp [Machine.depth, hframes])]
      show EStateM.Result.ok Progress.next { m with frames := m.frames.tail } = _
      rw [hframes]
      rfl
    | cons caller rest => rw [if_neg (by simp [Machine.depth, hframes]), if_neg (by simp)]
  · simp only [if_neg hend]

theorem dispatch_of_next {i : Instruction} (hframes : m.frames = frame :: callers)
    (hnext : frame.next = .ok i) :
    dispatch host m = execute host i { m with frames := frame.past i :: callers } := by
  rw [dispatch_of_frames hframes, if_neg (by simp [Frame.isFinished_of_next hnext]), bind_apply,
    fetch_of_next hframes hnext]

theorem dispatch_of_error {e : CodecError} (hframes : m.frames = frame :: callers)
    (hend : frame.isFinished = false) (hnext : frame.next = .error e) :
    dispatch host m = .error (.codec e) m := by
  rw [dispatch_of_frames hframes, if_neg (by simp [hend]), bind_apply,
    fetch_of_error hframes hnext]

theorem leaveWith_of_frames (v : Value) (frame : Frame) (callers : List Frame)
    (hframes : m.frames = frame :: callers) :
    leaveWith v m = .ok (.left v) { m with
      stack := m.stack.take (frame.height callers)
      frames := callers } := by
  unfold leaveWith
  rw [bind_apply]
  unfold leave
  simp only [hframes, Array.shrink_eq_take]
  rfl

/-- An action that leaves the call stack alone leaves nothing to put on the stack. -/
theorem proceed_deliver (a : Exec Unit) : proceed a >>= deliver = a := by
  funext m
  rw [bind_apply]
  unfold proceed
  rw [bind_apply]
  cases a m <;> rfl

/-- The step of an instruction that leaves the call stack alone. -/
theorem step_of_proceed {i : Instruction} {a : Exec Unit} (hframes : m.frames = frame :: callers)
    (hnext : frame.next = .ok i) (ha : execute host i = proceed a) :
    step host m = a { m with frames := frame.past i :: callers } := by
  unfold step
  rw [bind_apply, dispatch_of_next hframes hnext, ← bind_apply, ha, proceed_deliver]

/-! ## What a call does -/

theorem floor_of_frames (hframes : m.frames = frame :: callers) : m.floor = frame.floor := by
  unfold Machine.floor
  rw [hframes]

theorem depth_of_frames (hframes : m.frames = frame :: callers) :
    m.depth = callers.length + 1 := by
  unfold Machine.depth
  rw [hframes, List.length_cons]

/-- To step over an instruction does not move the floor. -/
theorem floor_past (hframes : m.frames = frame :: callers) (i : Instruction) :
    Machine.floor { m with frames := frame.past i :: callers } = m.floor :=
  (floor_of_frames hframes).symm

theorem callee_of_le {given : Nat} {v : Value} (henough : m.floor + (given + 1) ≤ m.stack.size)
    (hv : m.stack[m.stack.size - (given + 1)]? = some v) :
    callee given m = .ok (m.stack.size - (given + 1), v) m := by
  obtain ⟨hlt, rfl⟩ := Array.getElem?_eq_some_iff.mp hv
  unfold callee
  rw [dif_pos henough]

theorem callee_of_not_le {given : Nat} (henough : ¬m.floor + (given + 1) ≤ m.stack.size) :
    callee given m = .error .stackUnderflow m := by
  unfold callee
  rw [dif_neg henough]

/-- The machine after a frame has been entered for `closure`, with the top `given` values as its
arguments. -/
def entered (closure : Closure) (given : Nat) (m : Machine) : Machine :=
  { m with
    stack := m.stack ++ Array.replicate (closure.routine.slots - given) .null
    frames := { closure, base := m.stack.size - given } :: m.frames }

theorem enter_of_ne {closure : Closure} {given : Nat} (h : given ≠ closure.routine.params)
    (m : Machine) :
    enter closure given m = .error (.arityMismatch closure.routine.params given) m := by
  unfold enter
  rw [if_pos h]

/-- Given as many arguments as it wants, a closure is entered unless there is no room for it. -/
theorem enter_of_eq {closure : Closure} {given : Nat} (h : given = closure.routine.params)
    (hgiven : given ≤ m.stack.size) :
    (∃ fault : Fault, fault.isOverflow = true ∧ enter closure given m = .error fault m)
      ∨ m.depth < m.limits.maxFrames
        ∧ m.stack.size - given + closure.routine.slots ≤ m.limits.stackSize
        ∧ enter closure given m = .ok () (entered closure given m) := by
  unfold enter
  dsimp only
  rw [if_neg (not_not_intro h)]
  by_cases hdepth : m.limits.maxFrames ≤ m.depth
  · rw [if_pos hdepth]
    exact Or.inl ⟨_, rfl, rfl⟩
  · rw [if_neg hdepth]
    by_cases room : m.limits.stackSize < m.stack.size - given + closure.routine.slots
    · rw [if_pos room]
      exact Or.inl ⟨_, rfl, rfl⟩
    · rw [if_neg room, show m.stack.size - given + closure.routine.slots - m.stack.size
        = closure.routine.slots - given from by omega]
      exact Or.inr ⟨Nat.lt_of_not_le hdepth, Nat.le_of_not_lt room, rfl⟩

/-- The step that calls a closure: a frame is entered if the callee may be taken. -/
theorem step_call {i : Instruction} {closure : Closure} (hframes : m.frames = frame :: callers)
    (hnext : frame.next = .ok i) (hop : i.opcode = .call)
    (hcallee : m.stack[m.stack.size - (i.first + 1)]? = some (.closure closure)) (host : Host) :
    step host m = if m.floor + (i.first + 1) ≤ m.stack.size then
        enter closure i.first { m with frames := frame.past i :: callers }
      else .error .stackUnderflow { m with frames := frame.past i :: callers } := by
  have hpast := floor_past hframes i
  unfold step
  rw [bind_apply, dispatch_of_next hframes hnext,
    show execute host i = call host i.first from by unfold execute; rw [hop]]
  unfold call
  rw [bind_apply]
  by_cases henough : m.floor + (i.first + 1) ≤ m.stack.size
  · rw [if_pos henough,
      callee_of_le (m := { m with frames := frame.past i :: callers }) (hpast ▸ henough) hcallee]
    dsimp only
    rw [bind_apply]
    cases enter closure i.first { m with frames := frame.past i :: callers } with
    | ok x m₁ => rfl
    | error fault m₁ => rfl
  · rw [if_neg henough,
      callee_of_not_le (m := { m with frames := frame.past i :: callers }) (hpast ▸ henough)]

/-- The step that calls a function of the host. Its arguments are what stands above it. -/
theorem step_builtin {i : Instruction} {place : Nat} {b : Builtin}
    (hframes : m.frames = frame :: callers) (hcalls : Calls m frame i place (.builtin b))
    (host : Host) :
    step host m = (do
      let answer ← onHeap fun heap =>
        host b.label heap (m.stack.extract (place + 1) m.stack.size).toList
      truncate place
      push answer : Exec Unit) { m with frames := frame.past i :: callers } := by
  obtain ⟨hnext, hop, henough, rfl, hcallee⟩ := hcalls
  have hpast := floor_past hframes i
  unfold step
  rw [bind_apply, dispatch_of_next hframes hnext,
    show execute host i = call host i.first from by unfold execute; rw [hop]]
  unfold call
  rw [bind_apply,
    callee_of_le (m := { m with frames := frame.past i :: callers }) (hpast ▸ henough) hcallee]
  simp only
  rw [bind_apply]
  simp only [above]
  rw [← bind_apply _ deliver]
  simp only [bind_assoc, pure_bind, deliver, bind_pure_unit]

/-- The answer of a builtin takes the place of callee and arguments. -/
theorem answer_of_lt (m : Machine) {place : Nat} (answer : Value)
    (room : (m.stack.take place).size < m.limits.stackSize) :
    (do truncate place; push answer; return Progress.next : Exec Progress) m
      = .ok .next { m with stack := (m.stack.take place).push answer } := by
  show (push answer >>= fun _ => pure Progress.next) { m with stack := m.stack.shrink place } = _
  rw [bind_apply, Array.shrink_eq_take, push_of_lt answer room]
  rfl

/-! ## The list is complete -/

theorem height_le_floor (hframes : m.frames = frame :: callers) :
    frame.height callers ≤ m.floor := by
  rw [floor_of_frames hframes]
  unfold Frame.height Frame.floor
  split <;> omega

theorem took_past (hfloor : m.floor ≤ m.stack.size) (hframes : m.frames = frame :: callers)
    (i : Instruction) : Took 0 { m with frames := frame.past i :: callers }
      { m with frames := frame.past i :: callers } :=
  .refl (Nat.le_trans (Nat.le_of_eq (floor_past hframes i)) hfloor)

theorem leave_transition (host : Host) {v : Value} (hleaves : Leaves m frame callers v)
    (hheight : frame.height callers ≤ m.stack.size) :
    Transition host m frame callers
      (push v { m with stack := m.stack.take (frame.height callers), frames := callers }) := by
  have hsize : (m.stack.take (frame.height callers)).size = frame.height callers := by
    simp [Nat.min_eq_left hheight]
  unfold push
  split
  · next room => exact .leave hleaves (hsize ▸ room)
  · next full =>
    refine .overflow hleaves ?_
    simp only [hsize] at full
    omega

/-- What a call comes to that takes the top `given` values as its arguments. -/
inductive Called (host : Host) (m : Machine) (given : Nat) :
    EStateM.Result Fault Machine Progress → Prop
  | refused {fault : Fault} : Called host m given (.error fault m)
  | entered {closure : Closure} (enough : m.floor + (given + 1) ≤ m.stack.size)
      (callee : m.stack[m.stack.size - (given + 1)]? = some (.closure closure))
      (harity : given = closure.routine.params) (hdepth : m.depth < m.limits.maxFrames)
      (room : m.stack.size - given + closure.routine.slots ≤ m.limits.stackSize) :
      Called host m given (.ok .entered (entered closure given m))
  | answered {b : Builtin} {answer : Value} {heap : Heap}
      (enough : m.floor + (given + 1) ≤ m.stack.size)
      (callee : m.stack[m.stack.size - (given + 1)]? = some (.builtin b))
      (hhost : host b.label m.heap
        (m.stack.extract (m.stack.size - (given + 1) + 1) m.stack.size).toList
          = (.ok answer, heap)) :
      Called host m given (.ok .next { m with
        stack := (m.stack.take (m.stack.size - (given + 1))).push answer
        heap })
  | hostFault {b : Builtin} {fault : Fault} {heap : Heap}
      (enough : m.floor + (given + 1) ≤ m.stack.size)
      (callee : m.stack[m.stack.size - (given + 1)]? = some (.builtin b))
      (hhost : host b.label m.heap
        (m.stack.extract (m.stack.size - (given + 1) + 1) m.stack.size).toList
          = (.error fault, heap)) :
      Called host m given (.error fault { m with heap })

theorem call_cases (host : Host) (hsize : m.stack.size ≤ m.limits.stackSize) (given : Nat) :
    Called host m given (call host given m) := by
  unfold call
  rw [bind_apply]
  by_cases henough : m.floor + (given + 1) ≤ m.stack.size
  · obtain ⟨v, hv⟩ : ∃ v, m.stack[m.stack.size - (given + 1)]? = some v :=
      ⟨_, Array.getElem?_eq_getElem (by omega)⟩
    rw [callee_of_le henough hv]
    cases v with
    | closure closure =>
      simp only
      rw [bind_apply]
      by_cases harity : given = closure.routine.params
      · rcases enter_of_eq (m := m) harity (by omega) with
          ⟨fault, -, henter⟩ | ⟨hdepth, room, henter⟩
        · rw [henter]
          exact .refused
        · rw [henter]
          exact .entered henough hv harity hdepth room
      · rw [enter_of_ne harity]
        exact .refused
    | builtin b =>
      simp only
      rw [bind_apply]
      simp only [above]
      rw [bind_apply]
      unfold onHeap
      rcases hhost : host b.label m.heap
        (m.stack.extract (m.stack.size - (given + 1) + 1) m.stack.size).toList with
        ⟨fault | answer, heap⟩
      · simp only [hhost]
        exact .hostFault henough hv hhost
      · have room : (m.stack.take (m.stack.size - (given + 1))).size < m.limits.stackSize := by
          rw [Array.size_extract]
          omega
        simp only [hhost]
        rw [answer_of_lt { m with heap } answer room]
        exact .answered henough hv hhost
    | _ => exact .refused
  · rw [callee_of_not_le henough]
    exact .refused

theorem call_transition {i : Instruction} (hfloor : m.floor ≤ m.stack.size)
    (hsize : m.stack.size ≤ m.limits.stackSize) (hframes : m.frames = frame :: callers)
    (hnext : frame.next = .ok i) (hop : i.opcode = .call) :
    Transition host m frame callers
      ((call host i.first >>= deliver) { m with frames := frame.past i :: callers }) := by
  have hpast := floor_past hframes i
  have hcalled := call_cases (m := { m with frames := frame.past i :: callers }) host hsize i.first
  rw [bind_apply]
  generalize call host i.first { m with frames := frame.past i :: callers } = r at hcalled ⊢
  cases hcalled with
  | refused => exact .refused hnext (took_past hfloor hframes i)
  | @entered closure enough callee harity hdepth room =>
    have hplace : m.stack.size - (i.first + 1) + 1 = m.stack.size - i.first := by
      have henough : m.floor + (i.first + 1) ≤ m.stack.size := hpast ▸ enough
      omega
    have h : Transition host m frame callers _ :=
      .enter ⟨hnext, hop, hpast ▸ enough, rfl, callee⟩ harity
        (depth_of_frames hframes ▸ hdepth) (hplace ▸ room)
    rw [hplace] at h
    exact h
  | answered enough callee hhost => exact .builtin ⟨hnext, hop, hpast ▸ enough, rfl, callee⟩ hhost
  | hostFault enough callee hhost =>
    exact .hostFault ⟨hnext, hop, hpast ▸ enough, rfl, callee⟩ hhost

theorem straight_transition {i : Instruction} (hfloor : m.floor ≤ m.stack.size)
    (hsize : m.stack.size ≤ m.limits.stackSize) (hframes : m.frames = frame :: callers)
    (hnext : frame.next = .ok i) (hop : i.opcode.transfers = false) :
    Transition host m frame callers
      ((execute host i >>= deliver) { m with frames := frame.past i :: callers }) := by
  obtain ⟨a, ha, hends⟩ := execute_straight host i hop
  have hpast := Nat.le_trans (Nat.le_of_eq (floor_past hframes i)) hfloor
  rw [ha, proceed_deliver]
  cases hr : a { m with frames := frame.past i :: callers } with
  | ok x m' =>
    obtain ⟨m₁, took, hcommit⟩ := hends.ok hpast hsize hr
    exact .straight hnext hop took hcommit
  | error e m' =>
    obtain ⟨k, -, took⟩ := hends.error hpast hsize hr
    exact .refused hnext took

theorem return_transition {i : Instruction} (hfloor : m.floor ≤ m.stack.size)
    (hframes : m.frames = frame :: callers) (hnext : frame.next = .ok i)
    (hop : i.opcode = .returnValue) :
    Transition host m frame callers
      (((do leaveWith (← pop)) >>= deliver) { m with frames := frame.past i :: callers }) := by
  have hpast := floor_past hframes i
  have hheight := height_le_floor hframes
  rw [bind_apply, bind_apply]
  by_cases henough : m.floor < m.stack.size
  · obtain ⟨v, hback, hpop⟩ := pop_of_lt (m := { m with frames := frame.past i :: callers })
      (hpast ▸ henough)
    have h := leave_transition host (.returnValue hnext hop henough hback)
      (Nat.le_trans hheight hfloor)
    rw [hpop]
    dsimp only
    rw [leaveWith_of_frames _ (frame.past i) callers rfl]
    -- the value is gone with all that the frame leaves behind
    rw [← take_pop (Nat.lt_of_le_of_lt hheight henough)] at h
    exact h
  · rw [pop_of_not_lt (m := { m with frames := frame.past i :: callers }) (hpast ▸ henough)]
    exact .refused hnext (took_past hfloor hframes i)

/-- **What a step comes to.** The list of transitions is complete, for a machine whose stack reaches
up to the temporaries of the active frame and is within its limit. -/
theorem step_transition (host : Host) (hfloor : m.floor ≤ m.stack.size)
    (hsize : m.stack.size ≤ m.limits.stackSize) (hframes : m.frames = frame :: callers) :
    Transition host m frame callers (step host m) := by
  have hheight : frame.height callers ≤ m.stack.size :=
    Nat.le_trans (height_le_floor hframes) hfloor
  unfold step
  rw [bind_apply]
  cases hend : frame.isFinished with
  | true =>
    rw [dispatch_of_frames hframes, if_pos hend]
    cases callers with
    | nil => exact .finish hend rfl
    | cons caller rest =>
      rw [if_neg (by simp), leaveWith_of_frames .null frame (caller :: rest) hframes]
      exact leave_transition host (.atEnd hend (by simp)) hheight
  | false =>
    cases hnext : frame.next with
    | error e =>
      rw [dispatch_of_error hframes hend hnext]
      exact .undecodable hend hnext
    | ok i =>
      rw [dispatch_of_next hframes hnext, ← bind_apply]
      cases hop : i.opcode.transfers with
      | false => exact straight_transition hfloor hsize hframes hnext hop
      | true =>
        cases op : i.opcode with
        | call =>
          rw [show execute host i = call host i.first from by unfold execute; rw [op]]
          exact call_transition hfloor hsize hframes hnext op
        | bareReturn =>
          rw [show execute host i = leaveWith .null from by unfold execute; rw [op],
            bind_apply, leaveWith_of_frames .null (frame.past i) callers rfl]
          exact leave_transition host (.bareReturn hnext op) hheight
        | returnValue =>
          rw [show execute host i = (do leaveWith (← pop)) from by unfold execute; rw [op]]
          exact return_transition hfloor hframes hnext op
        | _ => simp [op, Opcode.transfers] at hop

end Exec

end ClosureMachine
