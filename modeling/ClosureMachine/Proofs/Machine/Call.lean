import ClosureMachine.Host.Sample
import ClosureMachine.Proofs.Machine.Invariant

/-!
# Calls and returns

A call of a closure puts a frame above that of its caller. Until that frame is left, nothing that
the closure does, however many calls it makes in turn and whatever faults are resumed, changes the
frames of its callers or the stack up to the callee. When the frame is left, the stack is what lay
below the callee, with the one value that the closure has returned.

* **`Moves`** is what a step does to the call stack and to what lies below the active frame;
  `moves_of_transition` reads it off the transitions.
* **`Inside`** is the invariant of the steps of a call, `Inside.advance` the step lemma.
* **`call_returns`** puts them together.
-/

namespace ClosureMachine

/-! ## What a step leaves alone -/

/-- What a step does to the call stack, and to the stack below the slots of the active frame. -/
inductive Moves (m : Machine) (frame : Frame) (callers : List Frame) :
    EStateM.Result Fault Machine Unit → Prop
  | stays {r : EStateM.Result Fault Machine Unit} (ip : Nat)
      (hframes : (Machine.ofResult r).frames = { frame with ip } :: callers)
      (hstack : ∀ j < frame.base, (Machine.ofResult r).stack[j]? = m.stack[j]?) :
      Moves m frame callers r
  | enters {m' : Machine} (inner : Frame) (ip : Nat)
      (hframes : m'.frames = inner :: { frame with ip } :: callers)
      (hstack : ∀ j < frame.base, m'.stack[j]? = m.stack[j]?) : Moves m frame callers (.ok () m')
  | leaves {m' : Machine} (v : Value) (hleaves : Leaves m frame callers v) (hcallers : callers ≠ [])
      (hframes : m'.frames = callers) (hstack : m'.stack = (m.stack.take (frame.base - 1)).push v) :
      Moves m frame callers (.ok () m')
  | ends {r : EStateM.Result Fault Machine Unit} (hcallers : callers = []) :
      Moves m frame callers r

section

variable {m m' : Machine} {frame : Frame} {callers : List Frame}

/-- The end of an instruction leaves the active frame where it is, and all that is below it. -/
theorem Commit.stays {i : Instruction} (hframes : m.frames = frame :: callers)
    (hbase : frame.base ≤ m.stack.size) (hcommit : Commit i m m') :
    ∃ ip, m'.frames = { frame with ip } :: callers
      ∧ ∀ place < frame.base, m'.stack[place]? = m.stack[place]? := by
  have hpush : ∀ v, ∀ place < frame.base, (m.stack.push v)[place]? = m.stack[place]? :=
    fun v place hplace => by rw [Array.getElem?_push, if_neg (by omega)]
  have hset : ∀ index v, ∀ place < frame.base,
      (m.stack.setIfInBounds (frame.base + index) v)[place]? = m.stack[place]? :=
    fun index v place hplace => Array.getElem?_setIfInBounds_ne (by omega)
  cases hcommit with
  | nothing => exact ⟨frame.ip, hframes, fun _ _ => rfl⟩
  | push v => exact ⟨frame.ip, hframes, hpush v⟩
  | discard v => exact ⟨frame.ip, hframes, fun _ _ => rfl⟩
  | assignGlobal v => exact ⟨frame.ip, hframes, fun _ _ => rfl⟩
  | bindGlobal v => exact ⟨frame.ip, hframes, hpush v⟩
  | assignLocal v _ hframes' =>
    cases hframes.symm.trans hframes'
    exact ⟨frame.ip, hframes, hset i.first v⟩
  | bindLocal v _ hframes' =>
    cases hframes.symm.trans hframes'
    refine ⟨frame.ip, hframes, fun place hplace => ?_⟩
    rw [Array.getElem?_push, if_neg (by rw [Array.size_setIfInBounds]; omega)]
    exact hset i.first v place hplace
  | setSelf => exact ⟨frame.ip, hframes, fun _ _ => rfl⟩
  | setItem => exact ⟨frame.ip, hframes, fun _ _ => rfl⟩
  | jump _ hframes' =>
    cases hframes.symm.trans hframes'
    exact ⟨i.first, rfl, fun _ _ => rfl⟩

theorem moves_of_transition {host : Host} {r : EStateM.Result Fault Machine Unit}
    (h : WellFormed m) (hframes : m.frames = frame :: callers)
    (ht : Transition host m frame callers r) : Moves m frame callers r := by
  have hfloor := h.floor_le
  rw [Exec.floor_of_frames hframes] at hfloor
  have hbase := frame.base_le_floor
  -- what stays in its frame, or faults there, has first taken temporaries
  have htook : ∀ {i k m₁}, Took k { m with frames := frame.past i :: callers } m₁ →
      frame.base ≤ m₁.stack.size ∧ ∀ place < frame.base, m₁.stack[place]? = m.stack[place]? := by
    intro i k m₁ took
    have henough : frame.floor + k ≤ m.stack.size := took.enough
    have hsize : m₁.stack.size = m.stack.size - k := took.size
    refine ⟨by omega, fun place hplace => took.getElem?_of_lt ?_⟩
    show place < m.stack.size - k
    omega
  cases ht with
  | @straight i m₁ m' _ _ took hcommit =>
    obtain ⟨hle, hstack⟩ := htook took
    obtain ⟨ip, hframes', hstack'⟩ := hcommit.stays took.frames hle
    exact .stays ip hframes' fun place hplace => (hstack' place hplace).trans (hstack place hplace)
  | @builtin i place b answer heap hcalls =>
    have henough := hcalls.enough
    have hplace := hcalls.place_eq
    rw [Exec.floor_of_frames hframes] at henough
    refine .stays _ rfl fun j hj => ?_
    show ((m.stack.take place).push answer)[j]? = m.stack[j]?
    rw [Array.getElem?_push, if_neg (by rw [Array.size_extract]; omega)]
    exact getElem?_take_of_lt m.stack (by omega)
  | enter hcalls =>
    exact .enters _ _ rfl fun j hj => Array.getElem?_append_left (by omega)
  | leave hleaves room =>
    cases callers with
    | nil => exact .ends rfl
    | cons caller rest => exact .leaves _ hleaves (by simp) rfl rfl
  | finish _ hcallers => exact .ends hcallers
  | undecodable => exact .stays frame.ip hframes fun _ _ => rfl
  | refused _ took =>
    exact .stays _ took.frames (htook took).2
  | hostFault => exact .stays _ rfl fun _ _ => rfl
  | overflow _ full =>
    -- only an outermost frame can be left without room: any other leaves the place of its callee
    by_cases hcallers : callers = []
    · exact .ends hcallers
    · have hlt := (h.height_lt hframes hcallers).2
      have hle := h.stack_le
      omega

end

/-! ## The steps of a call -/

/-- Among the frames is one that runs `closure`, called from `place` in the topmost frame of
`lower`. -/
inductive CalledFrom (lower : List Frame) (place : Nat) (closure : Closure) : List Frame → Prop
  | called (frame : Frame) (hclosure : frame.closure = closure) (hbase : frame.base = place + 1) :
      CalledFrom lower place closure (frame :: lower)
  | above (frame : Frame) {frames : List Frame} (h : CalledFrom lower place closure frames) :
      CalledFrom lower place closure (frame :: frames)

/-- A call of `closure`, which stands at `place`, has not come back yet. The frames below are as they
were, and so is the stack of `m₀` up to the callee. -/
structure Inside (m₀ : Machine) (lower : List Frame) (place : Nat) (closure : Closure) (m : Machine) :
    Prop where
  wellFormed : WellFormed m
  stack : ∀ j ≤ place, m.stack[j]? = m₀.stack[j]?
  frames : CalledFrom lower place closure m.frames

/-- The step in which a call comes back with a value. -/
structure ComesBack (host : Host) (m₀ : Machine) (lower : List Frame) (place : Nat)
    (closure : Closure) (v : Value) (m m' : Machine) : Prop where
  leaves : ∃ frame, m.frames = frame :: lower ∧ frame.closure = closure ∧ frame.base = place + 1
    ∧ Leaves m frame lower v
  step : Exec.step host m = .ok () m'
  frames : m'.frames = lower
  stack : m'.stack = (m₀.stack.take place).push v

section

variable {m₀ m : Machine} {frame : Frame} {callers lower : List Frame} {place : Nat}
  {closure : Closure}

namespace CalledFrom

theorem goto (h : CalledFrom lower place closure (frame :: callers)) (ip : Nat) :
    CalledFrom lower place closure ({ frame with ip } :: callers) := by
  cases h with
  | called _ hclosure hbase => exact .called _ hclosure hbase
  | above _ h => exact .above _ h

theorem suffix {frames : List Frame} (h : CalledFrom lower place closure frames) :
    lower <:+ frames ∧ lower.length < frames.length := by
  induction h with
  | called frame => exact ⟨List.suffix_cons .., Nat.lt_succ_self _⟩
  | above frame _ ih => exact ⟨ih.1.trans (List.suffix_cons ..), Nat.lt_succ_of_lt ih.2⟩

/-- The frame that was called and those above it have their slots above the callee. -/
theorem place_lt_base {stack : Array Value} {frames : List Frame}
    (h : CalledFrom lower place closure frames) (hframes : frames = frame :: callers)
    (hchained : Chained stack frames) : place < frame.base := by
  induction h generalizing frame callers with
  | called first _ hbase =>
    cases hframes
    omega
  | @above top rest h ih =>
    cases hframes
    cases rest with
    | nil => cases h
    | cons caller rest =>
      exact Nat.lt_trans (ih rfl hchained.2) hchained.base_lt_base

end CalledFrom

/-- **A step in a call** stays in the call or comes back from it. -/
theorem Inside.advance (h : Inside m₀ lower place closure m) (hlower : lower ≠ []) (host : Host) :
    Inside m₀ lower place closure (m.advance host)
      ∨ ∃ v, ComesBack host m₀ lower place closure v m (m.advance host) := by
  have hwf := h.wellFormed
  have hwf' : WellFormed (m.advance host) := hwf.advance host
  have hcalled := h.frames
  cases hframes : m.frames with
  | nil =>
    rw [hframes] at hcalled
    cases hcalled
  | cons frame callers =>
    have hchained := hwf.chained_cons hframes
    rw [hframes] at hcalled
    have hplace := hcalled.place_lt_base rfl hchained
    have hstep := Exec.step_transition host hwf.floor_le hwf.stack_le hframes
    rw [Machine.advance_of_cons hframes] at hwf' ⊢
    generalize hr : Exec.step host m = r at hstep hwf' ⊢
    cases moves_of_transition hwf hframes hstep with
    | stays ip hframes' hstack =>
      refine Or.inl ⟨hwf', fun j hj => ?_, hframes' ▸ hcalled.goto ip⟩
      exact (hstack j (by omega)).trans (h.stack j hj)
    | enters inner ip hframes' hstack =>
      refine Or.inl ⟨hwf', fun j hj => ?_, hframes' ▸ .above inner (hcalled.goto ip)⟩
      exact (hstack j (by omega)).trans (h.stack j hj)
    | @leaves m' v hleaves hcallers hframes' hstack =>
      obtain ⟨hheight, hlt⟩ := hwf.height_lt hframes hcallers
      cases hcalled with
      -- the frame that is left is the one that was called, or one that was called in turn
      | called _ hclosure hbase =>
        refine Or.inr ⟨v, ⟨frame, hframes, hclosure, hbase, hleaves⟩, hr, hframes', ?_⟩
        show m'.stack = _
        rw [hstack, show frame.base - 1 = place from by omega]
        rw [take_eq_take fun j hj => h.stack j (Nat.le_of_lt hj)]
      | above _ hcalled =>
        refine Or.inl ⟨hwf', fun j hj => ?_, hframes' ▸ hcalled⟩
        -- the caller that is left to go on has its slots above the callee too
        have hbelow : place < frame.base - 1 := by
          cases callers with
          | nil => cases hcalled
          | cons caller rest =>
            have hlt := hcalled.place_lt_base rfl hchained.2
            have hbase := hchained.base_lt_base
            omega
        show m'.stack[j]? = _
        rw [hstack, Array.getElem?_push, if_neg (by rw [Array.size_extract]; omega),
          getElem?_take_of_lt m.stack (by omega)]
        exact h.stack j hj
    | ends hcallers =>
      -- a run does not end in a call, whose frame has callers
      subst hcallers
      cases hcalled with
      | called => exact absurd rfl hlower
      | above _ hcalled => cases hcalled

/-- As long as the depth stays above that of the caller, the call goes on. -/
theorem Inside.after {host : Host} (h : Inside m₀ lower place closure m) (hlower : lower ≠ [])
    {n : Nat} (hdepth : ∀ k ≤ n, lower.length < (m.after host k).depth) :
    Inside m₀ lower place closure (m.after host n) := by
  induction n with
  | zero => exact h
  | succ n ih =>
    rcases (ih fun k hk => hdepth k (Nat.le_succ_of_le hk)).advance hlower host with h | ⟨v, hback⟩
    · exact h
    · have hlt := hdepth (n + 1) (Nat.le_refl _)
      have hle : (m.after host (n + 1)).depth = lower.length := congrArg List.length hback.frames
      omega

end

/-! ## Calls as a whole -/

/-- A call has been entered: above the callee stand the arguments, the top `given` values of `m`, and
then null in all other slots. -/
structure Entered (m : Machine) (lower : List Frame) (place given : Nat) (closure : Closure)
    (m₁ : Machine) : Prop where
  frames : m₁.frames = { closure, base := place + 1 } :: lower
  below : m₁.stack.take (place + 1) = m.stack.take (place + 1)
  arguments : m₁.stack.extract (place + 1) (place + 1 + given)
    = m.stack.extract (m.stack.size - given) m.stack.size
  nulls : ∀ k, given ≤ k → k < closure.routine.slots → m₁.stack[place + 1 + k]? = some .null
  size : m₁.stack.size = place + 1 + closure.routine.slots
  given_le : given ≤ closure.routine.slots

variable {host : Host} {m m₁ : Machine} {frame : Frame} {callers : List Frame} {i : Instruction}
  {place : Nat} {closure : Closure}

/-- The slots of a frame that is entered: the arguments are on top of the stack already. -/
theorem Entered.of_entered (hplace : place + i.first + 1 = m.stack.size)
    (hgiven : i.first ≤ closure.routine.slots) :
    Entered m (frame.past i :: callers) place i.first closure
      (Exec.entered closure i.first { m with frames := frame.past i :: callers }) := by
  have hbase : m.stack.size - i.first = place + 1 := by omega
  refine ⟨?_, ?_, ?_, fun k hk hlt => ?_, ?_, hgiven⟩
  · rw [← hbase]
    rfl
  · exact take_eq_take fun j hj =>
      Array.getElem?_append_left (show j < m.stack.size by omega)
  · rw [hbase, show place + 1 + i.first = m.stack.size from by omega]
    show (m.stack ++ _).extract _ _ = _
    rw [Array.extract_append, Nat.sub_self, Array.extract_zero, Array.append_empty]
  · show (m.stack ++ _)[_]? = _
    rw [Array.getElem?_append_right (by omega), Array.getElem?_replicate, if_pos (by omega)]
  · show (m.stack ++ _).size = _
    rw [Array.size_append, Array.size_replicate]
    omega

/-- A call of a closure that does not fault enters a frame. -/
theorem entered_of_step (hframes : m.frames = frame :: callers) (hnext : frame.next = .ok i)
    (hop : i.opcode = .call) (hplace : place + i.first + 1 = m.stack.size)
    (hcallee : m.stack[place]? = some (.closure closure))
    (hstep : Exec.step host m = .ok () m₁) :
    Entered m (frame.past i :: callers) place i.first closure m₁ := by
  have hcall := Exec.step_call hframes hnext hop
    (show m.stack[m.stack.size - (i.first + 1)]? = some (.closure closure) by
      rw [← hcallee]
      congr 1
      omega) host
  rw [hstep] at hcall
  by_cases henough : m.floor + (i.first + 1) ≤ m.stack.size
  · rw [if_pos henough] at hcall
    by_cases harity : i.first = closure.routine.params
    · rcases Exec.enter_of_eq (m := { m with frames := frame.past i :: callers }) harity
        (show i.first ≤ m.stack.size by omega) with ⟨fault, -, henter⟩ | ⟨-, -, henter⟩
      · cases hcall.trans henter
      · cases hcall.trans henter
        exact .of_entered hplace (harity ▸ Nat.le_max_right ..)
    · rw [Exec.enter_of_ne harity] at hcall
      cases hcall
  · rw [if_neg henough] at hcall
    cases hcall

/-- **Calls and returns.** A call of a closure from a reachable state puts arguments and nulls into
the slots of the new frame. As long as the depth stays above that of the caller, through calls,
jumps and resumed faults, the stack up to the callee and all frames below are as they were. When
the depth first comes back, the callee and all above it have given way to the value returned. -/
theorem call_returns (hreach : m.Reachable host) (hframes : m.frames = frame :: callers)
    (hnext : frame.next = .ok i) (hop : i.opcode = .call)
    (hplace : place + i.first + 1 = m.stack.size)
    (hcallee : m.stack[place]? = some (.closure closure))
    (hstep : Exec.step host m = .ok () m₁) :
    Entered m (frame.past i :: callers) place i.first closure m₁
      ∧ ∀ n, (∀ k ≤ n, m.depth < (m₁.after host k).depth) →
        (m₁.after host n).stack.take (place + 1) = m.stack.take (place + 1)
          ∧ frame.past i :: callers <:+ (m₁.after host n).frames
          ∧ ((m₁.after host (n + 1)).depth ≤ m.depth →
            ∃ v, ComesBack host m (frame.past i :: callers) place closure v
              (m₁.after host n) (m₁.after host (n + 1))) := by
  have hwf : WellFormed m := hreach.induct (fun _ => .of_fresh) fun _ hm => hm.advance host
  have hentered := entered_of_step hframes hnext hop hplace hcallee hstep
  have hlower : (frame.past i :: callers).length = m.depth :=
    (Exec.depth_of_frames hframes).symm
  have hinside : Inside m (frame.past i :: callers) place closure m₁ := by
    refine ⟨?_, fun j hj => ?_, ?_⟩
    · have h := hwf.advance host
      rw [Machine.advance_of_cons hframes, hstep] at h
      exact h
    · rw [← getElem?_take_of_lt m₁.stack (Nat.lt_succ_of_le hj), hentered.below]
      exact getElem?_take_of_lt m.stack (Nat.lt_succ_of_le hj)
    · rw [hentered.frames]
      exact .called _ rfl rfl
  refine ⟨hentered, fun n hdepth => ?_⟩
  have hn := hinside.after (by simp) (hlower ▸ hdepth)
  refine ⟨take_eq_take fun j hj => hn.stack j (Nat.le_of_lt_succ hj), hn.frames.suffix.1, ?_⟩
  intro hback
  rcases hn.advance (by simp) host with h | h
  · have hlt : m.depth < (m₁.after host (n + 1)).depth := hlower ▸ h.frames.suffix.2
    omega
  · exact h

/-- A machine about to call the identity function with `true`. -/
def identityCall : Machine :=
  -- `MakeClosure 0 0; LoadTrue; Call 1` and, in the function, `LoadLocal 0; ReturnValue`
  let identity : Routine := { code := #[6, 0, 44], locals := 2, params := 1 }
  (Machine.load {} {} ⟨#[18, 0, 0, 0, 11, 42, 1], #[.function identity]⟩).after Host.sample 2

/-- The identity function comes back in its second step. -/
theorem call_returns_identity :
    ∃ (m₁ : Machine) (frame : Frame) (closure : Closure) (v : Value),
      Exec.step Host.sample identityCall = .ok () m₁
        ∧ Entered identityCall [frame] 0 1 closure m₁
        ∧ ComesBack Host.sample identityCall [frame] 0 closure v
          (m₁.after Host.sample 1) (m₁.after Host.sample 2) := by
  have hstep : Exec.step Host.sample identityCall = .ok () (identityCall.advance Host.sample) := rfl
  obtain ⟨hentered, hafter⟩ := call_returns (i := ⟨.call, [1]⟩)
    ((Machine.fresh_load {} {} _).reachable.after 2) rfl rfl rfl rfl rfl hstep
  obtain ⟨-, -, hback⟩ := hafter 1 (by decide +kernel)
  obtain ⟨v, hv⟩ := hback (by decide +kernel)
  exact ⟨_, _, _, v, hstep, hentered, hv⟩

end ClosureMachine
