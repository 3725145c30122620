import ClosureMachine.Proofs.Machine.Context

/-!
# Calls do not depend on their context

Two machines that make the same call take the same steps until it comes back, whatever else is on
their stacks: they execute the same instructions, answer the same value or fault in the same way,
unless one of them runs out of room.

* **`Alike`** lists how a step in one context compares with the step in the other.
* **`Alongside.step`**: from machines alongside, the steps are alike.
* **`call_independent`** follows a call from its first step on.

The call instruction itself still belongs to the caller. It is at the caller's place in the
caller's stream, and it reaches the callee only if that is a temporary of the caller.
-/

namespace ClosureMachine

/-- The call has come back with `v` in both contexts. The value stands in place of the callee, and
apart from what belongs to the contexts the machines are equal. -/
structure Returned (k k' : Context) (v : Value) (m m' : Machine) : Prop where
  frames : m.frames = k.lower
  frames' : m'.frames = k'.lower
  stack : m.stack = k.below.pop.push v
  stack' : m'.stack = k'.below.pop.push v
  rest : m' = { m with stack := m'.stack, frames := m'.frames, limits := m'.limits }

/-- How the results of a step in two contexts compare. -/
inductive Alike (k k' : Context) :
    EStateM.Result Fault Machine Unit → EStateM.Result Fault Machine Unit → Prop
  | left {fault : Fault} {m : Machine} {r : EStateM.Result Fault Machine Unit}
      (h : fault.isOverflow = true) : Alike k k' (.error fault m) r
  | right {fault : Fault} {m : Machine} {r : EStateM.Result Fault Machine Unit}
      (h : fault.isOverflow = true) : Alike k k' r (.error fault m)
  | goesOn {m m' : Machine} (h : Alongside k k' m m') : Alike k k' (.ok () m) (.ok () m')
  | fails {fault : Fault} {m m' : Machine} (h : Alongside k k' m m') :
      Alike k k' (.error fault m) (.error fault m')
  | returns {v : Value} {m m' : Machine} (h : Returned k k' v m m') :
      Alike k k' (.ok () m) (.ok () m')

namespace Exec

variable {k k' : Context} {c : Machine}

theorem alike_of_results {r r' : EStateM.Result Fault Machine Unit}
    (h : (k.comparison k').Results Eq r r') : Alike k k' r r' := by
  cases h with
  | ok _ h => exact .goesOn h
  | error h => exact .fails h
  | left h => exact .left h
  | right h => exact .right h

/-! ## Frames that are left -/

theorem push_cases (v : Value) (m : Machine) :
    push v m = .ok () { m with stack := m.stack.push v } ∨ push v m = .error .stackOverflow m := by
  unfold push
  split
  · exact Or.inl rfl
  · exact Or.inr rfl

theorem leave_put (k : Context) (limits : Limits) {frame : Frame} {callers : List Frame}
    (hlower : k.lower ≠ []) (hframes : c.frames = frame :: callers) (v : Value) :
    (leaveWith v >>= deliver) (k.put limits c) = push v { k.put limits c with
      stack := (k.below ++ c.stack).take (k.below.size + frame.base - 1)
      frames := callers.map (Frame.shift k.below.size) ++ k.lower } := by
  have hheight : (frame.shift k.below.size).height
      (callers.map (Frame.shift k.below.size) ++ k.lower) = k.below.size + frame.base - 1 := by
    unfold Frame.height
    rw [if_neg (by simp [hlower])]
    rfl
  rw [bind_apply, leaveWith_of_frames v _ _ (k.frames_put limits hframes), hheight]
  rfl

/-- The first frame of a call leaves the context as the call has found it, without the callee. -/
theorem take_below (below stack : Array Value) :
    (below ++ stack).take (below.size + 0 - 1) = below.pop := by
  rw [← Array.extract_eq_pop rfl, Array.take_eq_extract, Array.extract_append]
  rw [show below.size + 0 - 1 - below.size = 0 from by omega, Array.extract_zero,
    Array.append_empty, Nat.add_zero]

theorem alike_leave (limits limits' : Limits) (hrooted : Rooted c.frames) (hlower : k.lower ≠ [])
    (hlower' : k'.lower ≠ []) (v : Value) :
    Alike k k' ((leaveWith v >>= deliver) (k.put limits c))
      ((leaveWith v >>= deliver) (k'.put limits' c)) := by
  obtain ⟨frame, callers, hframes⟩ := hrooted.exists_cons
  rw [leave_put k limits hlower hframes, leave_put k' limits' hlower' hframes]
  rw [hframes] at hrooted
  cases callers with
  -- the first frame of the call gives the stack back to the context, any other to its caller
  | nil =>
    have hbase : frame.base = 0 := hrooted
    rw [hbase, take_below, take_below]
    rcases push_cases v { k.put limits c with stack := k.below.pop, frames := k.lower }
      with h | h
    · rcases push_cases v { k'.put limits' c with stack := k'.below.pop, frames := k'.lower }
        with h' | h'
      · exact h ▸ h' ▸ .returns ⟨rfl, rfl, rfl, rfl, rfl⟩
      · exact h' ▸ .right rfl
    · exact h ▸ .left rfl
  | cons caller rest =>
    obtain ⟨hpos, hrooted'⟩ : 0 < frame.base ∧ Rooted (caller :: rest) := hrooted
    have htake : ∀ below : Array Value, (below ++ c.stack).take (below.size + frame.base - 1)
        = below ++ c.stack.take (frame.base - 1) := fun below => by
      rw [← take_append, Nat.add_sub_assoc hpos]
    rw [htake, htake]
    exact alike_of_results (same_push v _ _ ⟨{ c with
      stack := c.stack.take (frame.base - 1)
      frames := caller :: rest }, limits, limits', hrooted', rfl, rfl⟩)

/-! ## A step in a context -/

theorem step_put_of_finished (k : Context) (limits : Limits) {frame : Frame} {callers : List Frame}
    (hlower : k.lower ≠ []) (hframes : c.frames = frame :: callers)
    (hend : frame.isFinished = true) (host : Host) :
    step host (k.put limits c) = (leaveWith .null >>= deliver) (k.put limits c) := by
  unfold step
  rw [bind_apply, bind_apply, dispatch_of_frames (k.frames_put limits hframes),
    show (frame.shift k.below.size).isFinished = true from hend, if_pos rfl,
    if_neg (by simp [hlower])]

theorem step_put_of_error (k : Context) (limits : Limits) {frame : Frame} {callers : List Frame}
    {e : CodecError} (hframes : c.frames = frame :: callers) (hend : frame.isFinished = false)
    (hnext : frame.next = .error e) (host : Host) :
    step host (k.put limits c) = .error (.codec e) (k.put limits c) := by
  unfold step
  rw [bind_apply, dispatch_of_error (k.frames_put limits hframes) hend hnext]

theorem step_put_of_next (k : Context) (limits : Limits) {frame : Frame} {callers : List Frame}
    {i : Instruction} (hframes : c.frames = frame :: callers) (hnext : frame.next = .ok i)
    (host : Host) :
    step host (k.put limits c) = (execute host i >>= deliver)
      (k.put limits { c with frames := frame.past i :: callers }) := by
  unfold step
  rw [bind_apply, dispatch_of_next (k.frames_put limits hframes) hnext, bind_apply]
  rfl

/-- A value is returned in both contexts, or there is none to return. -/
theorem alike_return (limits limits' : Limits) (hrooted : Rooted c.frames) (hlower : k.lower ≠ [])
    (hlower' : k'.lower ≠ []) :
    Alike k k' (((do leaveWith (← pop)) >>= deliver) (k.put limits c))
      (((do leaveWith (← pop)) >>= deliver) (k'.put limits' c)) := by
  obtain ⟨hput, hrooted'⟩ := portable_pop k limits c hrooted
  rw [bind_apply, bind_apply, bind_apply, bind_apply, hput,
    (portable_pop k' limits' c hrooted).1]
  generalize pop c = r at hrooted'
  cases r with
  | ok v c' =>
    have h := alike_leave limits limits' hrooted' hlower hlower' v
    rw [bind_apply, bind_apply] at h
    exact h
  | error fault c' => exact .fails ⟨c', limits, limits', hrooted', rfl, rfl⟩

end Exec

/-- **A step in two contexts.** From machines alongside, the steps are alike. -/
theorem Alongside.step {k k' : Context} {m m' : Machine} (h : Alongside k k' m m')
    (hlower : k.lower ≠ []) (hlower' : k'.lower ≠ []) (host : Host) :
    Alike k k' (Exec.step host m) (Exec.step host m') := by
  obtain ⟨c, limits, limits', hrooted, rfl, rfl⟩ := h
  obtain ⟨frame, callers, hframes⟩ := hrooted.exists_cons
  cases hend : frame.isFinished with
  | true =>
    rw [Exec.step_put_of_finished k limits hlower hframes hend,
      Exec.step_put_of_finished k' limits' hlower' hframes hend]
    exact Exec.alike_leave limits limits' hrooted hlower hlower' .null
  | false =>
    cases hnext : frame.next with
    | error e =>
      rw [Exec.step_put_of_error k limits hframes hend hnext,
        Exec.step_put_of_error k' limits' hframes hend hnext]
      exact .fails ⟨c, limits, limits', hrooted, rfl, rfl⟩
    | ok i =>
      rw [Exec.step_put_of_next k limits hframes hnext,
        Exec.step_put_of_next k' limits' hframes hnext]
      have hpast : Rooted (frame.past i :: callers) := (hframes ▸ hrooted).goto _
      by_cases hbare : i.opcode = .bareReturn
      · rw [show Exec.execute host i = Exec.leaveWith .null from by unfold Exec.execute; rw [hbare]]
        exact Exec.alike_leave limits limits' hpast hlower hlower' .null
      · by_cases hvalue : i.opcode = .returnValue
        · rw [show Exec.execute host i = (do Exec.leaveWith (← Exec.pop)) from by
            unfold Exec.execute; rw [hvalue]]
          exact Exec.alike_return limits limits' hpast hlower hlower'
        · have hrespected := Exec.respected_contexts k k'
          refine Exec.alike_of_results (Comparison.Same.bind
            (hrespected.execute_same host i hbare hvalue) (fun progress => ?_) _ _
            ⟨_, limits, limits', hpast, rfl, rfl⟩)
          cases progress with
          | left v => exact hrespected.push v
          | _ => exact Comparison.same_pure ()

/-! ## Step after step -/

/-- The next step faults for want of room. -/
def Overflows (host : Host) (m : Machine) : Prop :=
  ∃ fault m', Exec.step host m = .error fault m' ∧ fault.isOverflow = true

/-- Both machines take a step that stays in the call. -/
def GoesOn (host : Host) (k k' : Context) (m m' : Machine) : Prop :=
  ∃ m₁ m₁', Exec.step host m = .ok () m₁ ∧ Exec.step host m' = .ok () m₁' ∧ Alongside k k' m₁ m₁'

/-- The active frames of both machines are at the same place in the same stream. -/
def SamePlace (m m' : Machine) : Prop :=
  ∃ frame frame' callers callers', m.frames = frame :: callers ∧ m'.frames = frame' :: callers'
    ∧ frame'.ip = frame.ip ∧ frame'.code = frame.code ∧ frame'.next = frame.next

/-- The failures differ in their depths only, and these by the depths of the contexts. -/
structure SameFailure (k k' : Context) (e e' : Failure) : Prop where
  fault : e'.fault = e.fault
  opcode : e'.opcode? = e.opcode?
  offset : e'.offset = e.offset
  depth : e'.depth + k.lower.length = e.depth + k'.lower.length

/-- The next step of both machines ends the call in the same way, unless one has no room for it. -/
inductive EndsAlike (host : Host) (k k' : Context) (m m' : Machine) : Prop
  | left (h : Overflows host m)
  | right (h : Overflows host m')
  | fails {e e' : Failure} {m₁ m₁' : Machine} (hrun : m.run host 1 = some (.failed e, m₁))
      (hrun' : m'.run host 1 = some (.failed e', m₁')) (hsame : SameFailure k k' e e')
      (h : Alongside k k' m₁ m₁')
  | returns {v : Value} {m₁ m₁' : Machine} (hstep : Exec.step host m = .ok () m₁)
      (hstep' : Exec.step host m' = .ok () m₁') (h : Returned k k' v m₁ m₁')

namespace Alongside

variable {k k' : Context} {m m' : Machine}

theorem samePlace (h : Alongside k k' m m') : SamePlace m m' := by
  obtain ⟨c, limits, limits', hrooted, rfl, rfl⟩ := h
  obtain ⟨frame, callers, hframes⟩ := hrooted.exists_cons
  exact ⟨_, _, _, _, k.frames_put limits hframes, k'.frames_put limits' hframes, rfl, rfl, rfl⟩

theorem depth_add (h : Alongside k k' m m') :
    m'.depth + k.lower.length = m.depth + k'.lower.length := by
  obtain ⟨c, limits, limits', -, rfl, rfl⟩ := h
  unfold Machine.depth Context.put
  simp only [List.length_append, List.length_map]
  omega

/-- In a call, machines alongside go on alongside, or their call ends alike. -/
theorem goesOn_or_endsAlike (h : Alongside k k' m m') (hlower : k.lower ≠ [])
    (hlower' : k'.lower ≠ []) (host : Host) :
    GoesOn host k k' m m' ∨ EndsAlike host k k' m m' := by
  have halike := h.step hlower hlower' host
  obtain ⟨frame, frame', callers, callers', hframes, hframes', hip, -, hnext⟩ := h.samePlace
  generalize hr : Exec.step host m = r at halike
  generalize hr' : Exec.step host m' = r' at halike
  cases halike with
  | left hover => exact Or.inr (.left ⟨_, _, hr, hover⟩)
  | right hover => exact Or.inr (.right ⟨_, _, hr', hover⟩)
  | goesOn h => exact Or.inl ⟨_, _, hr, hr', h⟩
  | fails h =>
    have hrun := Machine.run_of_error hframes hr 0
    refine Or.inr (.fails hrun (Machine.run_of_error hframes' hr' 0) ?_ h)
    refine ⟨rfl, ?_, hip, h.depth_add⟩
    show frame'.next.toOption.map _ = frame.next.toOption.map _
    rw [hnext]
  | returns h => exact Or.inr (.returns hr hr' h)

/-- Machines stay alongside as long as neither overflows and the call has not come back. -/
theorem after (h : Alongside k k' m m') (hlower : k.lower ≠ []) (hlower' : k'.lower ≠ [])
    {host : Host} {n : Nat}
    (hroom : ∀ j < n, ¬Overflows host (m.after host j) ∧ ¬Overflows host (m'.after host j))
    (hdepth : ∀ j ≤ n, k.lower.length < (m.after host j).depth) :
    Alongside k k' (m.after host n) (m'.after host n) := by
  induction n with
  | zero => exact h
  | succ n ih =>
    have hn := ih (fun j hj => hroom j (Nat.lt_succ_of_lt hj))
      (fun j hj => hdepth j (Nat.le_succ_of_le hj))
    have hback := hdepth (n + 1) (Nat.le_refl _)
    obtain ⟨hleft, hright⟩ := hroom n (Nat.lt_succ_self n)
    obtain ⟨frame, frame', callers, callers', hframes, hframes', -⟩ := hn.samePlace
    have halike := hn.step hlower hlower' host
    unfold Machine.after at hback ⊢
    rw [Machine.advance_of_cons hframes] at hback
    rw [Machine.advance_of_cons hframes, Machine.advance_of_cons hframes']
    generalize hr : Exec.step host (m.after host n) = r at halike hback
    generalize hr' : Exec.step host (m'.after host n) = r' at halike
    cases halike with
    | left hover => exact absurd ⟨_, _, hr, hover⟩ hleft
    | right hover => exact absurd ⟨_, _, hr', hover⟩ hright
    | goesOn h => exact h
    | fails h => exact h
    | returns h =>
      -- then the depth is that of the caller again
      have hlen := congrArg List.length h.frames
      exact absurd hback (by simp only [Machine.ofResult, Machine.depth]; omega)

theorem after_of_goesOn (h : Alongside k k' m m') {host : Host} {n : Nat}
    (hgoes : ∀ j < n, GoesOn host k k' (m.after host j) (m'.after host j)) :
    Alongside k k' (m.after host n) (m'.after host n) := by
  induction n with
  | zero => exact h
  | succ n ih =>
    have hn := ih fun j hj => hgoes j (Nat.lt_succ_of_lt hj)
    obtain ⟨frame, frame', callers, callers', hframes, hframes', -⟩ := hn.samePlace
    obtain ⟨m₁, m₁', hstep, hstep', h₁⟩ := hgoes n (Nat.lt_succ_self n)
    unfold Machine.after
    rw [Machine.advance_of_cons hframes, Machine.advance_of_cons hframes', hstep, hstep']
    exact h₁

/-- A call that both machines are in ends alike, or goes on forever. -/
theorem forever_or_endsAlike (h : Alongside k k' m m') (hlower : k.lower ≠ [])
    (hlower' : k'.lower ≠ []) (host : Host) :
    (∀ n, GoesOn host k k' (m.after host n) (m'.after host n))
      ∨ ∃ n, (∀ j < n, GoesOn host k k' (m.after host j) (m'.after host j))
        ∧ EndsAlike host k k' (m.after host n) (m'.after host n) := by
  by_cases hend : ∃ n, (∀ j < n, GoesOn host k k' (m.after host j) (m'.after host j))
      ∧ EndsAlike host k k' (m.after host n) (m'.after host n)
  · exact Or.inr hend
  · refine Or.inl fun n => ?_
    induction n using Nat.strongRecOn with
    | ind n ih =>
      have hn := h.after_of_goesOn ih
      rcases hn.goesOn_or_endsAlike hlower hlower' host with hgoes | hends
      · exact hgoes
      · exact absurd ⟨n, ih, hends⟩ hend

end Alongside

/-! ## The call as a whole -/

/-- Two machines that differ at most in their stacks, frames and limits are about to execute the same
call, with the same closure and the same arguments on top of their stacks. -/
structure SameCall (m m' : Machine) (frame frame' : Frame) (callers callers' : List Frame)
    (i : Instruction) (closure : Closure) : Prop where
  same : m' = { m with stack := m'.stack, frames := m'.frames, limits := m'.limits }
  frames : m.frames = frame :: callers
  frames' : m'.frames = frame' :: callers'
  next : frame.next = .ok i
  next' : frame'.next = .ok i
  op : i.opcode = .call
  size : i.first + 1 ≤ m.stack.size
  size' : i.first + 1 ≤ m'.stack.size
  top : m'.stack.extract (m'.stack.size - (i.first + 1)) m'.stack.size
    = m.stack.extract (m.stack.size - (i.first + 1)) m.stack.size
  callee : m.stack[m.stack.size - (i.first + 1)]? = some (.closure closure)

theorem SameCall.callee' {m m' : Machine} {frame frame' : Frame} {callers callers' : List Frame}
    {i : Instruction} {closure : Closure}
    (h : SameCall m m' frame frame' callers callers' i closure) :
    m'.stack[m'.stack.size - (i.first + 1)]? = some (.closure closure) := by
  have hfirst : ∀ stack : Array Value, i.first + 1 ≤ stack.size →
      (stack.extract (stack.size - (i.first + 1)) stack.size)[0]?
        = stack[stack.size - (i.first + 1)]? := by
    intro stack hle
    rw [Array.getElem?_extract, if_pos (by omega), Nat.add_zero]
  rw [← hfirst m'.stack h.size', h.top, hfirst m.stack h.size]
  exact h.callee

/-- The context that a call finds: the stack up to its callee, and the frames of its callers. -/
def Machine.callContext (m : Machine) (frame : Frame) (callers : List Frame) (i : Instruction) :
    Context where
  below := m.stack.take (m.stack.size - i.first)
  lower := frame.past i :: callers

namespace Exec

variable {host : Host} {m m' : Machine} {frame frame' : Frame} {callers callers' : List Frame}
  {i : Instruction} {closure : Closure}

theorem entered_eq_put (hgiven : i.first ≤ m.stack.size) :
    entered closure i.first { m with frames := frame.past i :: callers }
      = (m.callContext frame callers i).put m.limits { m with
        stack := m.stack.extract (m.stack.size - i.first) m.stack.size
          ++ Array.replicate (closure.routine.slots - i.first) .null
        frames := [{ closure, base := 0 }] } := by
  have hstack : m.stack ++ Array.replicate (closure.routine.slots - i.first) Value.null
      = m.stack.take (m.stack.size - i.first)
        ++ (m.stack.extract (m.stack.size - i.first) m.stack.size
          ++ Array.replicate (closure.routine.slots - i.first) .null) := by
    rw [← Array.append_assoc, Array.take_eq_extract, Array.extract_append_extract]
    rw [Nat.min_eq_left (Nat.zero_le _), Nat.max_eq_right (Nat.sub_le ..), Array.extract_size]
  have hframe : ({ closure, base := m.stack.size - i.first } : Frame)
      = Frame.shift (m.callContext frame callers i).below.size { closure, base := 0 } := by
    have hbelow : (m.callContext frame callers i).below.size = m.stack.size - i.first := by
      unfold Machine.callContext
      rw [Array.size_extract]
      omega
    rw [hbelow]
    rfl
  unfold entered
  dsimp only
  rw [hstack, hframe]
  rfl

theorem alongside_entered (h : SameCall m m' frame frame' callers callers' i closure) :
    Alongside (m.callContext frame callers i) (m'.callContext frame' callers' i)
      (entered closure i.first { m with frames := frame.past i :: callers })
      (entered closure i.first { m' with frames := frame'.past i :: callers' }) := by
  have hsize := h.size
  have hsize' := h.size'
  -- the arguments are what is on top but for the callee
  have harguments : ∀ stack : Array Value, i.first + 1 ≤ stack.size →
      stack.extract (stack.size - i.first) stack.size
        = (stack.extract (stack.size - (i.first + 1)) stack.size).extract 1 (i.first + 1) := by
    intro stack hle
    rw [Array.extract_extract]
    congr 1 <;> omega
  refine ⟨{ m with
    stack := m.stack.extract (m.stack.size - i.first) m.stack.size
      ++ Array.replicate (closure.routine.slots - i.first) .null
    frames := [{ closure, base := 0 }] }, m.limits, m'.limits, rfl,
    entered_eq_put (Nat.le_of_succ_le hsize), ?_⟩
  rw [entered_eq_put (Nat.le_of_succ_le hsize'), harguments m'.stack hsize', h.top,
    ← harguments m.stack hsize]
  generalize m'.callContext frame' callers' i = k'
  rw [h.same]
  rfl

end Exec

/-- The call faults before anything is entered, at its own place and depth. -/
def Refuses (host : Host) (m : Machine) (frame : Frame) (callers : List Frame) (i : Instruction)
    (fault : Fault) : Prop :=
  m.run host 1 = some (.failed ⟨fault, some i.opcode, frame.ip, m.depth⟩,
    { m with frames := frame.past i :: callers })

theorem refuses_of_step {host : Host} {m : Machine} {frame : Frame} {callers : List Frame}
    {i : Instruction} {fault : Fault} (hframes : m.frames = frame :: callers)
    (hnext : frame.next = .ok i)
    (hstep : Exec.step host m = .error fault { m with frames := frame.past i :: callers }) :
    Refuses host m frame callers i fault := by
  have hrun := Machine.run_of_error hframes hstep 0
  rw [(failure_of_next _ fault hframes hnext rfl).2] at hrun
  exact hrun

/-- Two machines that have entered the same call do the same in it: at every step until it comes
back, and in how it ends. -/
structure Independent (host : Host) (k k' : Context) (m m' : Machine) : Prop where
  start : Alongside k k' m m'
  steps : ∀ n, (∀ j < n, ¬Overflows host (m.after host j) ∧ ¬Overflows host (m'.after host j)) →
    (∀ j ≤ n, k.lower.length < (m.after host j).depth) →
      Alongside k k' (m.after host n) (m'.after host n)
        ∧ SamePlace (m.after host n) (m'.after host n)
        ∧ (GoesOn host k k' (m.after host n) (m'.after host n)
          ∨ EndsAlike host k k' (m.after host n) (m'.after host n))
  ending : (∀ n, GoesOn host k k' (m.after host n) (m'.after host n))
    ∨ ∃ n, (∀ j < n, GoesOn host k k' (m.after host j) (m'.after host j))
      ∧ EndsAlike host k k' (m.after host n) (m'.after host n)

theorem Alongside.independent {k k' : Context} {m m' : Machine} (h : Alongside k k' m m')
    (hlower : k.lower ≠ []) (hlower' : k'.lower ≠ []) (host : Host) :
    Independent host k k' m m' where
  start := h
  steps n hroom hdepth := by
    have hn := h.after hlower hlower' hroom hdepth
    exact ⟨hn, hn.samePlace, hn.goesOn_or_endsAlike hlower hlower' host⟩
  ending := h.forever_or_endsAlike hlower hlower' host

/-- **Calls are independent of their context.** Two machines about to execute the same call, of a
closure that is a temporary of the caller in both or in neither, have the call refused with the
same fault, or enter it and do the same in it, unless one of them runs out of room. -/
theorem call_independent {m m' : Machine} {frame frame' : Frame} {callers callers' : List Frame}
    {i : Instruction} {closure : Closure}
    (h : SameCall m m' frame frame' callers callers' i closure)
    (htemporary : m.floor + (i.first + 1) ≤ m.stack.size
      ↔ m'.floor + (i.first + 1) ≤ m'.stack.size) (host : Host) :
    Overflows host m ∨ Overflows host m'
      ∨ (∃ fault, Refuses host m frame callers i fault ∧ Refuses host m' frame' callers' i fault)
      ∨ ∃ m₁ m₁', Exec.step host m = .ok () m₁ ∧ Exec.step host m' = .ok () m₁'
        ∧ Independent host (m.callContext frame callers i) (m'.callContext frame' callers' i)
          m₁ m₁' := by
  have hstep := Exec.step_call h.frames h.next h.op h.callee host
  have hstep' := Exec.step_call h.frames' h.next' h.op h.callee' host
  by_cases henough : m.floor + (i.first + 1) ≤ m.stack.size
  · rw [if_pos henough] at hstep
    rw [if_pos (htemporary.mp henough)] at hstep'
    by_cases harity : i.first = closure.routine.params
    · rcases Exec.enter_of_eq (m := { m with frames := frame.past i :: callers }) harity
        (Nat.le_of_succ_le h.size) with ⟨fault, hover, henter⟩ | ⟨-, -, henter⟩
      · exact Or.inl ⟨_, _, hstep.trans henter, hover⟩
      · rcases Exec.enter_of_eq (m := { m' with frames := frame'.past i :: callers' }) harity
          (Nat.le_of_succ_le h.size') with ⟨fault, hover, henter'⟩ | ⟨-, -, henter'⟩
        · exact Or.inr (Or.inl ⟨_, _, hstep'.trans henter', hover⟩)
        · refine Or.inr (Or.inr (Or.inr ⟨_, _, hstep.trans henter, hstep'.trans henter', ?_⟩))
          exact (Exec.alongside_entered h).independent (List.cons_ne_nil _ _) (List.cons_ne_nil _ _)
            host
    · rw [Exec.enter_of_ne harity] at hstep hstep'
      exact Or.inr (Or.inr (Or.inl ⟨_, refuses_of_step h.frames h.next hstep,
        refuses_of_step h.frames' h.next' hstep'⟩))
  · rw [if_neg henough] at hstep
    rw [if_neg (fun henough' => henough (htemporary.mpr henough'))] at hstep'
    exact Or.inr (Or.inr (Or.inl ⟨_, refuses_of_step h.frames h.next hstep,
      refuses_of_step h.frames' h.next' hstep'⟩))

/-- A machine about to call a function that returns `true`, with `null` below it or with nothing. -/
def truthCall (below : Bool) : Machine :=
  -- `LoadNull`, if so wished, then `MakeClosure 0 0; Call 0`; in the function, `LoadTrue; ReturnValue`
  let main : Code := if below then #[13, 18, 0, 0, 0, 42, 0] else #[18, 0, 0, 0, 42, 0]
  (Machine.load {} {} ⟨main, #[.function { code := #[11, 44] }]⟩).after Host.sample
    (if below then 2 else 1)

/-- The function that returns `true` is entered with and without a value below it. -/
theorem call_independent_truth :
    ∃ k k' m₁ m₁', Exec.step Host.sample (truthCall false) = .ok () m₁
      ∧ Exec.step Host.sample (truthCall true) = .ok () m₁'
      ∧ Independent Host.sample k k' m₁ m₁' := by
  have hstep : Exec.step Host.sample (truthCall false)
      = .ok () ((truthCall false).advance Host.sample) := rfl
  have hstep' : Exec.step Host.sample (truthCall true)
      = .ok () ((truthCall true).advance Host.sample) := rfl
  have hsame : SameCall (truthCall false) (truthCall true) _ _ _ _ ⟨.call, [0]⟩ _ :=
    ⟨rfl, rfl, rfl, rfl, rfl, rfl, by decide +kernel, by decide +kernel, rfl, rfl⟩
  rcases call_independent hsame (by decide +kernel) Host.sample
    with h | h | ⟨fault, h, -⟩ | ⟨m₁, m₁', h, h', hindependent⟩
  · obtain ⟨fault, m₁, h, -⟩ := h
    cases hstep.symm.trans h
  · obtain ⟨fault, m₁, h, -⟩ := h
    cases hstep'.symm.trans h
  · have hnone : (truthCall false).run Host.sample 1 = none := rfl
    cases hnone.symm.trans h
  · exact ⟨_, _, m₁, m₁', h, h', hindependent⟩

/-- A machine about to call a function that is on top of its stack: as a temporary, or, within a call
of another function, as the parameter of that function. -/
def topCall (parameter : Bool) : Machine :=
  -- `MakeClosure 1 0; MakeClosure 0 0; Call n`, where constant 1 is `Call 0` with one parameter
  let constants := #[.function {}, .function { code := #[42, 0], params := 1 }]
  (Machine.load {} {}
      ⟨#[18, 0, 1, 0, 18, 0, 0, 0, 42, if parameter then 1 else 0], constants⟩).after Host.sample
    (if parameter then 3 else 2)

/-- A machine about to call a function without the argument it wants, at one offset or another. -/
def shortCall (later : Bool) : Machine :=
  -- `Noop`, if so wished, then `MakeClosure 0 0; Call 0`
  let main : Code := if later then #[20, 18, 0, 0, 0, 42, 0] else #[18, 0, 0, 0, 42, 0]
  (Machine.load {} {} ⟨main, #[.function { params := 1 }]⟩).after Host.sample
    (if later then 2 else 1)

/-- It takes both provisos. A closure that is a local slot of its caller cannot be called where it
stands, while one that is a temporary can; and a call that is refused is refused at the caller's
place. -/
theorem call_not_independent :
    (∃ (m m' : Machine) (frame frame' : Frame) (callers callers' : List Frame) (closure : Closure)
        (m₁ m₁' : Machine),
      m.Reachable Host.sample ∧ m'.Reachable Host.sample
        ∧ SameCall m m' frame frame' callers callers' ⟨.call, [0]⟩ closure
        ∧ Exec.step Host.sample m = .ok () m₁
        ∧ Exec.step Host.sample m' = .error .stackUnderflow m₁')
      ∧ ∃ (m m' : Machine) (frame frame' : Frame) (callers callers' : List Frame)
          (closure : Closure) (e e' : Failure) (m₁ m₁' : Machine),
        m.Reachable Host.sample ∧ m'.Reachable Host.sample
          ∧ SameCall m m' frame frame' callers callers' ⟨.call, [0]⟩ closure
          ∧ m.run Host.sample 1 = some (.failed e, m₁)
          ∧ m'.run Host.sample 1 = some (.failed e', m₁') ∧ e'.offset ≠ e.offset := by
  have htop : SameCall (topCall false) (topCall true) _
      { closure := ⟨1, { code := #[42, 0], params := 1 }⟩, base := 1 } _ _ ⟨.call, [0]⟩ ⟨2, {}⟩ :=
    ⟨rfl, rfl, rfl, rfl, rfl, rfl, by decide +kernel, by decide +kernel, by decide +kernel,
      by decide +kernel⟩
  have hshort : SameCall (shortCall false) (shortCall true) _ _ _ _ ⟨.call, [0]⟩ _ :=
    ⟨rfl, rfl, rfl, rfl, rfl, rfl, by decide +kernel, by decide +kernel, rfl, rfl⟩
  have hrefused : Exec.step Host.sample (topCall true) = .error .stackUnderflow _ :=
    (Exec.step_call htop.frames' htop.next' rfl htop.callee' _).trans (if_neg (by decide +kernel))
  refine ⟨⟨_, _, _, _, _, _, _, (topCall false).advance Host.sample, _, ?_, ?_, htop, rfl, hrefused⟩,
    ⟨_, _, _, _, _, _, _, _, _, (shortCall false).advance Host.sample,
      (shortCall true).advance Host.sample, ?_, ?_, hshort, rfl, rfl, by decide⟩⟩
  · exact (Machine.Fresh.reachable (Machine.fresh_load ..)).after _
  · exact (Machine.Fresh.reachable (Machine.fresh_load ..)).after _
  · exact (Machine.Fresh.reachable (Machine.fresh_load ..)).after _
  · exact (Machine.Fresh.reachable (Machine.fresh_load ..)).after _

end ClosureMachine
