import ClosureMachine.Proofs.Code.Boundary
import ClosureMachine.Proofs.Machine.Faults
import ClosureMachine.Proofs.Machine.Footprint
import ClosureMachine.Proofs.Machine.Recoded

/-!
# The end of a function is a bare return

A function that comes to the end of its code returns null, and so does one that comes to a bare
return. To write the return out changes nothing but what reads or jumps beyond the end of the code.

* **`Routine.OrReturns`** relates a routine to itself and to the one with a bare return behind its
  code. What is decoded in the first is decoded in the second (`next_of_orReturns`), and at the end of
  the first there is the return in the second (`next_at_end`).
* **`step_orReturns`** is one step of two such machines, **`run_orReturns`** a run.
* **`run_withReturns`** is about a program and any of its functions.
-/

namespace ClosureMachine

/-! ## Code with a byte behind -/

namespace Instruction

theorem toList_drop_push {code : Code} {offset : Nat} (hoffset : offset ≤ code.size)
    (byte : UInt8) : (code.push byte).toList.drop offset = code.toList.drop offset ++ [byte] := by
  rw [Array.toList_push, List.drop_append_of_le_length (by simpa using hoffset)]

theorem decodeAt_push_of_ok {code : Code} {offset : Nat} {i : Instruction}
    (h : decodeAt code offset = .ok i) (byte : UInt8) :
    decodeAt (code.push byte) offset = .ok i := by
  have hend := end_le_size h
  rw [decodeAt_eq] at h
  rw [decodeAt_eq, toList_drop_push (by omega)]
  exact decode_append_of_ok h [byte]

theorem decodeAt_push_of_unknown {code : Code} {offset : Nat} {unknown : UInt8}
    (hoffset : offset ≤ code.size) (h : decodeAt code offset = .error (.unknownOpcode unknown))
    (byte : UInt8) : decodeAt (code.push byte) offset = .error (.unknownOpcode unknown) := by
  rw [decodeAt_eq] at h
  rw [decodeAt_eq, toList_drop_push hoffset]
  exact decode_append_of_unknown h [byte]

end Instruction

/-! ## Routines with a return behind -/

/-- The routine with a bare return behind its code. -/
def Routine.withReturn (routine : Routine) : Routine :=
  { routine with code := routine.code.push Opcode.bareReturn.toByte }

/-- The same routine, or the one with a bare return behind its code. -/
def Routine.OrReturns (routine routine' : Routine) : Prop :=
  routine' = routine ∨ routine' = routine.withReturn

theorem recodes_orReturns : Recodes Routine.OrReturns where
  refl _ := Or.inl rfl
  params h := by
    rcases h with rfl | rfl
    · rfl
    · rfl
  slots h := by
    rcases h with rfl | rfl
    · rfl
    · rfl

/-- The faults of a frame that reads or jumps beyond the end of its code. -/
def Fault.isBeyondCode : Fault → Bool
  | jumpOutOfRange _ _ | codec (.unexpectedEnd _ _) => true
  | _ => false

/-- Machines with and without returns, until the first goes beyond the end of some code. -/
abbrev returnsComparison : Comparison :=
  recoding Routine.OrReturns (·.isBeyondCode = true)

section

variable {host : Host} {m m' : Machine} {frame frame' : Frame} {callers callers' : List Frame}
  {i : Instruction}

theorem code_of_orReturns (h : frame.Recoded Routine.OrReturns frame') :
    frame'.code = frame.code ∨ frame'.code = frame.code.push Opcode.bareReturn.toByte := by
  rcases h.closure.routine with hsame | hreturn
  · exact Or.inl (congrArg Routine.code hsame)
  · exact Or.inr (congrArg Routine.code hreturn)

theorem size_le_of_orReturns (h : frame.Recoded Routine.OrReturns frame') :
    frame.code.size ≤ frame'.code.size := by
  rcases code_of_orReturns h with hcode | hcode
  · exact Nat.le_of_eq (congrArg Array.size hcode.symm)
  · rw [hcode, Array.size_push]
    omega

theorem next_of_orReturns (h : frame.Recoded Routine.OrReturns frame')
    (hnext : frame.next = .ok i) : frame'.next = .ok i := by
  unfold Frame.next at hnext ⊢
  rw [h.ip]
  rcases code_of_orReturns h with hcode | hcode
  · rwa [hcode]
  · rw [hcode]
    exact Instruction.decodeAt_push_of_ok hnext _

theorem unknown_of_orReturns (h : frame.Recoded Routine.OrReturns frame')
    (hip : frame.ip ≤ frame.code.size) {byte : UInt8}
    (hnext : frame.next = .error (.unknownOpcode byte)) :
    frame'.next = .error (.unknownOpcode byte) := by
  unfold Frame.next at hnext ⊢
  rw [h.ip]
  rcases code_of_orReturns h with hcode | hcode
  · rwa [hcode]
  · rw [hcode]
    exact Instruction.decodeAt_push_of_unknown hip hnext _

/-- Where the one function ends, the other does too or has a bare return. -/
theorem next_at_end (h : frame.Recoded Routine.OrReturns frame')
    (hip : frame.ip = frame.code.size) :
    frame'.isFinished = true ∨ frame'.next = .ok ⟨.bareReturn, []⟩ := by
  rcases code_of_orReturns h with hcode | hcode
  · have hfinished : frame'.code.size ≤ frame'.ip := by
      rw [hcode, h.ip]
      omega
    exact Or.inl (decide_eq_true hfinished)
  · have hdrop : frame.code.toList.drop frame.code.size = [] := List.drop_eq_nil_iff.mpr (by simp)
    unfold Frame.next
    rw [h.ip, hcode, hip, Instruction.decodeAt_eq,
      Instruction.toList_drop_push (Nat.le_refl _), hdrop]
    exact Or.inr rfl

theorem past_recoded (h : frame.Recoded Routine.OrReturns frame') (i : Instruction) :
    (frame.past i).Recoded Routine.OrReturns (frame'.past i) :=
  ⟨h.closure, congrArg (· + i.size) h.ip, h.base⟩

namespace Exec

/-! ## Steps -/

/-- A jump that is within the code without the return is within the code with it. -/
theorem jump_orReturns (target : Nat) :
    returnsComparison.Sim Eq (jump target) (jump target) := by
  intro m m' (h : m.Recoded Routine.OrReturns m')
  unfold jump
  rcases h.frames_cases with
    ⟨hm, hm'⟩ | ⟨frame, callers, frame', callers', hm, hm', hframe, hcallers⟩
  · rw [hm, hm']
    exact .error h
  · have hsize := size_le_of_orReturns hframe
    rw [hm, hm']
    dsimp only
    unfold Frame.jump
    by_cases htarget : frame.code.size < target
    · rw [if_pos htarget]
      exact .left rfl
    · have htarget' : ¬frame'.code.size < target := by omega
      rw [if_neg htarget, if_neg htarget']
      exact .ok rfl { h with frames := .cons ⟨hframe.closure, rfl, hframe.base⟩ hcallers }

/-- The step of a frame at the end of its code, if it is not the outermost. -/
theorem step_at_end (hframes : m.frames = frame :: callers) (hcallers : callers ≠ [])
    (hend : frame.isFinished = true) :
    step host m = push .null { m with
      stack := m.stack.take (frame.height callers)
      frames := callers } := by
  have hnonempty : ¬callers.isEmpty = true := by simpa using hcallers
  unfold step
  rw [bind_apply, dispatch_of_frames hframes, if_pos hend, if_neg hnonempty,
    leaveWith_of_frames .null frame callers hframes]
  rfl

/-- The step of a bare return. -/
theorem step_bareReturn (hframes : m.frames = frame :: callers) (hnext : frame.next = .ok i)
    (hop : i.opcode = .bareReturn) :
    step host m = push .null { m with
      stack := m.stack.take (frame.height callers)
      frames := callers } := by
  have hexecute : execute host i = leaveWith .null := by
    unfold execute
    rw [hop]
  unfold step
  rw [bind_apply, dispatch_of_next hframes hnext, hexecute,
    leaveWith_of_frames .null (frame.past i) callers rfl]
  rfl

/-- A step that executes an instruction, the same for both machines. -/
theorem results_of_next (hhost : host.Respects Routine.OrReturns)
    (h : m.Recoded Routine.OrReturns m') (hframes : m.frames = frame :: callers)
    (hframes' : m'.frames = frame' :: callers') (hframe : frame.Recoded Routine.OrReturns frame')
    (hcallers : List.Forall₂ (Frame.Recoded Routine.OrReturns) callers callers')
    (hnext : frame.next = .ok i) :
    returnsComparison.Results Eq (step host m) (step host m') := by
  have hnext' := next_of_orReturns hframe hnext
  have hpast : Machine.Recoded Routine.OrReturns { m with frames := frame.past i :: callers }
      { m' with frames := frame'.past i :: callers' } :=
    { h with frames := .cons (past_recoded hframe i) hcallers }
  have hexecute : returnsComparison.Sim Eq (execute host i >>= deliver)
      (execute host i >>= deliver) :=
    (recoded_execute recodes_orReturns hhost jump_orReturns i).bind fun _ _ hprogress =>
      recoded_deliver hprogress
  have hresults := hexecute _ _ hpast
  unfold step
  rw [bind_apply, bind_apply] at hresults ⊢
  rw [dispatch_of_next hframes hnext, dispatch_of_next hframes' hnext']
  exact hresults

/-- A step in which a function that is not main comes to its end: the other machine may have a bare
return there. -/
theorem results_at_end (h : m.Recoded Routine.OrReturns m') (hframes : m.frames = frame :: callers)
    (hframes' : m'.frames = frame' :: callers') (hframe : frame.Recoded Routine.OrReturns frame')
    (hcallers : List.Forall₂ (Frame.Recoded Routine.OrReturns) callers callers')
    (hinner : callers ≠ []) (hend : frame.ip = frame.code.size) :
    returnsComparison.Results Eq (step host m) (step host m') := by
  have hempty : callers'.isEmpty = callers.isEmpty := by
    cases hcallers <;> rfl
  have hinner' : callers' ≠ [] := by
    intro hnil
    rw [hnil] at hempty
    exact hinner (List.isEmpty_iff.mp hempty.symm)
  have hheight : frame'.height callers' = frame.height callers := by
    unfold Frame.height
    rw [hempty, hframe.base]
  have hfinished : frame.isFinished = true := decide_eq_true (Nat.le_of_eq hend.symm)
  have hstep' : step host m' = push .null { m' with
      stack := m'.stack.take (frame'.height callers')
      frames := callers' } := by
    rcases next_at_end hframe hend with hfinished' | hnext'
    · exact step_at_end hframes' hinner' hfinished'
    · exact step_bareReturn hframes' hnext' rfl
  rw [step_at_end hframes hinner hfinished, hstep', hheight]
  exact recoded_push .null _ _
    { h with stack := h.stack.extract 0 (frame.height callers), frames := hcallers }

end Exec

/-- A machine whose outermost frame runs `main`. -/
structure RunsMain (main : Routine) (m : Machine) : Prop where
  wellFormed : WellFormed m
  outermost : ∀ frame, m.frames.getLast? = some frame → frame.closure.routine = main

theorem RunsMain.advance {main : Routine} (h : RunsMain main m) (host : Host) :
    RunsMain main (m.advance host) := by
  refine ⟨h.wellFormed.advance host, fun last hlast => ?_⟩
  have hwf := h.wellFormed
  have hmain := h.outermost
  cases hframes : m.frames with
  | nil =>
    rw [Machine.advance_of_nil hframes] at hlast
    exact hmain last hlast
  | cons frame callers =>
    have ht := Exec.step_transition host hwf.floor_le hwf.stack_le hframes
    rw [Machine.advance_of_cons hframes] at hlast
    rw [hframes] at hmain
    rcases ht.frames hframes with hleft | ⟨ip, entered, -, hstays⟩
    · rw [hleft] at hlast
      cases callers with
      | nil => cases hlast
      | cons caller rest =>
        rw [List.getLast?_cons_cons] at hmain
        exact hmain last hlast
    · rw [hstays, List.getLast?_append_cons] at hlast
      cases callers with
      | nil =>
        cases hlast
        exact hmain frame rfl
      | cons caller rest =>
        rw [List.getLast?_cons_cons] at hlast hmain
        exact hmain last hlast

/-- How a step compares with the step of the machine that has the returns. Faults are alike in where
they happen, too. -/
inductive StepsAlike (frame frame' : Frame) :
    EStateM.Result Fault Machine Unit → EStateM.Result Fault Machine Unit → Prop
  | goesOn {m m' : Machine} (h : m.Recoded Routine.OrReturns m') :
      StepsAlike frame frame' (.ok () m) (.ok () m')
  | fails {fault : Fault} {m m' : Machine} (h : m.Recoded Routine.OrReturns m')
      (hfailure : ∀ depth, frame'.failure depth fault = frame.failure depth fault) :
      StepsAlike frame frame' (.error fault m) (.error fault m')
  | beyond {fault : Fault} {m : Machine} {r : EStateM.Result Fault Machine Unit}
      (h : fault.isBeyondCode = true) : StepsAlike frame frame' (.error fault m) r

theorem failure_eq (h : frame.Recoded Routine.OrReturns frame') (hnext : frame'.next = frame.next)
    (depth : Nat) (fault : Fault) : frame'.failure depth fault = frame.failure depth fault := by
  unfold Frame.failure
  rw [hnext, h.ip]

theorem stepsAlike_of_results {r r' : EStateM.Result Fault Machine Unit}
    (h : returnsComparison.Results Eq r r')
    (hfailure : ∀ fault m₁, r = .error fault m₁ →
      ∀ depth, frame'.failure depth fault = frame.failure depth fault) :
    StepsAlike frame frame' r r' := by
  cases h with
  | ok _ h => exact .goesOn h
  | error h => exact .fails h (hfailure _ _ rfl)
  | left hfault => exact .beyond hfault
  | right hfault => cases hfault

/-- Both outermost frames run the main stream, so they come to their end together. -/
theorem stepsAlike_outermost {main : Routine} (hm : RunsMain main m) (hm' : RunsMain main m')
    (h : m.Recoded Routine.OrReturns m') (hframes : m.frames = [frame])
    (hframes' : m'.frames = [frame']) (hframe : frame.Recoded Routine.OrReturns frame')
    (hend : frame.isFinished = true) :
    StepsAlike frame frame' (Exec.step host m) (Exec.step host m') := by
  have hmain : frame.closure.routine = main := hm.outermost frame (by rw [hframes]; rfl)
  have hmain' : frame'.closure.routine = main := hm'.outermost frame' (by rw [hframes']; rfl)
  have hend' : frame'.isFinished = true := by
    unfold Frame.isFinished Frame.code at hend ⊢
    rw [hmain', hframe.ip, ← hmain]
    exact hend
  unfold Exec.step
  rw [Exec.bind_apply, Exec.bind_apply, Exec.dispatch_of_frames hframes, if_pos hend,
    Exec.dispatch_of_frames hframes', if_pos hend']
  exact .goesOn { h with frames := .nil }

/-- What cannot be decoded is a byte that no operation has, or else the code ends too early. -/
theorem stepsAlike_of_error (h : m.Recoded Routine.OrReturns m')
    (hframes : m.frames = frame :: callers) (hframes' : m'.frames = frame' :: callers')
    (hframe : frame.Recoded Routine.OrReturns frame') (hend : frame.isFinished = false)
    {e : CodecError} (hnext : frame.next = .error e) :
    StepsAlike frame frame' (Exec.step host m) (Exec.step host m') := by
  have hlt : ¬frame.code.size ≤ frame.ip := of_decide_eq_false hend
  have hend' : frame'.isFinished = false := by
    have hle := size_le_of_orReturns hframe
    have hip := hframe.ip
    exact decide_eq_false (by omega)
  have hstep : Exec.step host m = .error (.codec e) m := by
    unfold Exec.step
    rw [Exec.bind_apply, Exec.dispatch_of_error hframes hend hnext]
  have hdecode : Instruction.decode (frame.code.extract frame.ip (frame.ip + 4)).toList
      = .error e := hnext
  rw [hstep]
  rcases Instruction.decode_cases (frame.code.extract frame.ip (frame.ip + 4)).toList with
    ⟨i, hi, -⟩ | ⟨byte, hunknown⟩ | ⟨needed, available, hbeyond⟩
  · cases hi.symm.trans hdecode
  · obtain rfl : e = .unknownOpcode byte := Except.error.inj (hdecode.symm.trans hunknown)
    have hnext' := unknown_of_orReturns hframe (by omega) hnext
    have hstep' : Exec.step host m' = .error (.codec (.unknownOpcode byte)) m' := by
      unfold Exec.step
      rw [Exec.bind_apply, Exec.dispatch_of_error hframes' hend' hnext']
    rw [hstep']
    exact .fails h fun depth => failure_eq hframe (hnext'.trans hnext.symm) depth _
  · obtain rfl : e = .unexpectedEnd needed available :=
      Except.error.inj (hdecode.symm.trans hbeyond)
    exact .beyond rfl

/-- **A step with the returns** does what the step without them does, unless that one goes beyond
the end of some code. -/
theorem step_orReturns {main : Routine} (hhost : host.Respects Routine.OrReturns)
    (hm : RunsMain main m) (hm' : RunsMain main m') (h : m.Recoded Routine.OrReturns m')
    (hframes : m.frames = frame :: callers) (hframes' : m'.frames = frame' :: callers') :
    StepsAlike frame frame' (Exec.step host m) (Exec.step host m') := by
  have hwf := hm.wellFormed
  have hall := h.frames
  rw [hframes, hframes'] at hall
  obtain ⟨hframe, hcallers⟩ := List.forall₂_cons.mp hall
  cases hnext : frame.next with
  | ok i =>
    have hsame : frame'.next = frame.next := (next_of_orReturns hframe hnext).trans hnext.symm
    have hresults := Exec.results_of_next hhost h hframes hframes' hframe hcallers hnext
    exact stepsAlike_of_results hresults fun fault _ _ depth => failure_eq hframe hsame depth fault
  | error e =>
    cases hend : frame.isFinished with
    | false => exact stepsAlike_of_error h hframes hframes' hframe hend hnext
    | true =>
      by_cases hinner : callers = []
      · subst hinner
        obtain rfl : callers' = [] := List.forall₂_nil_left_iff.mp hcallers
        exact stepsAlike_outermost hm hm' h hframes hframes' hframe hend
      · have hatEnd : frame.ip = frame.code.size := by
          have hle := hwf.ip_le frame (hframes ▸ List.mem_cons_self)
          have hge : frame.code.size ≤ frame.ip := of_decide_eq_true hend
          omega
        have hresults : returnsComparison.Results Eq (Exec.step host m) (Exec.step host m') :=
          Exec.results_at_end h hframes hframes' hframe hcallers hinner hatEnd
        refine stepsAlike_of_results hresults fun fault m₁ hfault => ?_
        -- there is room for the null, because the callee is gone
        have hheight := (hwf.height_lt hframes hinner).2
        have hle := hwf.stack_le
        rw [Exec.step_at_end hframes hinner hend, Exec.push_of_lt] at hfault
        · cases hfault
        · simp only [Array.size_extract]
          omega

end

/-! ## Runs -/

namespace Machine

variable {host : Host} {m m' m₁ : Machine} {outcome : Outcome} {fuel : Nat}

/-- **A run with the returns** ends as the run without them does, unless that one has gone beyond the
end of some code. -/
theorem run_orReturns {main : Routine} (hhost : host.Respects Routine.OrReturns)
    (hm : RunsMain main m) (hm' : RunsMain main m') (h : m.Recoded Routine.OrReturns m')
    (hrun : m.run host fuel = some (outcome, m₁))
    (hwithin : ∀ e, outcome = .failed e → e.fault.isBeyondCode = false) :
    ∃ m₁', m'.run host fuel = some (outcome, m₁') ∧ m₁.Recoded Routine.OrReturns m₁' := by
  induction fuel generalizing m m' with
  | zero => cases hrun
  | succ fuel ih =>
    rcases h.frames_cases with
      ⟨hframes, hframes'⟩ | ⟨frame, callers, frame', callers', hframes, hframes', -, -⟩
    · rw [run_of_nil hframes] at hrun
      cases hrun
      exact ⟨m', run_of_nil hframes' fuel, h⟩
    · have halike := step_orReturns hhost hm hm' h hframes hframes'
      generalize hstep : Exec.step host m = r at halike
      generalize hstep' : Exec.step host m' = r' at halike
      cases halike with
      | @goesOn m₂ m₂' h =>
        have hm₂ : RunsMain main m₂ := by
          have hadvance := hm.advance host
          rwa [advance_of_cons hframes, hstep] at hadvance
        have hm₂' : RunsMain main m₂' := by
          have hadvance := hm'.advance host
          rwa [advance_of_cons hframes', hstep'] at hadvance
        rw [run_of_ok hframes hstep] at hrun
        rw [run_of_ok hframes' hstep']
        exact ih hm₂ hm₂' h hrun
      | @fails fault m₂ m₂' h hfailure =>
        rw [run_of_error hframes hstep] at hrun
        cases hrun
        rw [run_of_error hframes' hstep', hfailure, h.depth_eq]
        exact ⟨m₂', rfl, h⟩
      | beyond hfault =>
        -- such a fault would have been the outcome
        rw [run_of_error hframes hstep] at hrun
        cases hrun
        cases (hwithin _ rfl).symm.trans hfault

end Machine

/-! ## Programs -/

/-- A host of one function, which answers its first argument, or null if there is none. -/
def Host.first : Host :=
  fun _ heap arguments => (.ok (arguments.headD .null), heap)

theorem Host.respects_first {R : Routine → Routine → Prop} : Host.first.Respects R := by
  intro label heap heap' arguments arguments' hheap harguments
  have hanswer : (arguments.headD .null).Recoded R (arguments'.headD .null) := by
    cases harguments with
    | nil => exact .null
    | cons hfirst _ => exact hfirst
  exact ⟨.ok hanswer, hheap⟩

/-- The constant with a bare return behind its code, if it is a function. -/
def Constant.withReturn : Constant → Constant
  | function routine => function routine.withReturn
  | constant => constant

/-- The program in which the chosen functions, by their places in the pool, have a bare return behind
their code. -/
def Program.withReturns (program : Program) (chosen : Nat → Bool) : Program :=
  { program with
    constants := program.constants.mapIdx fun place constant =>
      if chosen place then constant.withReturn else constant }

theorem Constant.recoded_withReturn (constant : Constant) (chosen : Bool) :
    constant.Recoded Routine.OrReturns (if chosen then constant.withReturn else constant) := by
  cases constant with
  | integer n => cases chosen <;> exact .integer n
  | string text => cases chosen <;> exact .string text
  | function routine =>
    cases chosen with
    | true => exact .function (Or.inr rfl)
    | false => exact .function (Or.inl rfl)

theorem Program.recoded_withReturns (program : Program) (chosen : Nat → Bool) :
    program.Recoded Routine.OrReturns (program.withReturns chosen) where
  main := rfl
  constants := by
    refine List.forall₂_iff_get.mpr ⟨by simp [withReturns], fun place hplace hplace' => ?_⟩
    have hrecoded := Constant.recoded_withReturn (program.constants.toList.get ⟨place, hplace⟩)
      (chosen place)
    simpa [withReturns] using hrecoded

namespace Machine

theorem RunsMain.of_load (session : Session) (limits : Limits) (program : Program)
    (builtins : Builtins) (modules : Dict String Value) (heap : Heap) :
    RunsMain { code := program.main }
      { load session limits program with builtins, modules, heap } where
  wellFormed := WellFormed.of_fresh ((fresh_load session limits program).equip builtins modules heap)
  outermost := by
    intro frame hframe
    cases hframe
    rfl

/-- **The end of a function is a bare return.** Put a bare return behind the code of any functions of
a program. A run that ended still ends, in a machine that is the same but for that code; a run that
failed fails in the same way, at the same place, unless it failed for going beyond the end of some
code. -/
theorem run_withReturns {host : Host} (hhost : host.Respects Routine.OrReturns) (program : Program)
    (chosen : Nat → Bool) (session : Session) (limits : Limits) (builtins : Builtins)
    (modules : Dict String Value) (heap : Heap) {fuel : Nat} {outcome : Outcome} {m : Machine}
    (hrun : ({ load session limits program with builtins, modules, heap }).run host fuel
      = some (outcome, m))
    (hwithin : ∀ e, outcome = .failed e → e.fault.isBeyondCode = false) :
    ∃ m', ({ load session limits (program.withReturns chosen) with builtins, modules, heap }).run
        host fuel = some (outcome, m')
      ∧ m.Recoded Routine.OrReturns m' := by
  have hprogram := program.recoded_withReturns chosen
  have hload := hprogram.load recodes_orReturns session limits
  have hm := RunsMain.of_load session limits program builtins modules heap
  have hm' := RunsMain.of_load session limits (program.withReturns chosen) builtins modules heap
  refine run_orReturns hhost hm hm' ?_ hrun hwithin
  exact { hload with
    builtins := rfl
    modules := .refl (.refl recodes_orReturns) modules
    heap := .refl recodes_orReturns heap }

/-- A function that leaves nothing behind is called once, and a global still refers to it at the end. -/
theorem run_withReturns_global :
    ∃ (program : Program) (m m' : Machine),
      (load {} ⟨4, 2, 1⟩ program).run Host.first 8 = some (.finished, m)
        ∧ (load {} ⟨4, 2, 1⟩ (program.withReturns fun _ => true)).run Host.first 8
          = some (.finished, m')
        ∧ m.stack = #[.null] ∧ m.globals = #[.closure ⟨1, { code := #[11, 19] }⟩]
        ∧ m.Recoded Routine.OrReturns m' := by
  -- `MakeClosure 0 0; BindGlobal 0; Call 0` and, in the function, `LoadTrue; Pop`
  let program : Program :=
    ⟨#[18, 0, 0, 0, 5, 0, 0, 42, 0], #[.function { code := #[11, 19] }]⟩
  have houtcome : ((load {} ⟨4, 2, 1⟩ program).run Host.first 8).map
      (fun result => (result.1, result.2.stack, result.2.globals))
        = some (.finished, #[.null], #[.closure ⟨1, { code := #[11, 19] }⟩]) := by decide +kernel
  obtain ⟨⟨outcome, m⟩, hrun, hresult⟩ := Option.map_eq_some_iff.mp houtcome
  obtain ⟨rfl, hstack, hglobals⟩ : outcome = .finished ∧ m.stack = #[.null]
      ∧ m.globals = #[.closure ⟨1, { code := #[11, 19] }⟩] := by simpa using hresult
  have hwithin : ∀ e, Outcome.finished = .failed e → e.fault.isBeyondCode = false := by
    intro e he
    cases he
  obtain ⟨m', hrun', hrecoded⟩ := run_withReturns Host.respects_first program (fun _ => true) {}
    ⟨4, 2, 1⟩ {} .empty _ hrun hwithin
  exact ⟨program, m, m', hrun, hrun', hstack, hglobals, hrecoded⟩

end Machine

end ClosureMachine
