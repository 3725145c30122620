import ClosureMachine.Proofs.Assembly.Drafting
import ClosureMachine.Proofs.Machine.Invariant
import ClosureMachine.Proofs.Machine.Refusals
import ClosureMachine.Proofs.Machine.Routines

/-!
# Frames stay on the boundaries of their code

In an assembled program the jumps of which land, every frame is at all times at a boundary of its
stream, so that there always is an instruction to decode and a place to jump to.

* **`Exec.OnCourse a`** says of an action that its faults are not those of a frame gone astray.
  Calls and returns are on course, and every other instruction that does not jump beyond the end of
  its stream (`isAstray_execute`).
* **`Aligned`** is the invariant, **`Aligned.advance`** the step.
* **`aligned_after`** is about every state of a machine that runs an assembled program. What its host
  supplies besides may hold functions of the program, but none of its own.
-/

namespace ClosureMachine

/-- The faults of a frame that has gone astray: there is no instruction where it is, or no place
where it jumps. -/
def Fault.isAstray : Fault → Bool
  | codec _ | jumpOutOfRange _ _ => true
  | _ => false

/-- No function of the host fails as a frame does that has gone astray. -/
def Host.OnCourse (host : Host) : Prop :=
  ∀ (label : String) (heap heap' : Heap) (arguments : List Value) (fault : Fault),
    host label heap arguments = (.error fault, heap') → fault.isAstray = false

theorem Host.Sample.isAstray_sum {arguments : List Value} {fault : Fault}
    (h : Sample.sum arguments = .error fault) : fault.isAstray = false := by
  have hfold := map_eq_error_iff.mp h
  -- whatever has been summed up before, the fault is that of an argument
  generalize (0 : Int64) = total at hfold
  clear h
  induction arguments generalizing total with
  | nil => cases hfold
  | cons first rest ih =>
    rw [List.foldlM_cons] at hfold
    cases first with
    | integer n => exact ih _ hfold
    | _ =>
      cases hfold
      rfl

theorem Host.onCourse_sample : Host.sample.OnCourse := by
  intro label heap heap' arguments fault h
  unfold Host.sample at h
  dsimp only at h
  split at h
  case h_1 | h_2 | h_5 | h_6 => cases h
  case h_3 | h_4 | h_9 =>
    cases h
    rfl
  case h_7 =>
    obtain ⟨hfault, -⟩ := Prod.mk.inj h
    exact Sample.isAstray_sum hfault
  case h_8 =>
    unfold Sample.append at h
    split at h
    · cases h
    · cases h
      rfl

theorem Fault.isAstray_of_blamesOperand {fault : Fault} (h : fault.blamesOperand = true) :
    fault.isAstray = false := by
  cases fault with
  | codec | jumpOutOfRange => cases h
  | _ => rfl

/-! ## Actions that stay on course -/

namespace Exec

variable {α β : Type}

/-- No fault of the action is that of a frame gone astray. -/
def OnCourse (a : Exec α) : Prop :=
  ∀ (m m' : Machine) (fault : Fault), a m = .error fault m' → fault.isAstray = false

theorem OnCourse.bind {a : Exec α} {f : α → Exec β} (ha : OnCourse a) (hf : ∀ x, OnCourse (f x)) :
    OnCourse (a >>= f) := by
  intro m m' fault h
  rcases bind_eq_error.mp h with h | ⟨x, m₁, -, h⟩
  · exact ha m m' fault h
  · exact hf x m₁ m' fault h

theorem onCourse_pure (x : α) : OnCourse (pure x) := by
  intro m m' fault h
  cases h

theorem onCourse_throw {fault : Fault} (hfault : fault.isAstray = false) :
    OnCourse (throw fault : Exec α) := by
  intro m m' fault' h
  cases h
  exact hfault

theorem onCourse_push (v : Value) : OnCourse (push v) := by
  intro m m' fault h
  unfold push at h
  split at h
  · cases h
  · cases h
    rfl

theorem onCourse_pop : OnCourse pop := by
  intro m m' fault h
  unfold pop at h
  split at h
  · cases h
  · cases h
    rfl

/-- An action that cannot fault is on course. -/
theorem onCourse_of_ok {a : Exec α} (h : ∀ m, ∃ x m', a m = .ok x m') : OnCourse a := by
  intro m m' fault hfault
  obtain ⟨x, m₁, hok⟩ := h m
  cases hok.symm.trans hfault

theorem onCourse_onHeap {f : Heap → Except Fault α × Heap}
    (hf : ∀ heap heap' fault, f heap = (.error fault, heap') → fault.isAstray = false) :
    OnCourse (onHeap f) := by
  intro m m' fault h
  unfold onHeap at h
  dsimp only at h
  split at h
  · cases h
  · next hfault =>
    cases h
    exact hf _ _ _ hfault

theorem onCourse_callee (given : Nat) : OnCourse (callee given) := by
  intro m m' fault h
  unfold callee at h
  split at h
  · cases h
  · cases h
    rfl

theorem onCourse_enter (closure : Closure) (given : Nat) : OnCourse (enter closure given) := by
  intro m m' fault h
  unfold enter at h
  dsimp only at h
  split at h
  · cases h
    rfl
  split at h
  · cases h
    rfl
  split at h
  · cases h
    rfl
  · cases h

theorem onCourse_leave : OnCourse leave := by
  intro m m' fault h
  unfold leave at h
  split at h
  · cases h
    rfl
  · cases h

theorem onCourse_leaveWith (v : Value) : OnCourse (leaveWith v) :=
  onCourse_leave.bind fun _ => onCourse_pure _

/-! ### Instructions -/

variable {host : Host}

theorem onCourse_call (hhost : host.OnCourse) (given : Nat) : OnCourse (call host given) := by
  refine (onCourse_callee given).bind fun (place, v) => ?_
  cases v with
  | closure closure => exact (onCourse_enter closure given).bind fun _ => onCourse_pure _
  | builtin b =>
    refine OnCourse.bind (onCourse_of_ok fun _ => ⟨_, _, rfl⟩) fun arguments => ?_
    have hanswer : OnCourse (onHeap fun heap => host b.label heap arguments) :=
      onCourse_onHeap fun heap heap' fault => hhost b.label heap heap' arguments fault
    refine hanswer.bind fun answer => ?_
    refine OnCourse.bind (onCourse_of_ok fun _ => ⟨_, _, rfl⟩) fun _ => ?_
    exact (onCourse_push answer).bind fun _ => onCourse_pure _
  | _ => exact onCourse_throw rfl

/-- **An instruction is on course that does not jump beyond the end of its stream.** -/
theorem isAstray_execute (hhost : host.OnCourse) {m m' : Machine} {frame : Frame}
    {callers : List Frame} {i : Instruction} {fault : Fault} (hframes : m.frames = frame :: callers)
    (htarget : i.opcode.jumps = true → i.first ≤ frame.code.size)
    (h : execute host i m = .error fault m') : fault.isAstray = false := by
  cases htransfers : i.opcode.transfers with
  | false =>
    have hactive : m.frames ≠ [] := by simp [hframes]
    cases refuses_execute host i htransfers m m' fault hactive h with
    | few | full => rfl
    | beyond hjumps hframes' hbeyond =>
      obtain ⟨rfl, -⟩ := List.cons.inj (hframes.symm.trans hframes')
      have hle := htarget hjumps
      omega
    | operand hblames => exact Fault.isAstray_of_blamesOperand hblames
  | true =>
    obtain ⟨op, operands⟩ := i
    cases op with
    | call => exact onCourse_call hhost _ _ _ _ h
    | returnValue => exact (onCourse_pop.bind fun v => onCourse_leaveWith v) _ _ _ h
    | bareReturn => exact onCourse_leaveWith .null _ _ _ h
    | _ => cases htransfers

end Exec

/-! ## Frames at boundaries -/

/-- The routine is instructions in full, and its jumps go to where these begin or end. -/
structure Routine.Sound (routine : Routine) : Prop where
  complete : Complete routine.code.toList
  lands : JumpsLand routine.code

/-- Every frame is at a boundary of its stream. -/
def Machine.Aligned (m : Machine) : Prop :=
  ∀ frame ∈ m.frames, Boundary frame.code frame.ip

section

variable {host : Host} {m m' : Machine} {frame : Frame} {callers : List Frame} {i : Instruction}

theorem Frame.boundary_past (h : Boundary frame.code frame.ip) (hnext : frame.next = .ok i) :
    Boundary frame.code (frame.past i).ip :=
  h.next hnext

theorem Frame.boundary_target (h : Boundary frame.code frame.ip) (hlands : JumpsLand frame.code)
    (hnext : frame.next = .ok i) (hjumps : i.opcode.jumps = true) : Boundary frame.code i.first :=
  hlands frame.ip i h hnext hjumps

/-- The active frame is at a boundary when it has stepped over its instruction. -/
theorem Machine.Aligned.past (h : m.Aligned) (hframes : m.frames = frame :: callers)
    (hnext : frame.next = .ok i) :
    ∀ f ∈ frame.past i :: callers, Boundary f.code f.ip := by
  have hall : ∀ f ∈ frame :: callers, Boundary f.code f.ip := hframes ▸ h
  obtain ⟨hframe, hcallers⟩ := List.forall_mem_cons.mp hall
  have hpast := Frame.boundary_past hframe hnext
  exact List.forall_mem_cons.mpr ⟨hpast, hcallers⟩

/-- **A step keeps all frames at boundaries**, whether it faults or not. -/
theorem Machine.Aligned.of_transition {r : EStateM.Result Fault Machine Unit} (h : m.Aligned)
    (hframes : m.frames = frame :: callers) (hlands : JumpsLand frame.code)
    (ht : Transition host m frame callers r) : (ofResult r).Aligned := by
  have hframe : Boundary frame.code frame.ip := h frame (hframes ▸ List.mem_cons_self)
  have hcallers : ∀ f ∈ callers, Boundary f.code f.ip :=
    fun f hf => h f (hframes ▸ List.mem_cons_of_mem _ hf)
  cases ht with
  | @straight i m₁ m' hnext _ took hcommit =>
    have hpast := h.past hframes hnext
    obtain ⟨ip, hframes', hip⟩ := hcommit.frames_eq took.frames
    have hboundary : Boundary frame.code ip := by
      rcases hip with rfl | ⟨rfl, hop⟩
      · exact hpast (frame.past i) List.mem_cons_self
      · have hjumps : i.opcode.jumps = true := by
          rcases hop with hop | hop
          · simp [hop, Opcode.jumps]
          · simp [hop, Opcode.jumps]
        exact Frame.boundary_target hframe hlands hnext hjumps
    intro f (hf : f ∈ m'.frames)
    rw [hframes'] at hf
    rcases List.mem_cons.mp hf with rfl | hf
    · exact hboundary
    · exact hcallers f hf
  | builtin hcalls => exact h.past hframes hcalls.next
  | enter hcalls =>
    have hpast := h.past hframes hcalls.next
    exact List.forall_mem_cons.mpr ⟨.start, hpast⟩
  | leave => exact hcallers
  | finish => exact List.forall_mem_nil _
  | undecodable => exact h
  | refused hnext took =>
    have hpast := h.past hframes hnext
    intro f hf
    simp only [ofResult, took.frames] at hf
    exact hpast f hf
  | hostFault hcalls => exact h.past hframes hcalls.next
  | overflow => exact hcallers

theorem Machine.Aligned.advance (h : m.Aligned) (hwf : WellFormed m)
    (hlands : ∀ frame ∈ m.frames, JumpsLand frame.code) (host : Host) :
    (m.advance host).Aligned := by
  cases hframes : m.frames with
  | nil => rwa [advance_of_nil hframes]
  | cons frame callers =>
    have hframe := hlands frame (hframes ▸ List.mem_cons_self)
    have hstep := Exec.step_transition host hwf.floor_le hwf.stack_le hframes
    rw [advance_of_cons hframes]
    exact h.of_transition hframes hframe hstep

namespace Exec

theorem onCourse_deliver (progress : Progress) : OnCourse (deliver progress) := by
  cases progress with
  | left v => exact onCourse_push v
  | _ => exact onCourse_pure _

/-- **No step from a boundary goes astray.** There is an instruction or there is the end of the
stream, and where the instruction jumps there is a boundary again. -/
theorem isAstray_step (hhost : host.OnCourse) (h : m.Aligned)
    (hsound : ∀ frame ∈ m.frames, frame.closure.routine.Sound) {fault : Fault}
    (hstep : step host m = .error fault m') : fault.isAstray = false := by
  cases hframes : m.frames with
  | nil =>
    rw [Machine.step_of_nil hframes] at hstep
    cases hstep
    rfl
  | cons frame callers =>
    have hmem : frame ∈ m.frames := hframes ▸ List.mem_cons_self
    have hboundary := h frame hmem
    have hroutine := hsound frame hmem
    rcases bind_eq_error.mp hstep with hstep | ⟨progress, m₁, -, hstep⟩
    · rcases hboundary.end_or_decodes hroutine.complete with hend | ⟨i, hnext⟩
      · have hfinished : frame.isFinished = true := decide_eq_true (Nat.le_of_eq hend.symm)
        rw [dispatch_of_frames hframes, if_pos hfinished] at hstep
        split at hstep
        · cases hstep
        · exact onCourse_leaveWith .null _ _ _ hstep
      · rw [dispatch_of_next hframes hnext] at hstep
        refine isAstray_execute hhost rfl (fun hjumps => ?_) hstep
        exact (Frame.boundary_target hboundary hroutine.lands hnext hjumps).le_size
    · exact onCourse_deliver progress _ _ _ hstep

end Exec

end

/-! ## Assembled programs -/

/-- The routine is the main stream of the program or one of its functions. -/
def Program.Includes (program : Program) (routine : Routine) : Prop :=
  routine = { code := program.main } ∨ Constant.function routine ∈ program.constants

section

variable {program : Program}

theorem Program.includes_main : program.Includes { code := program.main } :=
  Or.inl rfl

theorem Program.runs_constants : ∀ constant ∈ program.constants, constant.Runs program.Includes := by
  intro constant hconstant
  cases constant with
  | function routine => exact Or.inr hconstant
  | _ => trivial

theorem Program.Printable.sound (h : program.Printable) {routine : Routine}
    (hincludes : program.Includes routine) (hlands : JumpsLand routine.code) : routine.Sound := by
  refine ⟨?_, hlands⟩
  rcases hincludes with rfl | hconstant
  · exact h.main
  · have hroutine : routine.Printable := h.constants _ hconstant
    exact hroutine.code

variable {host : Host} {Q : Routine → Prop} {m₀ : Machine}

theorem Machine.aligned_of_fresh (h : m₀.Fresh) : m₀.Aligned := by
  cases h with
  | start =>
    intro frame hframe
    rw [List.mem_singleton.mp hframe]
    exact .start

/-- If all that a machine ever runs is sound, then its frames are at boundaries forever. -/
theorem Machine.aligned_after_of_runs (hfresh : m₀.Fresh) (hruns : m₀.Runs Q)
    (hhost : host.Runs Q) (hsound : ∀ routine, Q routine → routine.Sound) (n : Nat) :
    (m₀.after host n).Aligned := by
  induction n with
  | zero => exact aligned_of_fresh hfresh
  | succ n ih =>
    have hwf := (WellFormed.of_fresh hfresh).after host n
    have hruns' := runs_after hhost hruns n
    exact ih.advance hwf (fun frame hframe => (hsound _ (hruns'.frames frame hframe)).lands) host

/-- **Code whose jumps land never goes astray.** In every state of a machine that was given an
assembled program, each frame runs a routine of the program and is at a boundary of its stream, and
the next step fails neither to decode an instruction nor to jump. -/
theorem aligned_after {text : String} (hassemble : assemble text = .ok program)
    (hlands : ∀ routine, program.Includes routine → JumpsLand routine.code)
    (hhost : host.Runs program.Includes) (hcourse : host.OnCourse)
    {session : Session} (hsession : session.Runs program.Includes)
    {modules : Dict String Value}
    (hmodules : ∀ entry ∈ modules.entries, entry.2.Runs program.Includes)
    {heap : Heap} (hheap : heap.Runs program.Includes)
    (limits : Limits) (builtins : Builtins) (n : Nat) :
    let m := ({ Machine.load session limits program with builtins, modules, heap }).after host n
    (∀ frame ∈ m.frames, program.Includes frame.closure.routine ∧ Boundary frame.code frame.ip)
      ∧ ∀ fault m', Exec.step host m = .error fault m' →
        (∀ e, fault ≠ .codec e) ∧ ∀ target length, fault ≠ .jumpOutOfRange target length := by
  intro m
  have hprintable := (printable_of_assemble hassemble).1
  have hsound : ∀ routine, program.Includes routine → routine.Sound :=
    fun routine hincludes => hprintable.sound hincludes (hlands routine hincludes)
  have hloaded := Machine.runs_load_session limits hsession program.includes_main
    program.runs_constants
  have hequipped := hloaded.equip builtins hmodules hheap
  have hfresh := (Machine.fresh_load session limits program).equip builtins modules heap
  have hruns : m.Runs program.Includes := Machine.runs_after hhost hequipped n
  have haligned : m.Aligned := Machine.aligned_after_of_runs hfresh hequipped hhost hsound n
  refine ⟨fun frame hframe => ⟨hruns.frames frame hframe, haligned frame hframe⟩, ?_⟩
  intro fault m' hstep
  have hactive := fun frame hframe => hsound _ (hruns.frames frame hframe)
  have hastray := Exec.isAstray_step hcourse haligned hactive hstep
  constructor
  · rintro e rfl
    cases hastray
  · rintro target length rfl
    cases hastray

/-- In the fourth step of a loop around a call, of which each has a jump to the end or to the front
of its stream. -/
theorem aligned_after_loop :
    ∃ (program : Program) (m : Machine),
      assemble (".function 1 1\nLoadLocal 0\nJumpIfFalse 8\nLoadLocal 0\nReturnValue\n.end\n"
        ++ "MakeClosure 0 0\nLoadTrue\nCall 1\nPop\nJump 0\n") = .ok program
        ∧ m = (Machine.load {} {} program).after Host.sample 4
        ∧ m.frames.map (·.ip) = [2, 7] ∧ ∀ frame ∈ m.frames, Boundary frame.code frame.ip := by
  let truth : Routine := ⟨#[6, 0, 40, 0, 8, 6, 0, 44], 1, 1⟩
  let program : Program := ⟨#[18, 0, 0, 0, 11, 42, 1, 19, 41, 0, 0], #[.function truth]⟩
  have hassemble : assemble
      (".function 1 1\nLoadLocal 0\nJumpIfFalse 8\nLoadLocal 0\nReturnValue\n.end\n"
        ++ "MakeClosure 0 0\nLoadTrue\nCall 1\nPop\nJump 0\n") = .ok program := by decide +kernel
  have hlands : ∀ routine, program.Includes routine → JumpsLand routine.code := by
    rintro routine (rfl | hconstant)
    · decide +kernel
    · have hroutine : routine = truth := by simpa [program] using hconstant
      rw [hroutine]
      decide +kernel
  have hmodules : ∀ entry ∈ (Dict.empty : Dict String Value).entries,
      entry.2.Runs program.Includes := by simp
  have hheap := (Machine.runs_load_session {} .empty program.includes_main
    program.runs_constants).heap
  have haligned := aligned_after hassemble hlands Host.runs_sample Host.onCourse_sample .empty
    hmodules hheap {} {} 4
  exact ⟨program, _, hassemble, rfl, by decide +kernel, fun frame hf => (haligned.1 frame hf).2⟩

end

end ClosureMachine
