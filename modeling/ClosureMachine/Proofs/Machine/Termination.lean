import ClosureMachine.Proofs.Code.Boundary
import ClosureMachine.Proofs.Machine.Footprint
import ClosureMachine.Proofs.Machine.Leads
import ClosureMachine.Proofs.Machine.Routines
import Mathlib.Data.DFinsupp.WellFounded

/-!
# Runs that end

A run need not end, but only a jump back can keep it from doing so. Calls alone cannot: a caller is
past its call when the callee begins, and there is a limit to how many frames are open at a time. How
many calls there are in all may still be exponential in that limit, and closures may call themselves
by way of any container. So no single counter goes down. What does is the list of what the frames
have left to do, compared from the outermost frame on.

* **`JumpsForward`** says of a stream that nothing that can be decoded in it, at a boundary or not,
  jumps to its own offset or further back.
* **`advances_of_transition`** says what a step does to the call stack if the active frame has such a
  stream, and **`Advances.rank_lt`** that less is left to do after it.
* **`run_ends`** is the run, from whatever state it begins in.
-/

namespace ClosureMachine

/-! ## Streams that jump forward -/

/-- Wherever in the stream a jump can be decoded, it goes to a greater offset. That may still lie
between the bytes of the jump itself. -/
def JumpsForward (code : Code) : Prop :=
  ∀ (offset : Nat) (i : Instruction), Instruction.decodeAt code offset = .ok i →
    i.opcode.jumps = true → offset < i.first

def Routine.Forward (routine : Routine) : Prop :=
  JumpsForward routine.code

/-- Nothing can be decoded past the end. -/
theorem jumpsForward_iff {code : Code} :
    (∀ offset < code.size, ∀ i ∈ (Instruction.decodeAt code offset).toOption,
      i.opcode.jumps = true → offset < i.first) ↔ JumpsForward code := by
  constructor
  · intro h offset i hdecode
    have hend := Instruction.end_le_size hdecode
    have hpos := i.size_pos
    apply h offset (by omega) i
    rw [hdecode]
    rfl
  · intro h offset _ i hi
    apply h offset i
    cases hdecode : Instruction.decodeAt code offset with
    | ok j =>
      rw [hdecode] at hi
      cases hi
      rfl
    | error e =>
      rw [hdecode] at hi
      cases hi

instance (code : Code) : Decidable (JumpsForward code) :=
  decidable_of_iff _ jumpsForward_iff

instance (routine : Routine) : Decidable routine.Forward :=
  inferInstanceAs (Decidable (JumpsForward routine.code))

/-- `Jump 1` goes to its own operand. -/
example : JumpsForward #[41, 0, 1] := by decide +kernel

/-! ## What is left to do -/

/-- What the frame has of its stream from where it stands, its end included. -/
def Frame.remaining (frame : Frame) : Nat :=
  frame.code.size - frame.ip + 1

theorem Frame.remaining_goto_lt {frame : Frame} {ip : Nat} (hip : frame.ip < ip)
    (hle : ip ≤ frame.code.size) : Frame.remaining { frame with ip } < frame.remaining := by
  show frame.code.size - ip + 1 < frame.code.size - frame.ip + 1
  omega

/-- What becomes of the call stack: the active frame has gone on, and another one has been entered
above it or not, or it has been left. The callers are where they were. -/
inductive Advances (frame : Frame) (callers : List Frame) : List Frame → Prop
  | further {f : Frame} (h : f.remaining < frame.remaining) : Advances frame callers (f :: callers)
  | entered {f callee : Frame} (h : f.remaining < frame.remaining) :
      Advances frame callers (callee :: f :: callers)
  | left : Advances frame callers callers

namespace Machine

/-- What the frame at a level has left to do, the outermost frame being at level 0. -/
def remaining (m : Machine) (level : Nat) : Nat :=
  (m.frames.reverse[level]?).elim 0 Frame.remaining

/-- What the frames have left to do. The further out a frame, the more it counts. -/
def rank (levels : Nat) (m : Machine) : Lex (Fin levels → Nat) :=
  toLex fun level => m.remaining level

variable {m m' : Machine} {frame : Frame} {active callers : List Frame}

theorem remaining_of_lt (hframes : m.frames = active ++ callers) {level : Nat}
    (hlevel : level < callers.length) :
    m.remaining level = (callers.reverse[level]?).elim 0 Frame.remaining := by
  unfold remaining
  rw [hframes, List.reverse_append, List.getElem?_append_left (by simpa using hlevel)]

theorem remaining_length (hframes : m.frames = active ++ callers) :
    m.remaining callers.length = active.getLast?.elim 0 Frame.remaining := by
  unfold remaining
  rw [hframes, List.reverse_append, List.getElem?_append_right (by simp), List.length_reverse,
    Nat.sub_self, ← List.head?_eq_getElem?, List.head?_reverse]

/-- The callers count for more than all that stands above them. -/
theorem rank_lt_of_append {active' : List Frame} {levels : Nat} (hlevels : callers.length < levels)
    (hframes : m.frames = active ++ callers) (hframes' : m'.frames = active' ++ callers)
    (hlt : active'.getLast?.elim 0 Frame.remaining < active.getLast?.elim 0 Frame.remaining) :
    m'.rank levels < m.rank levels := by
  refine ⟨⟨callers.length, hlevels⟩, fun level hlevel => ?_, ?_⟩
  · show m'.remaining level = m.remaining level
    rw [remaining_of_lt hframes' hlevel, remaining_of_lt hframes hlevel]
  · show m'.remaining callers.length < m.remaining callers.length
    rwa [remaining_length hframes', remaining_length hframes]

end Machine

/-- **Whatever a step does to the call stack, less is left to do.** -/
theorem Advances.rank_lt {m m' : Machine} {frame : Frame} {callers : List Frame} {levels : Nat}
    (h : Advances frame callers m'.frames) (hframes : m.frames = frame :: callers)
    (hlevels : m.depth ≤ levels) : m'.rank levels < m.rank levels := by
  have hlength : callers.length < levels := by
    rw [Exec.depth_of_frames hframes] at hlevels
    omega
  generalize hframes' : m'.frames = frames at h
  have hactive : m.frames = [frame] ++ callers := hframes
  cases h with
  | @further f h =>
    have hactive' : m'.frames = [f] ++ callers := hframes'
    exact Machine.rank_lt_of_append hlength hactive hactive' h
  | @entered f callee h =>
    have hactive' : m'.frames = [callee, f] ++ callers := hframes'
    exact Machine.rank_lt_of_append hlength hactive hactive' h
  | left =>
    have hactive' : m'.frames = [] ++ callers := hframes'
    exact Machine.rank_lt_of_append hlength hactive hactive' (Nat.succ_pos _)

/-! ## Steps -/

section

variable {host : Host} {m m' : Machine} {frame : Frame} {callers : List Frame}

/-- A step in a stream that jumps forward. -/
theorem advances_of_transition (hm : WellFormed m) (hforward : JumpsForward frame.code)
    (hframes : m.frames = frame :: callers) (ht : Transition host m frame callers (.ok () m')) :
    Advances frame callers m'.frames := by
  have hle : ∀ f ∈ m'.frames, f.ip ≤ f.code.size := (hm.of_transition hframes ht).ip_le
  have hpast : ∀ i, frame.next = .ok i → (frame.past i).remaining < frame.remaining := by
    intro i hnext
    have hpos := i.size_pos
    exact Frame.remaining_goto_lt (by omega) (Frame.past_le hnext)
  cases ht with
  | @straight i m₁ _ hnext hop took hcommit =>
    have hframes₁ : m₁.frames = frame.past i :: callers := by rw [took.rest]
    obtain ⟨ip, hframes', rfl | ⟨rfl, hjump⟩⟩ := hcommit.frames_eq hframes₁
    · rw [hframes']
      exact .further (hpast i hnext)
    · rw [hframes'] at hle ⊢
      have hip : frame.ip < i.first := by
        apply hforward frame.ip i hnext
        rcases hjump with hjump | hjump <;> simp [hjump, Opcode.jumps]
      have hlt : Frame.remaining { frame with ip := i.first } < frame.remaining :=
        Frame.remaining_goto_lt hip (hle _ List.mem_cons_self)
      exact .further hlt
  | builtin hcalls => exact .further (hpast _ hcalls.next)
  | enter hcalls => exact .entered (hpast _ hcalls.next)
  | leave => exact .left
  | finish _ hcallers =>
    rw [hcallers]
    exact .left

end

/-! ## Runs -/

namespace Machine

/-- Given enough fuel, the run comes to an outcome. -/
def Ends (host : Host) (m : Machine) : Prop :=
  ∃ fuel outcome m', m.run host fuel = some (outcome, m')

variable {host : Host} {m m' : Machine} {frame : Frame} {callers : List Frame}

theorem ends_of_nil (hframes : m.frames = []) : m.Ends host :=
  ⟨1, _, _, run_of_nil hframes 0⟩

theorem ends_of_error (hframes : m.frames = frame :: callers) {fault : Fault}
    (hstep : Exec.step host m = .error fault m') : m.Ends host :=
  ⟨1, _, m', run_of_error hframes hstep 0⟩

theorem Ends.of_step (h : m'.Ends host) (hframes : m.frames = frame :: callers)
    (hstep : Exec.step host m = .ok () m') : m.Ends host := by
  obtain ⟨fuel, outcome, last, hrun⟩ := h
  refine ⟨fuel + 1, outcome, last, ?_⟩
  rw [run_of_ok hframes hstep, hrun]

/-- A machine ends that leads to nothing but streams that jump forward. -/
theorem ends_of_leadsOnly {held : List Value} (hhost : host.LeadsOnly Routine.Forward held)
    (hm : WellFormed m) (hforward : m.LeadsOnly Routine.Forward held) {levels : Nat}
    (hlevels : max 1 m.limits.maxFrames ≤ levels) : m.Ends host := by
  induction hrank : m.rank levels using WellFoundedLT.induction generalizing m with
  | ind rank ih =>
    subst hrank
    cases hframes : m.frames with
    | nil => exact ends_of_nil hframes
    | cons frame callers =>
      have ht := Exec.step_transition host hm.floor_le hm.stack_le hframes
      have hm' := hm.advance host
      have hlimits := hm.limits_advance host
      have hforward' := leadsOnly_advance hhost hforward
      rw [advance_of_cons hframes] at hm' hlimits hforward'
      cases hstep : Exec.step host m with
      | error fault m' => exact ends_of_error hframes hstep
      | ok _ m' =>
        rw [hstep] at ht hm' hlimits hforward'
        have hcode : frame.closure.routine.Forward :=
          hforward _ (Or.inl (.frame (hframes ▸ List.mem_cons_self))) _ (.closure _)
        have hlt := (advances_of_transition hm hcode hframes ht).rank_lt hframes
          (Nat.le_trans hm.depth_le hlevels)
        -- the limits never change, so that one number of levels is enough for the whole run
        exact (ih _ hlt hm' hforward' (hlimits ▸ hlevels) rfl).of_step hframes hstep

end Machine

/-- **A run ends if all streams that can come to be run jump forward**, however the functions call
each other, and in whatever state it begins. The host may hand on functions that it has been given,
at once or later on. -/
theorem run_ends {host : Host} {held : List Value} (hhost : host.LeadsOnly Routine.Forward held)
    {m₀ : Machine} (hfresh : m₀.Fresh) (hforward : m₀.LeadsOnly Routine.Forward held) (n : Nat) :
    ∃ fuel outcome m', (m₀.after host n).run host fuel = some (outcome, m') := by
  apply Machine.ends_of_leadsOnly hhost _ (Machine.leadsOnly_after hhost hforward n) (Nat.le_refl _)
  exact (WellFormed.of_fresh hfresh).after host n

/-- A function that takes itself out of an array and calls itself, without anything to stop it. -/
def endless : Program :=
  let main : Code := #[18, 0, 0, 0, 16, 0, 1, 2, 0, 0, 4, 0, 0, 0, 0, 1, 14, 42, 0]
  let again : Code := #[11, 40, 0, 13, 4, 0, 0, 0, 0, 1, 14, 42, 0, 43]
  ⟨main, #[.function { code := again }, .integer 0]⟩

/-- Three of its calls are open, none of which will ever return by itself, and still the run ends. -/
theorem run_ends_endless :
    ∃ m₀ : Machine, m₀ = .load {} ⟨64, 8, 1⟩ endless ∧ m₀.Fresh ∧ m₀.LeadsOnly Routine.Forward []
      ∧ (m₀.after Host.sample 20).depth = 4
      ∧ ∃ fuel outcome m', (m₀.after Host.sample 20).run Host.sample fuel
          = some (outcome, m') := by
  have hfresh := Machine.fresh_load {} ⟨64, 8, 1⟩ endless
  have hruns : (Machine.load {} ⟨64, 8, 1⟩ endless).Runs Routine.Forward := by
    apply Machine.runs_load
    · decide +kernel
    · intro constant hconstant
      simp only [endless, List.mem_toArray, List.mem_cons, List.not_mem_nil, or_false] at hconstant
      rcases hconstant with rfl | rfl
      · show Routine.Forward _
        decide +kernel
      · trivial
  have hforward : Machine.LeadsOnly Routine.Forward [] (Machine.load {} ⟨64, 8, 1⟩ endless) :=
    (Machine.within_whole.mpr hruns).leadsOnly (List.forall_mem_nil _)
  have hends := run_ends (Host.leadsOnly_sample Routine.Forward) hfresh hforward 20
  exact ⟨_, rfl, hfresh, hforward, by decide +kernel, hends⟩

end ClosureMachine
