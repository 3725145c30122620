import ClosureMachine.Machine.Trace
import ClosureMachine.Proofs.Machine.Account

/-!
# Traced runs

A traced machine does what the machine does, and tells of it, as long as everything that it shows can be
drawn.

* **`Traced.step_of_told`** is the traced step, **`Machine.runTraced_of_told`** the traced run: the same
  result, and the account of it.
* **`Traced.step_of_undrawn`** and **`Machine.runTraced_of_undrawn`** are about the first picture that
  cannot be drawn: what has been told in front of it stays told, and nothing follows.
-/

namespace ClosureMachine

/-! ## Traced steps -/

namespace Traced

variable {α β : Type} {draw : Typesetter} {host : Host} {m : Machine} {frame : Frame}
  {callers : List Frame} {view : View} {text message : String} {front back : List Event}

/-- A result of the machine, with a text that was told on the way. -/
def telling (told : String) :
    EStateM.Result Fault Machine α → EStateM.Result Halt Narrator α
  | .ok x m => .ok x ⟨m, told⟩
  | .error fault m => .error (.fault fault) ⟨m, told⟩

theorem silently_apply (a : Exec α) (m : Machine) (told : String) :
    silently a ⟨m, told⟩ = telling told (a m) := by
  unfold silently
  dsimp only
  cases a m <;> rfl

theorem bind_apply (a : Traced α) (f : α → Traced β) (n : Narrator) :
    (a >>= f) n = match a n with
      | .ok x n' => f x n'
      | .error e n' => .error e n' := by
  show EStateM.bind a f n = _
  unfold EStateM.bind
  cases a n <;> rfl

/-- What is told of an instruction is its depth and its line in a listing. -/
theorem instructionLine_of_next {i : Instruction} (h : frame.next = .ok i) (depth : Nat) :
    instructionLine depth frame.ip i
      = String.ofList ((Decimal.ofNat depth).leftpad 3 ' ') ++ " "
        ++ String.ofList (Listing.Entry.instruction frame.ip i).line ++ "\n" := by
  have harity := Instruction.length_operands_of_decode h
  obtain ⟨htake, -⟩ := Instruction.operands_of_arity harity
  have hline : (Listing.Entry.instruction frame.ip i).line
      = Decimal.padded 4 frame.ip ++ ([' '] ++ i.text) := rfl
  unfold instructionLine
  simp only [htake, hline, String.ofList_append]
  simp [toString, String.append_assoc]

/-- Before it shows anything, a traced step tells which instruction it executes. -/
theorem dispatch_of_told (hframes : m.frames = frame :: callers)
    (h : Told draw (m.upcoming?.toList.map (.instruction · frame.code)) text) (told : String) :
    dispatch host ⟨m, told⟩ = telling (told ++ text) (Exec.dispatch host m) := by
  have hframe : silently Exec.frame ⟨m, told⟩ = .ok frame ⟨m, told⟩ := by
    rw [silently_apply, Exec.frame_of_frames hframes]
    rfl
  unfold dispatch
  rw [bind_apply, hframe]
  by_cases hend : frame.isFinished
  · -- at its end a frame is left without an instruction
    have hdispatch : Exec.dispatch host m = (do
        if ← Exec.isOutermost then Exec.proceed Exec.endRun else Exec.leaveWith .null) m := by
      unfold Exec.dispatch
      rw [Exec.bind_apply, Exec.frame_of_frames hframes]
      simp only [if_pos hend]
    rw [Machine.upcoming?_of_finished hframes hend] at h
    obtain rfl := Told.nil_iff.mp h
    rw [hdispatch, String.append_empty]
    simp only [if_pos hend]
    exact silently_apply ..
  · rw [Bool.not_eq_true] at hend
    simp only [hend, Bool.false_eq_true, if_false]
    rw [bind_apply, silently_apply]
    cases hnext : frame.next with
    | error e =>
      rw [Machine.upcoming?_of_error hframes hnext] at h
      obtain rfl := Told.nil_iff.mp h
      rw [Exec.fetch_of_error hframes hnext, Exec.dispatch_of_error hframes hend hnext,
        String.append_empty]
      rfl
    | ok i =>
      rw [Machine.upcoming?_of_next hframes hnext] at h
      obtain ⟨hentry⟩ := Told.singleton_iff.mp h
      obtain rfl := Option.some.inj (hentry.symm.trans (Listing.entryAt?_of_next hnext))
      rw [Exec.fetch_of_next hframes hnext, Exec.dispatch_of_next hframes hnext,
        ← instructionLine_of_next hnext, ← Exec.depth_past hframes i]
      simp only [telling]
      rw [bind_apply]
      exact silently_apply ..

theorem pose_of_told (h : Told draw [.picture m.view] text) (told : String) :
    pose draw ⟨m, told⟩ = .ok () ⟨m, told ++ text⟩ := by
  obtain ⟨drawn, hdrawn, rfl⟩ := Event.reads_picture_iff.mp (Told.singleton_iff.mp h)
  unfold pose
  simp only [hdrawn]
  rfl

/-- **A traced step** does what the step does, and tells of it. -/
theorem step_of_told (hframes : m.frames = frame :: callers)
    (h : Told draw (m.tidings host) text) (told : String) :
    step draw host ⟨m, told⟩ = telling (told ++ text) (Exec.step host m) := by
  unfold Machine.tidings Machine.shown? at h
  rw [hframes] at h
  -- the dispatch tells the line, and the picture follows unless the frames are as before
  obtain ⟨line, shown, hline, hshown, rfl⟩ := Told.append_iff.mp h
  unfold step Exec.step
  rw [bind_apply, dispatch_of_told hframes hline, Exec.bind_apply, ← String.append_assoc]
  cases hdispatch : Exec.dispatch host m with
  | error e m' =>
    rw [hdispatch] at hshown
    obtain rfl := Told.nil_iff.mp hshown
    rw [String.append_empty]
    rfl
  | ok progress m' =>
    rw [hdispatch] at hshown
    have hpicture : picture draw progress ⟨m', told ++ line⟩
        = .ok () ⟨m', told ++ line ++ shown⟩ := by
      cases progress with
      | next =>
        obtain rfl := Told.nil_iff.mp hshown
        rw [String.append_empty]
        rfl
      | entered | left => exact pose_of_told hshown _
    simp only [telling]
    rw [bind_apply, hpicture]
    exact silently_apply ..

/-- The one picture of a step comes last. -/
theorem tidings_eq_append_iff (hframes : m.frames = frame :: callers) :
    m.tidings host = front ++ .picture view :: back
      ↔ front = m.upcoming?.toList.map (.instruction · frame.code)
        ∧ (∃ shown, m.shown? host = some shown ∧ shown.view = view) ∧ back = [] := by
  unfold Machine.tidings
  rw [hframes]
  cases m.upcoming? <;> cases m.shown? host <;>
    simp [List.cons_eq_append_iff, eq_comm (a := view)]

/-- **A step whose picture cannot be drawn** stops with the machine that was to be shown. -/
theorem step_of_undrawn (hframes : m.frames = frame :: callers)
    (htidings : m.tidings host = front ++ .picture view :: back) (hfront : Told draw front text)
    (hundrawn : view.picture draw = .error message) (told : String) :
    ∃ shown, shown.view = view
      ∧ step draw host ⟨m, told⟩ = .error (.undrawn message) ⟨shown, told ++ text⟩ := by
  -- nothing but the line of the instruction can stand in front of the picture
  obtain ⟨rfl, ⟨shown, hshown, rfl⟩, -⟩ := (tidings_eq_append_iff hframes).mp htidings
  refine ⟨shown, rfl, ?_⟩
  unfold step
  rw [bind_apply, dispatch_of_told hframes hfront]
  have hpose : pose draw ⟨shown, told ++ text⟩
      = .error (.undrawn message) ⟨shown, told ++ text⟩ := by
    unfold pose
    simp only [hundrawn]
  unfold Machine.shown? at hshown
  cases hdispatch : Exec.dispatch host m with
  | error e m' =>
    rw [hdispatch] at hshown
    cases hshown
  | ok progress m' =>
    rw [hdispatch] at hshown
    cases progress with
    | next => cases hshown
    | entered | left =>
      cases hshown
      simp only [telling, picture]
      rw [bind_apply, hpose]

end Traced

/-! ## Traced runs -/

/-- Of two lists put together, an element is in the first one or in the second one. -/
theorem mem_of_append_eq {α : Type} {xs ys front back : List α} {x : α}
    (h : xs ++ ys = front ++ x :: back) :
    (∃ back', xs = front ++ x :: back')
      ∨ ∃ front', front = xs ++ front' ∧ ys = front' ++ x :: back := by
  rcases List.append_eq_append_iff.mp h with ⟨front', hfront, hys⟩ | ⟨back', hxs, hback⟩
  · exact Or.inr ⟨front', hfront, hys⟩
  · cases back' with
    | nil => exact Or.inr ⟨[], by simpa using hxs.symm, hback.symm⟩
    | cons y back' =>
      obtain ⟨rfl, -⟩ := List.cons.inj hback
      exact Or.inl ⟨back', hxs⟩

namespace Machine

variable {draw : Typesetter} {host : Host} {m : Machine} {text : String} {fuel : Nat}

/-- **A traced run** comes to what the run comes to, and has told the account of it. -/
theorem runTraced_of_told (h : Told draw (m.account host fuel) text) (told : String) :
    m.runTraced draw host fuel told = (m.run host fuel).map fun (outcome, m') =>
      (told ++ text, .ran outcome, m') := by
  -- what has been told before is carried along, so it is arbitrary in the induction
  induction fuel generalizing m told text with
  | zero => rfl
  | succ fuel ih =>
    cases hframes : m.frames with
    | nil =>
      rw [account_of_nil hframes] at h
      obtain rfl := Told.nil_iff.mp h
      rw [runTraced, run_of_nil hframes, hframes, String.append_empty]
      rfl
    | cons frame callers =>
      rw [account] at h
      obtain ⟨line, rest, hline, hrest, rfl⟩ := Told.append_iff.mp h
      rw [runTraced, hframes, List.head?_cons]
      simp only [Traced.step_of_told hframes hline]
      cases hstep : Exec.step host m with
      | ok _ m' =>
        rw [hstep] at hrest
        rw [run_of_ok hframes hstep, ← String.append_assoc]
        exact ih hrest _
      | error fault m' =>
        rw [hstep] at hrest
        obtain rfl := Told.nil_iff.mp hrest
        rw [run_of_error hframes hstep, String.append_empty]
        rfl

/-- **The first picture that cannot be drawn** ends a traced run, wherever the run would have gone from
there. What has been told of the run so far stays told. -/
theorem runTraced_of_undrawn {front back : List Event} {view : View} {message : String}
    (haccount : m.account host fuel = front ++ .picture view :: back)
    (hfront : Told draw front text) (hundrawn : view.picture draw = .error message)
    (told : String) :
    ∃ shown, shown.view = view
      ∧ m.runTraced draw host fuel told = some (told ++ text, .undrawn message, shown) := by
  induction fuel generalizing m told text front with
  | zero =>
    rw [account] at haccount
    simp at haccount
  | succ fuel ih =>
    cases hframes : m.frames with
    | nil =>
      rw [account_of_nil hframes] at haccount
      simp at haccount
    | cons frame callers =>
      rw [account] at haccount
      rw [runTraced, hframes, List.head?_cons]
      -- the picture is one of this step or one of those that follow
      rcases mem_of_append_eq haccount with ⟨back', htidings⟩ | ⟨front', rfl, hrest⟩
      · obtain ⟨shown, hview, hstep⟩ :=
          Traced.step_of_undrawn hframes htidings hfront hundrawn told
        exact ⟨shown, hview, by simp only [hstep]⟩
      · obtain ⟨line, rest, hline, hfront', rfl⟩ := Told.append_iff.mp hfront
        simp only [Traced.step_of_told hframes hline]
        cases hstep : Exec.step host m with
        | ok _ m' =>
          rw [hstep] at hrest
          rw [← String.append_assoc]
          exact ih hrest hfront' _
        | error fault m' =>
          rw [hstep] at hrest
          simp at hrest

end Machine

end ClosureMachine
