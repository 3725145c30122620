import ClosureMachine.Machine.Run

/-!
# The states of a machine

A machine is in turn made, equipped by its host and run, as often as the host likes: a run that
has faulted can be run again. Its states are therefore those that come one after the other by
`advance`, a step that faults counting like any other.

* **`Reachable host m`** says that `m` is such a state, of any program and any host.
* **`Reachable.run`** says that runs end in such states only, so nothing is missed.

What happens in between is the history of a run: the instructions that it has executed.
-/

namespace ClosureMachine.Machine

/-! ## Step after step -/

/-- The machine that an action leaves behind, whether it faults or not. -/
def ofResult {α : Type} : EStateM.Result Fault Machine α → Machine
  | .ok _ m | .error _ m => m

/-- The machine one step later. A run that has ended stays so. -/
def advance (host : Host) (m : Machine) : Machine :=
  match m.frames with
  | [] => m
  | _ :: _ => ofResult (Exec.step host m)

def after (host : Host) (m : Machine) : Nat → Machine
  | 0 => m
  | n + 1 => (m.after host n).advance host

variable {host : Host} {m m' : Machine}

theorem advance_of_nil (hframes : m.frames = []) : m.advance host = m := by
  unfold advance
  rw [hframes]

theorem advance_of_cons {frame : Frame} {callers : List Frame}
    (hframes : m.frames = frame :: callers) : m.advance host = ofResult (Exec.step host m) := by
  unfold advance
  rw [hframes]

theorem after_add (host : Host) (m : Machine) (j k : Nat) :
    m.after host (j + k) = (m.after host j).after host k := by
  induction k with
  | zero => rfl
  | succ k ih =>
    show (m.after host (j + k)).advance host = ((m.after host j).after host k).advance host
    rw [ih]

/-- The first step may as well be counted apart. -/
theorem after_succ (host : Host) (m : Machine) (n : Nat) :
    m.after host (n + 1) = (m.advance host).after host n := by
  rw [Nat.add_comm]
  exact after_add host m 1 n

/-- What every step keeps holds any number of steps later. -/
theorem after_induct {P : Machine → Prop} (advance : ∀ m, P m → P (m.advance host)) (h : P m)
    (n : Nat) : P (m.after host n) := by
  induction n with
  | zero => exact h
  | succ n ih => exact advance _ ih

/-- A run takes the machine some steps on. -/
theorem run_eq_after {fuel : Nat} {outcome : Outcome} (h : m.run host fuel = some (outcome, m')) :
    ∃ n, m' = m.after host n := by
  induction fuel generalizing m with
  | zero => cases h
  | succ fuel ih =>
    unfold run at h
    cases hframes : m.frames with
    | nil =>
      simp only [hframes, List.head?_nil] at h
      cases h
      exact ⟨0, rfl⟩
    | cons frame callers =>
      simp only [hframes, List.head?_cons] at h
      cases hstep : Exec.step host m with
      | ok _ m₁ =>
        simp only [hstep] at h
        obtain ⟨n, hn⟩ := ih h
        refine ⟨n + 1, ?_⟩
        rw [hn, after_succ, advance_of_cons hframes, hstep]
        rfl
      | error fault m₁ =>
        simp only [hstep] at h
        cases h
        refine ⟨1, ?_⟩
        rw [after_succ, advance_of_cons hframes, hstep]
        rfl

/-! ## The history of a run -/

/-- An instruction as it has been executed: at which depth of the call stack, from which offset. -/
structure Executed where
  depth : Nat
  offset : Nat
  instruction : Instruction
  deriving DecidableEq, Repr

/-- What the next step executes, if it executes anything. -/
def upcoming? (m : Machine) : Option Executed :=
  m.frames.head?.bind fun frame => frame.next.toOption.map (⟨m.depth, frame.ip, ·⟩)

theorem upcoming?_of_next {frame : Frame} {callers : List Frame} {i : Instruction}
    (hframes : m.frames = frame :: callers)
    (hnext : frame.next = .ok i) : m.upcoming? = some ⟨m.depth, frame.ip, i⟩ := by
  unfold upcoming?
  rw [hframes, List.head?_cons, Option.bind_some, hnext]
  rfl

theorem upcoming?_of_error {frame : Frame} {callers : List Frame} {e : CodecError}
    (hframes : m.frames = frame :: callers)
    (hnext : frame.next = .error e) : m.upcoming? = none := by
  unfold upcoming?
  rw [hframes, List.head?_cons, Option.bind_some, hnext]
  rfl

/-- The instructions that a run executes, in their order. The last of them may have faulted. -/
def history (host : Host) : Nat → Machine → List Executed
  | 0, _ => []
  | fuel + 1, m =>
    m.upcoming?.toList ++
      match Exec.step host m with
      | .ok () m => history host fuel m
      | .error _ _ => []

theorem step_of_nil (hframes : m.frames = []) :
    Exec.step host m = .error .stackUnderflow m := by
  have hframe : Exec.frame m = .error .stackUnderflow m := by
    unfold Exec.frame
    rw [hframes]
  show EStateM.bind (EStateM.bind Exec.frame _) _ m = _
  unfold EStateM.bind
  rw [hframe]

theorem run_of_nil (hframes : m.frames = []) (fuel : Nat) :
    m.run host (fuel + 1) = some (.finished, m) := by
  unfold run
  rw [hframes]
  rfl

/-- A run that has ended has nothing left to execute. -/
theorem history_of_nil (hframes : m.frames = []) (fuel : Nat) : m.history host fuel = [] := by
  cases fuel with
  | zero => rfl
  | succ fuel =>
    unfold history upcoming?
    rw [hframes, step_of_nil hframes]
    rfl

theorem run_of_ok {frame : Frame} {callers : List Frame} (hframes : m.frames = frame :: callers)
    (hstep : Exec.step host m = .ok () m') (fuel : Nat) :
    m.run host (fuel + 1) = m'.run host fuel := by
  rw [run, hframes, List.head?_cons]
  simp only [hstep]

/-- A run that begins with a fault ends there. -/
theorem run_of_error {frame : Frame} {callers : List Frame} {fault : Fault}
    (hframes : m.frames = frame :: callers) (hstep : Exec.step host m = .error fault m')
    (fuel : Nat) :
    m.run host (fuel + 1) = some (.failed (frame.failure m'.depth fault), m') := by
  rw [run, hframes, List.head?_cons]
  simp only [hstep]

theorem history_of_ok (hstep : Exec.step host m = .ok () m') (fuel : Nat) :
    m.history host (fuel + 1) = m.upcoming?.toList ++ m'.history host fuel := by
  rw [history, hstep]

theorem history_of_error {fault : Fault} (hstep : Exec.step host m = .error fault m')
    (fuel : Nat) : m.history host (fuel + 1) = m.upcoming?.toList := by
  rw [history, hstep, List.append_nil]

/-! ## Where a machine comes from -/

/-- A machine that has taken no step yet. The host has put any builtins, modules and heap in place. -/
inductive Fresh : Machine → Prop
  | start (session : Session) (limits : Limits) (main : Code) (constants : Array Value)
      (builtins : Builtins) (modules : Dict String Value) (heap : Heap) :
      Fresh { Machine.start session limits main constants with builtins, modules, heap }

theorem fresh_load (session : Session) (limits : Limits) (program : Program) :
    Fresh (load session limits program) :=
  .start { session with heap := _ } limits program.main _ {} {} _

theorem Fresh.equip (h : Fresh m) (builtins : Builtins) (modules : Dict String Value) (heap : Heap) :
    Fresh { m with builtins, modules, heap } := by
  cases h
  exact .start ..

theorem Fresh.addModule (h : Fresh m) (name : String) (members : Dict String Value) :
    Fresh (m.addModule name members) :=
  h.equip m.builtins _ _

/-- A state that a machine comes to in any number of steps. -/
def Reachable (host : Host) (m : Machine) : Prop :=
  ∃ m₀ n, Fresh m₀ ∧ m = m₀.after host n

theorem Fresh.reachable (h : Fresh m) : Reachable host m :=
  ⟨m, 0, h, rfl⟩

theorem Reachable.after (h : Reachable host m) (n : Nat) : Reachable host (m.after host n) := by
  obtain ⟨m₀, k, hfresh, rfl⟩ := h
  exact ⟨m₀, k + n, hfresh, (after_add host m₀ k n).symm⟩

/-- Runs lead from reachable states to reachable states, however they end. -/
theorem Reachable.run {fuel : Nat} {outcome : Outcome} (h : Reachable host m)
    (hrun : m.run host fuel = some (outcome, m')) : Reachable host m' := by
  obtain ⟨n, rfl⟩ := run_eq_after hrun
  exact h.after n

/-- What holds of fresh machines and is kept by every step holds of all states. -/
theorem Reachable.induct {P : Machine → Prop} (fresh : ∀ m, Fresh m → P m)
    (advance : ∀ m, P m → P (m.advance host)) (h : Reachable host m) : P m := by
  obtain ⟨m₀, n, hfresh, rfl⟩ := h
  exact after_induct advance (fresh m₀ hfresh) n

end ClosureMachine.Machine
