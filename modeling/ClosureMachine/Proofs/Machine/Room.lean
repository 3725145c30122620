import ClosureMachine.Proofs.Machine.Faults
import ClosureMachine.Proofs.Machine.Simulation

/-!
# Machines with more room

A limit does nothing but fault. A machine that has more room than another takes the same steps as
that one, as long as the other does not fault for want of room.

* **`Machine.widen`** is the machine as it would be with larger limits: what it has more of the
  globals is null.
* **`respected_room`**: every action keeps a machine and its widened form in step, unless the
  smaller one faults for want of room.
* **`room_step`** is the step, **`run_widen`** the run, **`run_of_limits_le`** the run from the
  start.

The stack and the frames of the two machines are equal, so all that has to be looked at is what
consults a limit: pushes, calls of closures, and globals.
-/

namespace ClosureMachine

/-- Limits are compared one by one. -/
instance : LE Limits where
  le limits limits' := limits.stackSize ≤ limits'.stackSize ∧ limits.maxFrames ≤ limits'.maxFrames
    ∧ limits.globalsSize ≤ limits'.globalsSize

instance (limits limits' : Limits) : Decidable (limits ≤ limits') :=
  inferInstanceAs (Decidable (_ ∧ _ ∧ _))

/-- The faults that are for want of room, on the stack, for frames or among the globals. -/
def Fault.isLimit : Fault → Bool
  | stackOverflow | frameOverflow _ | globalOutOfRange _ _ => true
  | _ => false

/-- The machine as it would be with larger limits. -/
def Machine.widen (limits' : Limits) (m : Machine) : Machine :=
  { m with
    globals := m.globals ++ Array.replicate (limits'.globalsSize - m.limits.globalsSize) .null
    limits := limits' }

/-- A machine under `limits` and its form under `limits'`, as long as the first has room. -/
def roomComparison (limits limits' : Limits) : Comparison where
  related m m' := (m.limits = limits ∧ m.globals.size = limits.globalsSize) ∧ m' = m.widen limits'
  places place place' := place = place'
  left fault := fault.isLimit = true
  right _ := False

namespace Exec

variable {α : Type} {limits limits' : Limits}

/-! ## Actions that do not consult a limit -/

/-- The result of an action in a machine with larger limits. -/
def widenResult (limits' : Limits) :
    EStateM.Result Fault Machine α → EStateM.Result Fault Machine α
  | .ok x m => .ok x (m.widen limits')
  | .error fault m => .error fault (m.widen limits')

/-- The action does the same whatever the limits are. It leaves them and the globals as they are. -/
def Unlimited (a : Exec α) : Prop :=
  ∀ (limits' : Limits) (m : Machine), a (m.widen limits') = widenResult limits' (a m)
    ∧ (Machine.ofResult (a m)).limits = m.limits ∧ (Machine.ofResult (a m)).globals = m.globals

theorem Unlimited.same {a : Exec α} (ha : Unlimited a) :
    (roomComparison limits limits').Same a := by
  rintro m _ ⟨⟨hlimits, hsize⟩, rfl⟩
  obtain ⟨hwiden, hlimits', hglobals⟩ := ha limits' m
  have hkept : (Machine.ofResult (a m)).limits = limits
      ∧ (Machine.ofResult (a m)).globals.size = limits.globalsSize := by
    rw [hlimits', hglobals]
    exact ⟨hlimits, hsize⟩
  rw [hwiden]
  generalize a m = r at hkept
  cases r with
  | ok x m' => exact .ok rfl ⟨hkept, rfl⟩
  | error fault m' => exact .error ⟨hkept, rfl⟩

theorem unlimited_pop : Unlimited pop := by
  intro limits' m
  unfold pop
  by_cases h : m.floor < m.stack.size
  · have h' : (m.widen limits').floor < (m.widen limits').stack.size := h
    rw [dif_pos h, dif_pos h']
    exact ⟨rfl, rfl, rfl⟩
  · have h' : ¬(m.widen limits').floor < (m.widen limits').stack.size := h
    rw [dif_neg h, dif_neg h']
    exact ⟨rfl, rfl, rfl⟩

theorem unlimited_popMany (count : Nat) : Unlimited (popMany count) := by
  intro limits' m
  unfold popMany
  by_cases h : m.floor + count ≤ m.stack.size
  · have h' : (m.widen limits').floor + count ≤ (m.widen limits').stack.size := h
    rw [if_pos h, if_pos h']
    exact ⟨rfl, rfl, rfl⟩
  · have h' : ¬(m.widen limits').floor + count ≤ (m.widen limits').stack.size := h
    rw [if_neg h, if_neg h']
    exact ⟨rfl, rfl, rfl⟩

theorem unlimited_constant (index : Nat) : Unlimited (constant index) := by
  intro limits' m
  unfold constant
  rw [show (m.widen limits').constants = m.constants from rfl]
  cases m.constants[index]? with
  | some v => exact ⟨rfl, rfl, rfl⟩
  | none => exact ⟨rfl, rfl, rfl⟩

theorem unlimited_builtin (index : Nat) : Unlimited (builtin index) := by
  intro limits' m
  unfold builtin
  rw [show (m.widen limits').builtins = m.builtins from rfl]
  cases m.builtins.get? index with
  | some b => exact ⟨rfl, rfl, rfl⟩
  | none => exact ⟨rfl, rfl, rfl⟩

theorem unlimited_moduleNamed (name : Value) : Unlimited (moduleNamed name) := by
  intro limits' m
  unfold moduleNamed
  cases name with
  | string name =>
    dsimp only
    rw [show (m.widen limits').modules = m.modules from rfl]
    cases m.modules.find? name with
    | some module => exact ⟨rfl, rfl, rfl⟩
    | none => exact ⟨rfl, rfl, rfl⟩
  | _ => exact ⟨rfl, rfl, rfl⟩

theorem unlimited_frame : Unlimited frame := by
  intro limits' m
  unfold frame
  rw [show (m.widen limits').frames = m.frames from rfl]
  cases m.frames with
  | nil => exact ⟨rfl, rfl, rfl⟩
  | cons active callers => exact ⟨rfl, rfl, rfl⟩

theorem unlimited_query (f : Heap → Except Fault α) : Unlimited (query f) := by
  intro limits' m
  unfold query
  rw [show (m.widen limits').heap = m.heap from rfl]
  cases f m.heap with
  | ok x => exact ⟨rfl, rfl, rfl⟩
  | error fault => exact ⟨rfl, rfl, rfl⟩

theorem unlimited_onHeap (f : Heap → Except Fault α × Heap) : Unlimited (onHeap f) := by
  intro limits' m
  unfold onHeap
  dsimp only
  rw [show (m.widen limits').heap = m.heap from rfl]
  rcases f m.heap with ⟨x | fault, heap⟩
  · exact ⟨rfl, rfl, rfl⟩
  · exact ⟨rfl, rfl, rfl⟩

theorem unlimited_jump (target : Nat) : Unlimited (jump target) := by
  intro limits' m
  unfold jump
  rw [show (m.widen limits').frames = m.frames from rfl]
  cases m.frames with
  | nil => exact ⟨rfl, rfl, rfl⟩
  | cons active callers =>
    dsimp only
    cases active.jump target with
    | ok frame => exact ⟨rfl, rfl, rfl⟩
    | error length => exact ⟨rfl, rfl, rfl⟩

theorem unlimited_fetch : Unlimited fetch := by
  intro limits' m
  unfold fetch
  rw [show (m.widen limits').frames = m.frames from rfl]
  cases m.frames with
  | nil => exact ⟨rfl, rfl, rfl⟩
  | cons active callers =>
    dsimp only
    cases active.fetch with
    | ok fetched => exact ⟨rfl, rfl, rfl⟩
    | error e => exact ⟨rfl, rfl, rfl⟩

theorem unlimited_leave : Unlimited leave := by
  intro limits' m
  unfold leave
  rw [show (m.widen limits').frames = m.frames from rfl]
  cases m.frames with
  | nil => exact ⟨rfl, rfl, rfl⟩
  | cons active callers => exact ⟨rfl, rfl, rfl⟩

theorem unlimited_callee (given : Nat) : Unlimited (callee given) := by
  intro limits' m
  unfold callee
  by_cases h : m.floor + (given + 1) ≤ m.stack.size
  · have h' : (m.widen limits').floor + (given + 1) ≤ (m.widen limits').stack.size := h
    rw [dif_pos h, dif_pos h']
    exact ⟨rfl, rfl, rfl⟩
  · have h' : ¬(m.widen limits').floor + (given + 1) ≤ (m.widen limits').stack.size := h
    rw [dif_neg h, dif_neg h']
    exact ⟨rfl, rfl, rfl⟩

theorem unlimited_slot (place : Nat) : Unlimited (slot place) :=
  fun _ _ => ⟨rfl, rfl, rfl⟩

theorem unlimited_setSlot (place : Nat) (v : Value) : Unlimited (setSlot place v) :=
  fun _ _ => ⟨rfl, rfl, rfl⟩

theorem unlimited_discard (v : Value) : Unlimited (discard v) :=
  fun _ _ => ⟨rfl, rfl, rfl⟩

theorem unlimited_above (place : Nat) : Unlimited (above place) :=
  fun _ _ => ⟨rfl, rfl, rfl⟩

theorem unlimited_truncate (height : Nat) : Unlimited (truncate height) :=
  fun _ _ => ⟨rfl, rfl, rfl⟩

theorem unlimited_isOutermost : Unlimited isOutermost :=
  fun _ _ => ⟨rfl, rfl, rfl⟩

theorem unlimited_endRun : Unlimited endRun :=
  fun _ _ => ⟨rfl, rfl, rfl⟩

/-! ## Actions that consult a limit -/

/-- What there is room for under a limit, there is room for under a larger one. -/
theorem room_push (hle : limits ≤ limits') (v : Value) :
    (roomComparison limits limits').Same (push v) := by
  rintro m _ ⟨⟨hlimits, hsize⟩, rfl⟩
  unfold push
  by_cases room : m.stack.size < m.limits.stackSize
  · have room' : (m.widen limits').stack.size < (m.widen limits').limits.stackSize := by
      rw [hlimits] at room
      exact Nat.lt_of_lt_of_le room hle.1
    rw [if_pos room, if_pos room']
    exact .ok rfl ⟨⟨hlimits, hsize⟩, rfl⟩
  · rw [if_neg room]
    exact .left rfl

theorem room_enter (hle : limits ≤ limits') (closure : Closure) (given : Nat) :
    (roomComparison limits limits').Same (enter closure given) := by
  rintro m _ ⟨⟨hlimits, hsize⟩, rfl⟩
  have hle' : m.limits ≤ limits' := hlimits ▸ hle
  unfold enter
  dsimp only
  rw [show (m.widen limits').stack = m.stack from rfl,
    show (m.widen limits').depth = m.depth from rfl,
    show (m.widen limits').limits = limits' from rfl]
  -- the checks come in the same order, and each that the first passes the second passes too
  by_cases harity : given ≠ closure.routine.params
  · rw [if_pos harity, if_pos harity]
    exact .error ⟨⟨hlimits, hsize⟩, rfl⟩
  · rw [if_neg harity, if_neg harity]
    by_cases hdepth : m.limits.maxFrames ≤ m.depth
    · rw [if_pos hdepth]
      exact .left rfl
    · have hdepth' : ¬limits'.maxFrames ≤ m.depth :=
        fun h => hdepth (Nat.le_trans hle'.2.1 h)
      rw [if_neg hdepth, if_neg hdepth']
      by_cases full : m.limits.stackSize < m.stack.size - given + closure.routine.slots
      · rw [if_pos full]
        exact .left rfl
      · have full' : ¬limits'.stackSize < m.stack.size - given + closure.routine.slots :=
          fun h => full (Nat.lt_of_le_of_lt hle'.1 h)
        rw [if_neg full, if_neg full']
        exact .ok rfl ⟨⟨hlimits, hsize⟩, rfl⟩

/-- The globals of a machine come first among those of its widened form. -/
theorem globals_widen (m : Machine) : (m.widen limits').globals
    = m.globals ++ Array.replicate (limits'.globalsSize - m.limits.globalsSize) .null :=
  rfl

theorem sim_checkGlobal (index : Nat) : (roomComparison limits limits').Sim
    (fun _ _ => index < limits.globalsSize) (checkGlobal index) (checkGlobal index) := by
  rintro m _ ⟨⟨hlimits, hsize⟩, rfl⟩
  unfold checkGlobal
  by_cases h : index < m.globals.size
  · have h' : index < (m.widen limits').globals.size := by
      rw [globals_widen, Array.size_append]
      omega
    rw [if_pos h, if_pos h']
    exact .ok (hsize ▸ h) ⟨⟨hlimits, hsize⟩, rfl⟩
  · rw [if_neg h]
    exact .left rfl

theorem room_global (index : Nat) : (roomComparison limits limits').Same (global index) := by
  rintro m _ ⟨⟨hlimits, hsize⟩, rfl⟩
  unfold global
  by_cases h : index < m.globals.size
  · rw [globals_widen, Array.getElem?_append_left h, Array.getElem?_eq_getElem h]
    exact .ok rfl ⟨⟨hlimits, hsize⟩, rfl⟩
  · rw [Array.getElem?_eq_none (Nat.le_of_not_lt h)]
    exact .left rfl

theorem room_setGlobal {index : Nat} (h : index < limits.globalsSize) (v : Value) :
    (roomComparison limits limits').Same (setGlobal index v) := by
  rintro m _ ⟨⟨hlimits, hsize⟩, rfl⟩
  have hset : { m.widen limits' with globals := (m.widen limits').globals.setIfInBounds index v }
      = Machine.widen limits' { m with globals := m.globals.setIfInBounds index v } := by
    rw [globals_widen, Array.setIfInBounds_append_left (hsize ▸ h)]
    rfl
  exact .ok rfl ⟨⟨hlimits, Array.size_setIfInBounds.trans hsize⟩, hset⟩

theorem room_call (hle : limits ≤ limits') (host : Host) (given : Nat) :
    (roomComparison limits limits').Same (call host given) := by
  refine (unlimited_callee given).same.bind fun ⟨place, callee⟩ => ?_
  cases callee with
  | closure closure =>
    exact (room_enter hle closure given).bind fun _ => Comparison.same_pure _
  | builtin b =>
    refine (unlimited_above place).same.bind fun arguments => ?_
    refine (unlimited_onHeap _).same.bind fun answer => ?_
    refine (unlimited_truncate place).same.bind fun _ => ?_
    exact (room_push hle answer).bind fun _ => Comparison.same_pure _
  | _ => exact Comparison.same_throw _

/-- **Every action keeps a machine and its widened form in step.** -/
theorem respected_room (hle : limits ≤ limits') : (roomComparison limits limits').Respected where
  push := room_push hle
  pop := unlimited_pop.same
  popMany count := (unlimited_popMany count).same
  discard v := (unlimited_discard v).same
  constant index := (unlimited_constant index).same
  builtin index := (unlimited_builtin index).same
  moduleNamed name := (unlimited_moduleNamed name).same
  global := room_global
  assignGlobal index := by
    refine (sim_checkGlobal index).bind fun _ _ hindex => ?_
    exact unlimited_pop.same.bind fun v => room_setGlobal hindex v
  bindGlobal index := by
    refine (sim_checkGlobal index).bind fun _ _ hindex => unlimited_pop.same.bind fun v => ?_
    exact (room_setGlobal hindex v).bind fun _ => room_push hle v
  frame := unlimited_frame.same.mono fun _ _ h => congrArg Frame.closure h
  localSlot index := unlimited_frame.same.bind fun active => by
    split
    · exact Comparison.same_pure _
    · exact Comparison.same_throw _
  slot h := h ▸ (unlimited_slot _).same
  setSlot h v := h ▸ (unlimited_setSlot _ v).same
  query f := (unlimited_query f).same
  onHeap f := (unlimited_onHeap f).same
  jump target := (unlimited_jump target).same
  call := room_call hle

/-! ## Steps -/

theorem room_leaveWith (v : Value) : (roomComparison limits limits').Same (leaveWith v) :=
  unlimited_leave.same.bind fun _ => Comparison.same_pure _

theorem room_execute (hle : limits ≤ limits') (host : Host) (i : Instruction) :
    (roomComparison limits limits').Same (execute host i) := by
  by_cases hbare : i.opcode = .bareReturn
  · unfold execute
    rw [hbare]
    exact room_leaveWith .null
  · by_cases hvalue : i.opcode = .returnValue
    · unfold execute
      rw [hvalue]
      exact unlimited_pop.same.bind fun v => room_leaveWith v
    · exact (respected_room hle).execute_same host i hbare hvalue

/-- **A step with more room** does what the step with less does, unless that one has no room. -/
theorem room_step (hle : limits ≤ limits') (host : Host) :
    (roomComparison limits limits').Same (step host) := by
  refine Comparison.Same.bind ?_ fun progress => ?_
  · refine unlimited_frame.same.bind fun active => ?_
    split
    · refine unlimited_isOutermost.same.bind fun outermost => ?_
      split
      · exact unlimited_endRun.same.proceed
      · exact room_leaveWith .null
    · exact unlimited_fetch.same.bind fun i => room_execute hle host i
  · cases progress with
    | left v => exact room_push hle v
    | _ => exact Comparison.same_pure ()

end Exec

/-! ## Runs -/

/-- The run did not end for want of room. -/
def Outcome.HasRoom (outcome : Outcome) : Prop :=
  ∀ e, outcome = .failed e → e.fault.isLimit = false

namespace Machine

variable {host : Host} {limits limits' : Limits}

/-- A machine with fresh globals, as its host has equipped it: with builtins, with modules, and with
what these take in the heap. -/
def equipped (limits : Limits) (main : Code) (constants : Array Value) (builtins : Builtins)
    (modules : Dict String Value) (before heap : Heap) : Machine :=
  { start { heap := before } limits main constants with builtins, modules, heap }

theorem equipped_widen (hle : limits ≤ limits') (main : Code) (constants : Array Value)
    (builtins : Builtins) (modules : Dict String Value) (before heap : Heap) :
    equipped limits' main constants builtins modules before heap
      = (equipped limits main constants builtins modules before heap).widen limits' := by
  have hnone : ∀ size, resize #[] size = Array.replicate size .null := by
    intro size
    simp [resize]
  have hglobals : resize #[] limits'.globalsSize
      = resize #[] limits.globalsSize
        ++ Array.replicate (limits'.globalsSize - limits.globalsSize) .null := by
    rw [hnone, hnone, Array.replicate_append_replicate, Nat.add_sub_cancel' hle.2.2]
  unfold equipped start
  dsimp only
  rw [hglobals]
  rfl

theorem upcoming?_widen (m : Machine) : (m.widen limits').upcoming? = m.upcoming? :=
  rfl

/-- **A run with more room** ends as the run with less does, after the same instructions, unless
that one ended for want of room. -/
theorem run_widen (hle : limits ≤ limits') {m m₁ : Machine} {fuel : Nat} {outcome : Outcome}
    (hlimits : m.limits = limits) (hsize : m.globals.size = limits.globalsSize)
    (hrun : m.run host fuel = some (outcome, m₁)) (hroom : outcome.HasRoom) :
    (m.widen limits').run host fuel = some (outcome, m₁.widen limits')
      ∧ (m.widen limits').history host fuel = m.history host fuel
      ∧ m₁.limits = limits ∧ m₁.globals.size = limits.globalsSize := by
  induction fuel generalizing m with
  | zero => cases hrun
  | succ fuel ih =>
    cases hframes : m.frames with
    | nil =>
      have hframes' : (m.widen limits').frames = [] := hframes
      rw [run_of_nil hframes] at hrun
      cases hrun
      rw [run_of_nil hframes', history_of_nil hframes, history_of_nil hframes']
      exact ⟨rfl, rfl, hlimits, hsize⟩
    | cons frame callers =>
      have hframes' : (m.widen limits').frames = frame :: callers := hframes
      have hsteps := Exec.room_step hle host m _ ⟨⟨hlimits, hsize⟩, rfl⟩
      generalize hstep : Exec.step host m = r at hsteps
      generalize hstep' : Exec.step host (m.widen limits') = r' at hsteps
      cases hsteps with
      | ok _ h =>
        obtain ⟨⟨hlimits₁, hsize₁⟩, rfl⟩ := h
        rw [run_of_ok hframes hstep] at hrun
        rw [run_of_ok hframes' hstep', history_of_ok hstep, history_of_ok hstep', upcoming?_widen]
        obtain ⟨hrun', hhistory, hkept⟩ := ih hlimits₁ hsize₁ hrun
        exact ⟨hrun', congrArg _ hhistory, hkept⟩
      | error h =>
        obtain ⟨hkept, rfl⟩ := h
        rw [run_of_error hframes hstep] at hrun
        cases hrun
        rw [run_of_error hframes' hstep', history_of_error hstep, history_of_error hstep',
          upcoming?_widen]
        exact ⟨rfl, rfl, hkept⟩
      | left hfault =>
        -- such a fault would have been the outcome
        rw [run_of_error hframes hstep] at hrun
        cases hrun
        have hnot := hroom _ rfl
        rw [show (frame.failure _ _).fault.isLimit = true from hfault] at hnot
        cases hnot
      | right hfault => cases hfault

/-- **Limits only ever add faults.** A program that has run to its end, or to a fault other than for
want of room, runs to the same end under larger limits, through the same instructions. The machine
it leaves behind is the same but for its limits and for the globals that it has more of, and these
are null. -/
theorem run_of_limits_le (hle : limits ≤ limits') (main : Code) (constants : Array Value)
    (builtins : Builtins) (modules : Dict String Value) (before heap : Heap) {fuel : Nat}
    {outcome : Outcome} {m : Machine}
    (hrun : (equipped limits main constants builtins modules before heap).run host fuel
      = some (outcome, m))
    (hroom : outcome.HasRoom) :
    m.globals.size = limits.globalsSize
      ∧ (equipped limits' main constants builtins modules before heap).run host fuel
        = some (outcome, { m with
            globals := m.globals
              ++ Array.replicate (limits'.globalsSize - limits.globalsSize) .null
            limits := limits' })
      ∧ (equipped limits' main constants builtins modules before heap).history host fuel
        = (equipped limits main constants builtins modules before heap).history host fuel := by
  have hsize : (equipped limits main constants builtins modules before heap).globals.size
      = limits.globalsSize :=
    (WellFormed.of_fresh (.start ..)).globals_size
  obtain ⟨hrun', hhistory, hlimits, hglobals⟩ := run_widen hle rfl hsize hrun hroom
  rw [equipped_widen hle, hrun', hhistory]
  refine ⟨hglobals, ?_, rfl⟩
  unfold widen
  rw [hlimits]

/-- A division by zero in a function, with as much room as it takes to get there and with more. -/
theorem run_of_limits_le_division :
    ∃ (limits limits' : Limits) (main : Code) (constants : Array Value) (heap : Heap) (e : Failure)
        (m m' : Machine),
      limits ≤ limits' ∧ limits ≠ limits' ∧ e.fault = .divisionByZero ∧ e.depth = 2
        ∧ (equipped limits main constants {} .empty {} heap).run Host.sample 7
          = some (.failed e, m)
        ∧ (equipped limits' main constants {} .empty {} heap).run Host.sample 7
          = some (.failed e, m') := by
  -- `LoadTrue; AssignGlobal 0; MakeClosure 0 0; Call 0`; the function divides constant 1 by 2
  let routine : Routine := { code := #[0, 0, 1, 0, 0, 2, 24] }
  let main : Code := #[11, 2, 0, 0, 18, 0, 0, 0, 42, 0]
  let constants : Array Value := #[.function 0 routine, .integer 1, .integer 0]
  have hle : (⟨3, 2, 1⟩ : Limits) ≤ ⟨8, 8, 8⟩ := by decide
  let e : Failure := ⟨.divisionByZero, some .div, 6, 2⟩
  have houtcome : ((equipped ⟨3, 2, 1⟩ main constants {} .empty {} { captures := #[#[]] }).run
      Host.sample 7).map Prod.fst = some (.failed e) := by decide +kernel
  obtain ⟨⟨outcome, m⟩, hrun, houtcome⟩ := Option.map_eq_some_iff.mp houtcome
  obtain rfl : outcome = .failed e := houtcome
  have hroom : (Outcome.failed e).HasRoom := by
    intro e' he
    cases he
    rfl
  obtain ⟨-, hrun', -⟩ := run_of_limits_le hle main constants {} .empty {} _ hrun hroom
  exact ⟨_, _, _, _, _, _, _, _, hle, by decide, rfl, rfl, hrun, hrun'⟩

end Machine

end ClosureMachine
