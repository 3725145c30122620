import ClosureMachine.Proofs.Machine.Footprint

/-!
# Globals that outlive their machine

One machine goes on with the globals of another, cut off or filled up to its own number of them. What
a global holds can then be told from what has happened so far: from the stores that were completed and
the machines that were started, in the order in which this came to pass.

* **`Succession log m`** says that `m` is a state of the last of such machines, with that behind it.
* **`advance_globals`** is what one step does to the globals, **`Succession.globals_eq`** what they hold
  at all times.
* **`loadGlobal_recalls`** is about the value that a load pushes: the one stored last, if there was
  room for it ever since.
-/

namespace ClosureMachine

/-! ## What one step stores -/

/-- Whether an operation gives a global a value. -/
def Opcode.storesGlobal : Opcode → Bool
  | assignGlobal | bindGlobal => true
  | _ => false

namespace Machine

/-- The global that the next step gives a value, and that value, unless it stores none or faults. -/
def stored? (host : Host) (m : Machine) : Option (Nat × Value) :=
  match m.upcoming?, Exec.step host m with
  | some executed, .ok _ _ =>
    if executed.instruction.opcode.storesGlobal then
      m.stack.back?.map (executed.instruction.first, ·)
    else
      none
  | _, _ => none

variable {host : Host} {m : Machine} {frame : Frame} {callers : List Frame} {i : Instruction}

theorem stored?_of_error {fault : Fault} {m' : Machine}
    (hstep : Exec.step host m = .error fault m') : m.stored? host = none := by
  unfold stored?
  rw [hstep]
  cases m.upcoming? <;> rfl

theorem stored?_of_nil (hframes : m.frames = []) : m.stored? host = none :=
  stored?_of_error (step_of_nil hframes)

end Machine

namespace Exec

variable {host : Host} {m : Machine} {frame : Frame} {callers : List Frame} {i : Instruction}

/-- What an instruction does that stores, once it has found its global and taken the value. -/
theorem execute_of_storesGlobal (host : Host) (hop : i.opcode.storesGlobal = true) :
    ∃ a : Value → Exec Unit, execute host i = proceed (do checkGlobal i.first; a (← pop))
      ∧ ∀ (v : Value) (m : Machine), m.stack.size < m.limits.stackSize →
          ∃ stack, a v m = .ok () { m with globals := m.globals.setIfInBounds i.first v, stack } := by
  unfold execute
  cases hopcode : i.opcode with
  | assignGlobal => exact ⟨_, rfl, fun v m _ => ⟨m.stack, rfl⟩⟩
  | bindGlobal =>
    refine ⟨_, rfl, fun v m room => ⟨m.stack.push v, ?_⟩⟩
    rw [bind_apply]
    exact push_of_lt v room
  | _ => simp [hopcode, Opcode.storesGlobal] at hop

/-- A step that stores: it faults, or the top of the stack is what a global holds from now on. -/
theorem step_of_storesGlobal (host : Host) (hm : WellFormed m) (hframes : m.frames = frame :: callers)
    (hnext : frame.next = .ok i) (hop : i.opcode.storesGlobal = true) :
    (∃ fault, step host m = .error fault { m with frames := frame.past i :: callers })
      ∨ ∃ v stack, i.first < m.globals.size ∧ m.stack.back? = some v
        ∧ step host m = .ok () { m with
            globals := m.globals.setIfInBounds i.first v
            stack
            frames := frame.past i :: callers } := by
  obtain ⟨a, hexecute, ha⟩ := execute_of_storesGlobal host hop
  rw [step_of_proceed hframes hnext hexecute, bind_apply]
  unfold checkGlobal
  by_cases hindex : i.first < m.globals.size
  · simp only [if_pos hindex]
    rw [bind_apply]
    have hpast := floor_past hframes i
    by_cases henough : m.floor < m.stack.size
    · obtain ⟨v, hback, hpop⟩ := pop_of_lt (m := { m with frames := frame.past i :: callers })
        (hpast ▸ henough)
      have hsize := hm.stack_le
      -- there is room for the value, since it has just been taken
      have room : m.stack.pop.size < m.limits.stackSize := by
        rw [Array.size_pop]
        omega
      obtain ⟨stack, hstored⟩ := ha v
        { m with stack := m.stack.pop, frames := frame.past i :: callers } room
      rw [hpop]
      exact Or.inr ⟨v, stack, hindex, hback, hstored⟩
    · rw [pop_of_not_lt (m := { m with frames := frame.past i :: callers }) (hpast ▸ henough)]
      exact Or.inl ⟨_, rfl⟩
  · simp only [if_neg hindex]
    exact Or.inl ⟨_, rfl⟩

end Exec

namespace Machine

variable {host : Host} {m : Machine}

/-- **What a step does to the globals.** It completes a store in one that there is, or leaves them all
as they are. -/
theorem advance_globals (host : Host) (hm : WellFormed m) :
    (m.stored? host = none ∧ (m.advance host).globals = m.globals)
      ∨ ∃ index v, index < m.globals.size ∧ m.stored? host = some (index, v)
        ∧ (m.advance host).globals = m.globals.setIfInBounds index v := by
  cases hframes : m.frames with
  | nil => exact Or.inl ⟨stored?_of_nil hframes, by rw [advance_of_nil hframes]⟩
  | cons frame callers =>
    rw [advance_of_cons hframes]
    by_cases hstores : ∃ i, frame.next = .ok i ∧ i.opcode.storesGlobal = true
    · obtain ⟨i, hnext, hop⟩ := hstores
      rcases Exec.step_of_storesGlobal host hm hframes hnext hop with
        ⟨fault, hstep⟩ | ⟨v, stack, hindex, hback, hstep⟩
      · exact Or.inl ⟨stored?_of_error hstep, by rw [hstep]; rfl⟩
      · refine Or.inr ⟨i.first, v, hindex, ?_, by rw [hstep]; rfl⟩
        unfold stored?
        rw [upcoming?_of_next hframes hnext, hstep]
        simp [hop, hback]
    · refine Or.inl ⟨?_, ?_⟩
      · unfold stored?
        cases hnext : frame.next with
        | error e => rw [upcoming?_of_error hframes hnext]
        | ok i =>
          rw [upcoming?_of_next hframes hnext]
          cases Exec.step host m with
          | error fault m' => rfl
          | ok _ m' => exact if_neg fun hop => hstores ⟨i, hnext, hop⟩
      · have ht := Exec.step_transition host hm.floor_le hm.stack_le hframes
        rcases ht.globals with h | ⟨i, v, hnext, hop, -⟩
        · exact h
        · refine absurd ⟨i, hnext, ?_⟩ hstores
          rcases hop with hop | hop <;> rw [hop] <;> rfl

end Machine

/-! ## Machine after machine -/

/-- What can come to pass that matters to the globals: a machine is started that has so many of them,
or a store in one of them is completed. -/
inductive Mark where
  | started (size : Nat)
  | stored (index : Nat) (value : Value)
  deriving DecidableEq

/-- `m` is a state of the last of some machines each of which goes on with the globals of the one
before, and `log` is what has come to pass, the latest first. A host may equip a machine at any time,
and may run it, or have it run by other hosts, as often as it likes. -/
inductive Succession : List Mark → Machine → Prop
  | first (heap : Heap) (limits : Limits) (main : Code) (constants : Array Value) :
      Succession [.started limits.globalsSize] (Machine.start { heap } limits main constants)
  | next {log : List Mark} {m : Machine} (h : Succession log m) (heap : Heap) (limits : Limits)
      (main : Code) (constants : Array Value) :
      Succession (.started limits.globalsSize :: log)
        (Machine.start { m.session with heap } limits main constants)
  | equip {log : List Mark} {m : Machine} (h : Succession log m) (builtins : Builtins)
      (modules : Dict String Value) (heap : Heap) :
      Succession log { m with builtins, modules, heap }
  | step {log : List Mark} {m : Machine} (h : Succession log m) (host : Host) :
      Succession ((m.stored? host).toList.map (fun (index, v) => .stored index v) ++ log)
        (m.advance host)

/-- What a global holds after all that has come to pass. -/
def remembered (index : Nat) : List Mark → Value
  | [] => .null
  | .started size :: earlier => if index < size then remembered index earlier else .null
  | .stored place v :: earlier => if place = index then v else remembered index earlier

/-- What was stored last is there, unless there has been no room for it in between. -/
theorem remembered_append_stored {index : Nat} {later : List Mark}
    (hlater : ∀ w, .stored index w ∉ later) (v : Value) (earlier : List Mark) :
    ((∀ size, .started size ∈ later → index < size) →
        remembered index (later ++ .stored index v :: earlier) = v)
      ∧ ∀ size, .started size ∈ later → size ≤ index →
        remembered index (later ++ .stored index v :: earlier) = .null := by
  induction later with
  | nil => simp [remembered]
  | cons mark later ih =>
    have hrest : ∀ w, .stored index w ∉ later := fun w hw => hlater w (List.mem_cons_of_mem _ hw)
    obtain ⟨hkept, hlost⟩ := ih hrest
    rw [List.cons_append]
    cases mark with
    | stored place w =>
      have hplace : place ≠ index := by
        rintro rfl
        exact hlater w List.mem_cons_self
      simpa [remembered, hplace] using ⟨hkept, hlost⟩
    | started size =>
      by_cases hsize : index < size
      · simpa [remembered, hsize, Nat.not_le_of_lt hsize] using ⟨hkept, hlost⟩
      · simp [remembered, hsize]

/-- Before the first store a global is null. -/
theorem remembered_of_forall_not_mem {index : Nat} {log : List Mark}
    (h : ∀ v, .stored index v ∉ log) : remembered index log = .null := by
  induction log with
  | nil => rfl
  | cons mark log ih =>
    have hrest := ih fun v hv => h v (List.mem_cons_of_mem _ hv)
    cases mark with
    | started size => simp [remembered, hrest]
    | stored place v =>
      have hplace : place ≠ index := by
        rintro rfl
        exact h v List.mem_cons_self
      simp [remembered, hplace, hrest]

theorem Machine.getElem?_resize (globals : Array Value) (size index : Nat) :
    (Machine.resize globals size)[index]?.getD .null
      = if index < size then globals[index]?.getD .null else .null := by
  unfold Machine.resize
  rw [Array.shrink_eq_take]
  grind

namespace Succession

variable {log : List Mark} {m m' : Machine}

theorem wellFormed (h : Succession log m) : WellFormed m := by
  induction h with
  | first heap limits main constants =>
    exact .of_fresh (.start { heap } limits main constants {} .empty _)
  | next _ heap limits main constants =>
    exact .of_fresh (.start { Machine.session _ with heap } limits main constants {} .empty _)
  | equip _ builtins modules heap ih =>
    exact ⟨ih.stack_le, ih.globals_size, ih.depth_le, ih.ip_le, ih.chained, ih.floor_le⟩
  | step _ host ih => exact ih.advance host

/-- **What the globals hold.** At all times it is what has been stored in them last, null if there has
been no room for it since. -/
theorem globals_eq (h : Succession log m) (index : Nat) :
    m.globals[index]?.getD .null = remembered index log := by
  induction h with
  | first heap limits main constants =>
    show (Machine.resize #[] limits.globalsSize)[index]?.getD .null = _
    rw [Machine.getElem?_resize]
    rfl
  | @next log m _ heap limits main constants ih =>
    -- what is cut off is null from now on, and so is what is filled up
    show (Machine.resize m.globals limits.globalsSize)[index]?.getD .null = _
    rw [Machine.getElem?_resize, ih]
    rfl
  | equip _ builtins modules heap ih => exact ih
  | @step log m h host ih =>
    -- a store is in bounds, so it is to be found where it was made
    rcases m.advance_globals host h.wellFormed with
      ⟨hstored, hglobals⟩ | ⟨place, v, hplace, hstored, hglobals⟩
    · rw [hstored, hglobals]
      exact ih
    · rw [hstored, hglobals]
      show _ = if place = index then v else remembered index log
      rw [Array.getElem?_setIfInBounds]
      by_cases heq : place = index
      · rw [if_pos heq, if_pos heq, if_pos hplace]
        rfl
      · rw [if_neg heq, if_neg heq]
        exact ih

/-- Runs lead on, however they end, and what was behind stays behind. -/
theorem run (h : Succession log m) {host : Host} {fuel : Nat} {outcome : Outcome}
    (hrun : m.run host fuel = some (outcome, m')) : ∃ since, Succession (since ++ log) m' := by
  obtain ⟨n, rfl⟩ := Machine.run_eq_after hrun
  clear hrun
  induction n with
  | zero => exact ⟨[], h⟩
  | succ n ih =>
    obtain ⟨since, hsince⟩ := ih
    exact ⟨_, List.append_assoc .. ▸ hsince.step host⟩

end Succession

/-- **A load recalls the last store.** The value that it pushes is the one that was stored in its
global last, by whatever machine and at whatever depth, provided that every machine started since has
had room for it; and it is null if one had none, or if there was no such store. -/
theorem loadGlobal_recalls {log : List Mark} {m m' : Machine} (h : Succession log m) {frame : Frame}
    {callers : List Frame} {i : Instruction} (hframes : m.frames = frame :: callers)
    (hnext : frame.next = .ok i) (hop : i.opcode = .loadGlobal) {host : Host}
    (hstep : Exec.step host m = .ok () m') :
    ∃ v, m'.stack = m.stack.push v
      ∧ (∀ later earlier w, log = later ++ .stored i.first w :: earlier →
          (∀ w', .stored i.first w' ∉ later) →
          ((∀ size, .started size ∈ later → i.first < size) → v = w)
            ∧ (∀ size, .started size ∈ later → size ≤ i.first → v = .null))
      ∧ ((∀ w, .stored i.first w ∉ log) → v = .null) := by
  have hexecute : Exec.execute host i = Exec.proceed (do Exec.push (← Exec.global i.first)) := by
    unfold Exec.execute
    rw [hop]
  rw [Exec.step_of_proceed hframes hnext hexecute] at hstep
  obtain ⟨v, m₁, hglobal, hpush⟩ := Exec.bind_eq_ok.mp hstep
  obtain ⟨hv, rfl⟩ : m.globals[i.first]? = some v
      ∧ m₁ = { m with frames := frame.past i :: callers } := by
    unfold Exec.global at hglobal
    split at hglobal
    · next hv =>
      cases hglobal
      exact ⟨hv, rfl⟩
    · cases hglobal
  obtain ⟨-, rfl⟩ := Exec.push_eq_ok hpush
  have hrecall : v = remembered i.first log := by
    rw [← h.globals_eq, hv]
    rfl
  refine ⟨v, rfl, ?_, ?_⟩
  · rintro later earlier w rfl hlater
    rw [hrecall]
    exact remembered_append_stored hlater w earlier
  · intro hnever
    rw [hrecall]
    exact remembered_of_forall_not_mem hnever

/-- The last of three machines, which loads a global. The first has given two globals a value, but the
second had room for one of them only. -/
def Machine.afterTruncation (index : UInt8) : Machine :=
  -- `LoadTrue; AssignGlobal 0; LoadTrue; AssignGlobal 1`, then nothing, then `LoadGlobal index`
  let first := (start {} ⟨4, 1, 2⟩ #[11, 2, 0, 0, 11, 2, 0, 1] #[]).after .sample 4
  let second := start first.session ⟨4, 1, 1⟩ #[] #[]
  start second.session ⟨4, 1, 2⟩ #[4, 0, index] #[]

theorem Machine.succession_afterTruncation (index : UInt8) :
    Succession [.started 2, .started 1, .stored 1 (.boolean true), .stored 0 (.boolean true),
      .started 2] (afterTruncation index) := by
  have hfirst := Succession.first {} ⟨4, 1, 2⟩ #[11, 2, 0, 0, 11, 2, 0, 1] #[]
  have hstored := (((hfirst.step .sample).step .sample).step .sample).step .sample
  obtain ⟨log, hlog, h⟩ : ∃ log, log = [.started 2, .started 1, .stored 1 (.boolean true),
      .stored 0 (.boolean true), .started 2] ∧ Succession log (afterTruncation index) :=
    ⟨_, by decide +kernel, (hstored.next _ ⟨4, 1, 1⟩ #[] #[]).next _ ⟨4, 1, 2⟩ _ #[]⟩
  rwa [← hlog]

/-- The global that there was room for all along is recalled, the other is lost. -/
theorem loadGlobal_recalls_afterTruncation :
    (∃ m, Exec.step Host.sample (Machine.afterTruncation 0) = .ok () m ∧ m.stack = #[.boolean true])
      ∧ ∃ m, Exec.step Host.sample (Machine.afterTruncation 1) = .ok () m ∧ m.stack = #[.null] := by
  have hok : ∀ index ∈ ([0, 1] : List UInt8),
      (match Exec.step Host.sample (Machine.afterTruncation index) with
        | .ok _ _ => true
        | .error _ _ => false) = true := by decide +kernel
  constructor
  · cases hstep : Exec.step Host.sample (Machine.afterTruncation 0) with
    | error fault m => simpa [hstep] using hok 0
    | ok _ m =>
      obtain ⟨v, hstack, hlast, -⟩ := loadGlobal_recalls (i := ⟨.loadGlobal, [0]⟩)
        (Machine.succession_afterTruncation 0) rfl (by decide +kernel) rfl hstep
      obtain ⟨hkept, -⟩ := hlast [.started 2, .started 1, .stored 1 (.boolean true)] _ _ rfl
        (by simp [Instruction.first])
      exact ⟨m, rfl, by rw [hstack, hkept (by simp [Instruction.first])]; rfl⟩
  · cases hstep : Exec.step Host.sample (Machine.afterTruncation 1) with
    | error fault m => simpa [hstep] using hok 1
    | ok _ m =>
      obtain ⟨v, hstack, hlast, -⟩ := loadGlobal_recalls (i := ⟨.loadGlobal, [1]⟩)
        (Machine.succession_afterTruncation 1) rfl (by decide +kernel) rfl hstep
      obtain ⟨-, hlost⟩ := hlast [.started 2, .started 1] _ _ rfl (by simp)
      exact ⟨m, rfl, by rw [hstack, hlost 1 (by simp) (by decide)]; rfl⟩

end ClosureMachine
