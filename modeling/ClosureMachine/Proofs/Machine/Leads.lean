import ClosureMachine.Proofs.Machine.Realm

/-!
# What leads to a routine

A function or a closure leads to its routine, and a value whose cell holds others leads to whatever
these lead to. A closure that nothing in the machine refers to any more may still take up a place in
the heap, but the machine can no longer come to run it.

* **`Machine.LeadsOnly Q held m`** says that all that the values of a machine lead to has `Q`, and all
  that the values lead to that its host has kept for itself.
* **`Heap.Leads.routine`**: a value of a realm leads to routines of the realm only. The other way
  round, the cells that lead to nothing without `Q` make up a realm (`Realm.only`).
* **`leadsOnly_advance`** is the step, **`leadsOnly_after`** any number of steps.

A function of the host may change what any cell holds, so that the realm is another one before and
after the step that calls it. Such a step is set apart from the others.
-/

namespace ClosureMachine

/-! ## Values -/

/-- Starting from the value, one gets to the routine through any number of containers and
captures. -/
inductive Heap.Leads (heap : Heap) : Value → Routine → Prop
  | function (id : Nat) (routine : Routine) : Leads heap (.function id routine) routine
  | closure (c : Closure) : Leads heap (.closure c) c.routine
  | inside {v w : Value} {cell : Cell} {routine : Routine} (hcell : v.cell? = some cell)
      (hw : w ∈ heap.contents cell) (h : Leads heap w routine) : Leads heap v routine

/-- Whatever the value leads to has `Q`. -/
def Heap.LeadsOnly (Q : Routine → Prop) (heap : Heap) (v : Value) : Prop :=
  ∀ routine, heap.Leads v routine → Q routine

/-- The routines with `Q`, and the cells that lead to no other. -/
def Realm.only (Q : Routine → Prop) (heap : Heap) : Realm :=
  ⟨Q, fun cell => ∀ v ∈ heap.contents cell, heap.LeadsOnly Q v⟩

section

variable {R : Realm} {Q : Routine → Prop} {heap heap' : Heap} {v : Value}

theorem Value.Within.cell (hv : v.Within R) {cell : Heap.Cell} (hcell : v.cell? = some cell) :
    R.cell cell := by
  cases v with
  | array | hash | module =>
    cases hcell
    exact hv
  | closure c =>
    cases hcell
    exact hv.2
  | _ => cases hcell

/-- **What is within a realm leads to routines of the realm only.** -/
theorem Heap.Leads.routine {routine : Routine} (h : heap.Leads v routine) (hheap : heap.Within R)
    (hv : v.Within R) : R.routine routine := by
  induction h with
  | function id routine => exact hv
  | closure c => exact hv.1
  | inside hcell hw _ ih =>
    apply ih
    exact hheap.contents _ (hv.cell hcell) _ hw

theorem Heap.LeadsOnly.within (h : heap.LeadsOnly Q v) : v.Within (.only Q heap) := by
  have hcell : ∀ cell, v.cell? = some cell → (Realm.only Q heap).cell cell :=
    fun cell hcell w hw routine hleads => h routine (.inside hcell hw hleads)
  cases v with
  | function id routine => exact h routine (.function id routine)
  | closure c => exact ⟨h c.routine (.closure c), hcell _ rfl⟩
  | array | hash | module => exact hcell _ rfl
  | _ => trivial

theorem Heap.within_only : heap.Within (.only Q heap) where
  contents cell hcell v hv := (hcell v hv).within
  isNew cell hnew v hv := by
    rw [contents_of_isNew hnew] at hv
    cases hv

end

/-! ## Machines -/

/-- The values that a machine has, wherever they lie. What its cells hold is not among them. -/
inductive Machine.Holds (m : Machine) : Value → Prop
  | constant {v : Value} (h : v ∈ m.constants) : Holds m v
  | module {entry : String × Value} (h : entry ∈ m.modules.entries) : Holds m entry.2
  | global {v : Value} (h : v ∈ m.globals) : Holds m v
  | stack {v : Value} (h : v ∈ m.stack) : Holds m v
  | frame {frame : Frame} (h : frame ∈ m.frames) : Holds m (.closure frame.closure)
  | lastPopped : Holds m m.lastPopped

/-- Whatever the machine can come to through its values has `Q`, and whatever its host can come to
through those that it holds. -/
def Machine.LeadsOnly (Q : Routine → Prop) (held : List Value) (m : Machine) : Prop :=
  ∀ v, m.Holds v ∨ v ∈ held → m.heap.LeadsOnly Q v

/-- What a host function hands back leads to nothing without `Q`, and neither does anything else
that did not before the call. -/
structure Answer.LeadsOnly (Q : Routine → Prop) (heap : Heap)
    (answer : Except Fault Value × Heap) : Prop where
  value : ∀ v, answer.1 = .ok v → answer.2.LeadsOnly Q v
  others : ∀ v, heap.LeadsOnly Q v → answer.2.LeadsOnly Q v

/-- The functions of the host bring in no routine without `Q`: given none, and holding none, they
hand none back, and they put none where there was none. -/
def Host.LeadsOnly (Q : Routine → Prop) (held : List Value) (host : Host) : Prop :=
  ∀ (label : String) (heap : Heap) (arguments : List Value),
    (∀ v ∈ held ++ arguments, heap.LeadsOnly Q v) →
      Answer.LeadsOnly Q heap (host label heap arguments)

section

variable {R : Realm} {Q : Routine → Prop} {held : List Value} {host : Host} {m : Machine}

theorem Machine.Within.holds (h : m.Within R) {v : Value} (hv : m.Holds v) : v.Within R := by
  cases hv with
  | constant hv => exact h.constants v hv
  | module hentry => exact h.modules _ hentry
  | global hv => exact h.globals v hv
  | stack hv => exact h.stack v hv
  | frame hframe => exact h.frames _ hframe
  | lastPopped => exact h.lastPopped

theorem Machine.Within.leadsOnly (h : m.Within R) (hheld : ∀ v ∈ held, v.Within R) :
    m.LeadsOnly R.routine held := by
  rintro v (hv | hv) routine hleads
  · exact hleads.routine h.heap (h.holds hv)
  · exact hleads.routine h.heap (hheld v hv)

/-- The heap may be another one, as long as what leads to nothing without `Q` still does so. -/
theorem Machine.LeadsOnly.within {heap : Heap} (h : m.LeadsOnly Q held)
    (hothers : ∀ v, m.heap.LeadsOnly Q v → heap.LeadsOnly Q v) :
    Machine.Within (.only Q heap) { m with heap } := by
  have hholds : ∀ v, m.Holds v → v.Within (.only Q heap) :=
    fun v hv => (hothers v (h v (Or.inl hv))).within
  exact
    { constants := fun v hv => hholds v (.constant hv)
      modules := fun entry hentry => hholds entry.2 (.module hentry)
      globals := fun v hv => hholds v (.global hv)
      stack := fun v hv => hholds v (.stack hv)
      frames := fun frame hframe => hholds _ (.frame hframe)
      lastPopped := hholds _ .lastPopped
      heap := Heap.within_only }

theorem Answer.Within.leadsOnly {heap : Heap} {answer : Except Fault Value × Heap}
    (h : Answer.Within (.only Q heap) answer) : Answer.LeadsOnly Q heap answer where
  value v hv _ hleads := hleads.routine h.heap (h.value v hv)
  others _ hv _ hleads := hleads.routine h.heap hv.within

/-- The sample host needs to hold nothing. -/
theorem Host.leadsOnly_sample (Q : Routine → Prop) : sample.LeadsOnly Q [] :=
  fun label heap _ harguments =>
    (within_sample label heap.within_only fun v hv => (harguments v hv).within).leadsOnly

/-! ## Runs -/

/-- The step that calls a function of the host. What counts is the heap that this leaves behind. -/
theorem Exec.leadsOnly_step_builtin (hhost : host.LeadsOnly Q held) (h : m.LeadsOnly Q held)
    {frame : Frame} {callers : List Frame} (hframes : m.frames = frame :: callers) {i : Instruction}
    {place : Nat} {b : Builtin} (hcalls : Calls m frame i place (.builtin b)) :
    (Machine.ofResult (step host m)).LeadsOnly Q held := by
  let answer : Heap → Except Fault Value × Heap :=
    fun heap => host b.label heap (m.stack.extract (place + 1) m.stack.size).toList
  let R : Realm := .only Q (answer m.heap).2
  have hanswer : Answer.LeadsOnly Q m.heap (answer m.heap) := by
    apply hhost
    intro v hv
    rcases List.mem_append.mp hv with hv | hv
    · exact h v (Or.inr hv)
    · rw [Array.mem_toList_iff] at hv
      exact h v (Or.inl (.stack (mem_of_mem_extract hv)))
  have hm := h.within hanswer.others
  have hkept : Kept R (Value.Within R)
      (onHeap answer { m with frames := frame.past i :: callers }) := by
    apply kept_onHeap
    · exact { hm with frames := hm.goto hframes _ }
    · exact fun v hv => (hanswer.value v hv).within
  have hstep : Kept R (fun _ => True) (step host m) := by
    rw [step_builtin hframes hcalls]
    apply hkept.bind
    intro v hv
    exact (keeps_truncate place).bind fun _ _ => keeps_push hv
  exact hstep.machine.leadsOnly fun v hv => (hanswer.others v (h v (Or.inr hv))).within

namespace Machine

theorem leadsOnly_advance (hhost : host.LeadsOnly Q held) (h : m.LeadsOnly Q held) :
    (m.advance host).LeadsOnly Q held := by
  cases hframes : m.frames with
  | nil => rwa [advance_of_nil hframes]
  | cons frame callers =>
    rw [advance_of_cons hframes]
    by_cases hbuiltin : ∃ i place b, Calls m frame i place (.builtin b)
    · obtain ⟨i, place, b, hcalls⟩ := hbuiltin
      exact Exec.leadsOnly_step_builtin hhost h hframes hcalls
    -- unless the host is called, the cells stay within what they lead to before the step
    · have hanswered : Exec.Answered (.only Q m.heap) host m := by
        intro frame' callers' i place b hframes' hcalls
        obtain ⟨rfl, rfl⟩ := List.cons.inj (hframes.symm.trans hframes')
        exact absurd ⟨i, place, b, hcalls⟩ hbuiltin
      have hkept := Exec.kept_step (h.within fun _ => id) hanswered
      exact hkept.machine.leadsOnly fun v hv => (h v (Or.inr hv)).within

/-- **What a machine leads to is all that it ever leads to**, if its host brings in nothing else. -/
theorem leadsOnly_after (hhost : host.LeadsOnly Q held) (h : m.LeadsOnly Q held) (n : Nat) :
    (m.after host n).LeadsOnly Q held :=
  after_induct (P := LeadsOnly Q held) (fun _ => leadsOnly_advance hhost) h n

end Machine

end

end ClosureMachine
