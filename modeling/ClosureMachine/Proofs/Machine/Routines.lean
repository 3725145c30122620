import ClosureMachine.Proofs.Machine.Realm

/-!
# The routines of a machine

No instruction makes a routine. What a machine ever runs is its main stream, a function that it was
given among its constants, globals, modules or in the heap, or one that its host has handed it.

* **`Machine.Runs Q`** says that every function and every closure in a machine is one of a routine
  with `Q`: wherever it lies, in a variable, on the stack, in a container or in a capture. That is to
  be within a realm that all cells of the heap belong to (`Machine.within_whole`).
* **`runs_advance`** is the step, **`runs_after`** any number of steps.
-/

namespace ClosureMachine

/-! ## Values, heaps and machines -/

/-- If the value is a function or a closure, its routine has `Q`. -/
def Value.Runs (Q : Routine → Prop) : Value → Prop
  | .function _ routine => Q routine
  | .closure c => Q c.routine
  | _ => True

structure Heap.Runs (Q : Routine → Prop) (heap : Heap) : Prop where
  arrays : ∀ elements ∈ heap.arrays, ∀ v ∈ elements, v.Runs Q
  hashes : ∀ dict ∈ heap.hashes, ∀ entry ∈ dict.entries, entry.2.Runs Q
  captures : ∀ captured ∈ heap.captures, ∀ v ∈ captured, v.Runs Q
  modules : ∀ module ∈ heap.modules, ∀ entry ∈ module.members.entries, entry.2.Runs Q

/-- Every function and every closure in the machine is one of a routine with `Q`. -/
structure Machine.Runs (Q : Routine → Prop) (m : Machine) : Prop where
  constants : ∀ v ∈ m.constants, v.Runs Q
  modules : ∀ entry ∈ m.modules.entries, entry.2.Runs Q
  globals : ∀ v ∈ m.globals, v.Runs Q
  stack : ∀ v ∈ m.stack, v.Runs Q
  frames : ∀ frame ∈ m.frames, Q frame.closure.routine
  lastPopped : m.lastPopped.Runs Q
  heap : m.heap.Runs Q

/-- What a host function hands back, be it a value or a fault, brings no routine without `Q`. -/
structure Answer.Runs (Q : Routine → Prop) (answer : Except Fault Value × Heap) : Prop where
  value : ∀ v, answer.1 = .ok v → v.Runs Q
  heap : answer.2.Runs Q

/-- The functions of the host make no routine without `Q`: given none, they hand none back. -/
def Host.Runs (Q : Routine → Prop) (host : Host) : Prop :=
  ∀ (label : String) (heap : Heap) (arguments : List Value), heap.Runs Q →
    (∀ v ∈ arguments, v.Runs Q) → Answer.Runs Q (host label heap arguments)

/-! ## All cells of the heap -/

/-- The routines with `Q`, and all cells. -/
def Realm.whole (Q : Routine → Prop) : Realm :=
  ⟨Q, fun _ => True⟩

section

variable {Q : Routine → Prop}

theorem Value.within_whole {v : Value} : v.Within (.whole Q) ↔ v.Runs Q := by
  cases v with
  | closure c => exact and_iff_left trivial
  | _ => exact Iff.rfl

/-- What holds of the contents of all cells holds of all that stands in the heap. -/
theorem Heap.within_whole {heap : Heap} : heap.Within (.whole Q) ↔ heap.Runs Q := by
  constructor
  · intro h
    refine ⟨?_, ?_, ?_, ?_⟩
    · refine (forall_mem_iff_getD (d := #[]) (by simp)).mpr fun id v hv => ?_
      exact Value.within_whole.mp (h.array trivial v hv)
    · refine (forall_mem_iff_getD (d := .empty) (by simp)).mpr fun id entry hentry => ?_
      exact Value.within_whole.mp (h.hash trivial entry hentry)
    · refine (forall_mem_iff_getD (d := #[]) (by simp)).mpr fun id v hv => ?_
      have hcell : v ∈ heap.contents (.captures id) := Array.mem_toList_iff.mpr hv
      exact Value.within_whole.mp (h.contents _ trivial v hcell)
    · refine (forall_mem_iff_getD (d := ⟨"", .empty⟩) (by simp)).mpr fun id entry hentry => ?_
      exact Value.within_whole.mp (h.module trivial entry hentry)
  · intro h
    refine ⟨fun cell _ v hv => Value.within_whole.mpr ?_, fun _ _ => trivial⟩
    cases cell with
    | array id =>
      have hall := (forall_mem_iff_getD (d := #[]) (by simp)).mp h.arrays id
      exact hall v (Array.mem_toList_iff.mp hv)
    | hash id =>
      have hall := (forall_mem_iff_getD (d := .empty) (by simp)).mp h.hashes id
      obtain ⟨entry, hentry, rfl⟩ := List.mem_map.mp hv
      exact hall entry hentry
    | captures id =>
      have hall := (forall_mem_iff_getD (d := #[]) (by simp)).mp h.captures id
      exact hall v (Array.mem_toList_iff.mp hv)
    | module id =>
      have hall := (forall_mem_iff_getD (d := ⟨"", .empty⟩) (by simp)).mp h.modules id
      obtain ⟨entry, hentry, rfl⟩ := List.mem_map.mp hv
      exact hall entry hentry

theorem Machine.within_whole {m : Machine} : m.Within (.whole Q) ↔ m.Runs Q := by
  have hclosure : ∀ closure : Closure,
      (Value.closure closure).Within (.whole Q) ↔ Q closure.routine :=
    fun _ => Value.within_whole
  constructor
  · intro h
    exact
      { constants := fun v hv => Value.within_whole.mp (h.constants v hv)
        modules := fun entry hentry => Value.within_whole.mp (h.modules entry hentry)
        globals := fun v hv => Value.within_whole.mp (h.globals v hv)
        stack := fun v hv => Value.within_whole.mp (h.stack v hv)
        frames := fun frame hframe => (hclosure _).mp (h.frames frame hframe)
        lastPopped := Value.within_whole.mp h.lastPopped
        heap := Heap.within_whole.mp h.heap }
  · intro h
    exact
      { constants := fun v hv => Value.within_whole.mpr (h.constants v hv)
        modules := fun entry hentry => Value.within_whole.mpr (h.modules entry hentry)
        globals := fun v hv => Value.within_whole.mpr (h.globals v hv)
        stack := fun v hv => Value.within_whole.mpr (h.stack v hv)
        frames := fun frame hframe => (hclosure _).mpr (h.frames frame hframe)
        lastPopped := Value.within_whole.mpr h.lastPopped
        heap := Heap.within_whole.mpr h.heap }

theorem Answer.within_whole {answer : Except Fault Value × Heap} :
    Answer.Within (.whole Q) answer ↔ Answer.Runs Q answer := by
  constructor
  · intro h
    exact ⟨fun v hv => Value.within_whole.mp (h.value v hv), Heap.within_whole.mp h.heap⟩
  · intro h
    exact ⟨fun v hv => Value.within_whole.mpr (h.value v hv), Heap.within_whole.mpr h.heap⟩

/-- A heap that gains nothing but what has `Q` runs what has `Q`. -/
theorem Heap.Runs.gains {heap heap' : Heap} (h : heap.Runs Q) {S : Value → Prop}
    (hgains : heap.Gains heap' S) (hS : ∀ v, S v → v.Runs Q) : heap'.Runs Q :=
  within_whole.mp ((within_whole.mpr h).gains hgains fun v hv => Value.within_whole.mpr (hS v hv))

theorem Heap.Runs.empty : Heap.Runs Q {} :=
  ⟨by simp, by simp, by simp, by simp⟩

/-! ## Programs and hosts -/

/-- If the constant is a function, it is one with `Q`. -/
def Constant.Runs (Q : Routine → Prop) : Constant → Prop
  | .function routine => Q routine
  | _ => True

theorem Heap.Runs.newConstants {heap : Heap} (h : heap.Runs Q) {constants : Array Constant}
    (hconstants : ∀ constant ∈ constants, constant.Runs Q) :
    (∀ v ∈ (heap.newConstants constants).1, v.Runs Q) ∧ (heap.newConstants constants).2.Runs Q := by
  unfold Heap.newConstants
  refine Array.foldl_induction
    (fun _ (made : Array Value × Heap) => (∀ v ∈ made.1, v.Runs Q) ∧ made.2.Runs Q)
    ⟨by simp, h⟩ ?_
  rintro i ⟨values, heap⟩ ⟨hvalues, hheap⟩
  have hconstant := hconstants constants[i.val] (Array.getElem_mem i.isLt)
  dsimp only [Fin.getElem_fin]
  cases hc : constants[i.val] with
  | integer n => exact ⟨Array.forall_mem_push.mpr ⟨trivial, hvalues⟩, hheap⟩
  | string text => exact ⟨Array.forall_mem_push.mpr ⟨trivial, hvalues⟩, hheap⟩
  | function routine =>
    rw [hc] at hconstant
    exact ⟨Array.forall_mem_push.mpr ⟨hconstant, hvalues⟩,
      ⟨hheap.arrays, hheap.hashes, hheap.captures, hheap.modules⟩⟩

/-- Every function and every closure that a session hands on is one of a routine with `Q`. -/
structure Session.Runs (Q : Routine → Prop) (session : Session) : Prop where
  globals : ∀ v ∈ session.globals, v.Runs Q
  heap : session.heap.Runs Q

theorem Session.Runs.empty : Session.Runs Q {} :=
  ⟨by simp, .empty⟩

theorem Machine.runs_resize {globals : Array Value} (h : ∀ v ∈ globals, v.Runs Q) (size : Nat) :
    ∀ v ∈ resize globals size, v.Runs Q :=
  Array.forall_mem_append.mpr
    ⟨fun v hv => h v (mem_of_mem_shrink hv), Array.forall_mem_replicate.mpr (Or.inr trivial)⟩

/-- A machine that has been given a program, and that goes on with what another has left. -/
theorem Machine.runs_load_session (limits : Limits) {session : Session} (hsession : session.Runs Q)
    {program : Program} (hmain : Q { code := program.main })
    (hconstants : ∀ constant ∈ program.constants, constant.Runs Q) :
    (load session limits program).Runs Q := by
  obtain ⟨hvalues, hheap⟩ := hsession.heap.newConstants hconstants
  refine
    { constants := hvalues
      modules := by simp [load, start]
      globals := runs_resize hsession.globals limits.globalsSize
      stack := by simp [load, start]
      frames := ?_
      lastPopped := trivial
      heap := hheap.gains (Heap.gains_newClosure _ { code := program.main } #[]) (by simp) }
  intro frame hframe
  rw [List.mem_singleton.mp hframe]
  exact hmain

/-- A machine that has been given a program only, in a session of its own. -/
theorem Machine.runs_load (limits : Limits) {program : Program}
    (hmain : Q { code := program.main })
    (hconstants : ∀ constant ∈ program.constants, constant.Runs Q) :
    (load {} limits program).Runs Q :=
  runs_load_session limits .empty hmain hconstants

theorem Machine.Runs.equip {m : Machine} (h : m.Runs Q) (builtins : Builtins)
    {modules : Dict String Value} (hmodules : ∀ entry ∈ modules.entries, entry.2.Runs Q)
    {heap : Heap} (hheap : heap.Runs Q) : Machine.Runs Q { m with builtins, modules, heap } :=
  { h with modules := hmodules, heap := hheap }

theorem Host.runs_sample : Host.sample.Runs Q := by
  intro label heap arguments hheap harguments
  exact Answer.within_whole.mp (within_sample label (Heap.within_whole.mpr hheap) fun v hv =>
    Value.within_whole.mpr (harguments v hv))

/-! ## Runs -/

namespace Machine

variable {host : Host} {m : Machine}

theorem runs_advance (hhost : host.Runs Q) (hm : m.Runs Q) : (m.advance host).Runs Q := by
  unfold advance
  split
  · exact hm
  · have hwithin := within_whole.mpr hm
    refine within_whole.mp (Exec.kept_step hwithin fun frame callers i place b _ _ => ?_).machine
    refine Answer.within_whole.mpr (hhost b.label m.heap _ hm.heap fun v hv => hm.stack v ?_)
    exact mem_of_mem_extract (Array.mem_toList_iff.mp hv)

/-- **A machine never runs anything but what it was given to run**, whatever it is that all of that
has in common. -/
theorem runs_after (hhost : host.Runs Q) (hm : m.Runs Q) (n : Nat) : (m.after host n).Runs Q :=
  after_induct (P := Runs Q) (fun _ => runs_advance hhost) hm n

end Machine

end

end ClosureMachine
