import ClosureMachine.Proofs.Machine.Footprint

/-!
# Captures are fixed when a closure is made

A closure takes the values of the variables that it captures, not the variables. What it has taken
stays with it through all calls and assignments, in this run and in every run that is resumed, save
that a frame of the closure can put the closure itself into a slot (`SetSelf`).

* **`Makes`** is the step in which a closure is made, `makes_of_step` finds it.
* **`SetsSelf`** is the step in which a closure refers to itself.
* **`FixedFor`** says of a closure that in a number of steps nothing has become of its captures, unless
  by such steps. `FixedFor.advance` is one more step, **`captures_fixed`** any number of them.
-/

namespace ClosureMachine

/-- The functions of the host leave the captures that there are as they are. -/
def Host.KeepsCaptures (host : Host) : Prop :=
  ∀ (label : String) (heap : Heap) (arguments : List Value),
    heap.captures.toList <+: (host label heap arguments).2.captures.toList

theorem Host.keepsCaptures_sample : Host.sample.KeepsCaptures := by
  intro label heap arguments
  unfold Host.sample
  dsimp only
  split
  case h_8 =>
    unfold Sample.append
    split
    · exact List.prefix_rfl
    · exact List.prefix_rfl
  all_goals exact List.prefix_rfl

/-- The instruction has made a closure out of a function among the constants. The closure is new,
and it has captured the top `i.second` temporaries, in the order in which they were pushed. -/
structure Makes (m : Machine) (i : Instruction) (closure : Closure) (m' : Machine) : Prop where
  enough : m.floor + i.second ≤ m.stack.size
  function : ∃ id, m.constants[i.first]? = some (.function id closure.routine)
  fresh : closure.id = m.heap.captures.size
  stack : m'.stack = (m.stack.take (m.stack.size - i.second)).push (.closure closure)
  captures : m'.heap.captures
    = m.heap.captures.push (m.stack.extract (m.stack.size - i.second) m.stack.size)

/-- The next step is a `SetSelf` of this slot, in a frame of this closure, and does not fault. -/
structure SetsSelf (host : Host) (m : Machine) (slot : Nat) (closure : Closure) : Prop where
  next : ∃ frame callers i, m.frames = frame :: callers ∧ frame.closure = closure
    ∧ frame.next = .ok i ∧ i.opcode = .setSelf ∧ i.first = slot
  step : ∃ m', Exec.step host m = .ok () m'

/-- After `n` steps the closure still has its captures, except where it has put itself since. A
closure is told by its identity. -/
structure FixedFor (host : Host) (m : Machine) (n : Nat) (closure : Closure) : Prop where
  size : ((m.after host n).heap.captured closure).size = (m.heap.captured closure).size
  slots : ∀ slot, ((m.after host n).heap.captured closure)[slot]? = (m.heap.captured closure)[slot]?
    ∨ ∃ self : Closure, self.id = closure.id
      ∧ ((m.after host n).heap.captured closure)[slot]? = some (.closure self)
      ∧ ∃ k < n, SetsSelf host (m.after host k) slot self

section

variable {host : Host} {m m' : Machine} {frame : Frame} {callers : List Frame} {closure : Closure}

/-! ## The step that makes a closure -/

namespace Exec

theorem routine_eq_ok {index : Nat} {routine : Routine}
    (h : Exec.routine index m = .ok routine m') :
    (∃ id, m.constants[index]? = some (.function id routine)) ∧ m' = m := by
  obtain ⟨v, m₁, hconstant, hfunction⟩ := bind_eq_ok.mp h
  unfold constant at hconstant
  split at hconstant
  · next w hw =>
    cases hconstant
    split at hfunction
    · cases hfunction
      exact ⟨⟨_, hw⟩, rfl⟩
    · cases hfunction
  · cases hconstant

theorem popMany_eq_ok {count : Nat} {values : Array Value} (h : popMany count m = .ok values m') :
    m.floor + count ≤ m.stack.size
      ∧ values = m.stack.extract (m.stack.size - count) m.stack.size
      ∧ m' = { m with stack := m.stack.take (m.stack.size - count) } := by
  unfold popMany at h
  split at h
  · next henough =>
    dsimp only at h
    rw [Array.shrink_eq_take] at h
    cases h
    exact ⟨henough, rfl, rfl⟩
  · cases h

theorem makes_of_step {i : Instruction} (hframes : m.frames = frame :: callers)
    (hnext : frame.next = .ok i) (hop : i.opcode = .makeClosure)
    (hstep : step host m = .ok () m') : ∃ closure, Makes m i closure m' := by
  have hexecute : execute host i = proceed (do
      let routine ← routine i.first
      let captures ← popMany i.second
      push (.closure (← create fun heap => heap.newClosure routine captures))) := by
    unfold execute
    rw [hop]
  rw [step_of_proceed hframes hnext hexecute] at hstep
  obtain ⟨routine, m₁, hroutine, hstep⟩ := bind_eq_ok.mp hstep
  obtain ⟨captures, m₂, hcaptures, hstep⟩ := bind_eq_ok.mp hstep
  obtain ⟨closure, m₃, hclosure, hstep⟩ := bind_eq_ok.mp hstep
  obtain ⟨hfunction, rfl⟩ := routine_eq_ok hroutine
  obtain ⟨henough, rfl, rfl⟩ := popMany_eq_ok hcaptures
  rw [floor_past hframes i] at henough
  cases hclosure
  obtain ⟨-, rfl⟩ := push_eq_ok hstep
  exact ⟨_, henough, hfunction, rfl, rfl, rfl⟩

end Exec

/-- What a new closure has captured stands in the heap where it is found. -/
theorem Makes.captured {i : Instruction} (h : Makes m i closure m') :
    m'.heap.captured closure = m.stack.extract (m.stack.size - i.second) m.stack.size := by
  unfold Heap.captured
  rw [h.captures, h.fresh, Array.getElem?_push_size]
  rfl

/-! ## The steps after that -/

theorem WritesHeap.captures_size_le {r : EStateM.Result Fault Machine Unit}
    (hhost : host.KeepsCaptures) (h : WritesHeap host m frame r) :
    m.heap.captures.size ≤ (Machine.ofResult r).heap.captures.size := by
  cases h with
  | grows hgrows => exact Heap.size_le_of_isPrefix hgrows.captures
  | @setSelf i heap m' _ _ hgrows hwrite =>
    have hsize : (heap.setCapture frame.closure i.first (.closure frame.closure)).captures.size
        = heap.captures.size := Array.size_modify
    have hle := Heap.size_le_of_isPrefix hgrows.captures
    simp only [Machine.ofResult, hwrite]
    omega
  | setItem _ _ hgrows hwrite =>
    simp only [Machine.ofResult, hwrite, Heap.captures_write]
    exact Heap.size_le_of_isPrefix hgrows.captures
  | @builtin i place b r _ arguments hheap =>
    rw [hheap]
    exact Heap.size_le_of_isPrefix (hhost b.label m.heap arguments)

/-- No closure is ever lost. -/
theorem captures_size_le_advance (hhost : host.KeepsCaptures) (hwf : WellFormed m) :
    m.heap.captures.size ≤ (m.advance host).heap.captures.size := by
  cases hframes : m.frames with
  | nil =>
    have hstays : m.advance host = m := Machine.advance_of_nil hframes
    exact Nat.le_of_eq (congrArg (fun m => m.heap.captures.size) hstays.symm)
  | cons frame callers =>
    have ht := Exec.step_transition host hwf.floor_le hwf.stack_le hframes
    rw [Machine.advance_of_cons hframes]
    exact (writesHeap_of_transition ht).captures_size_le hhost

/-- A step leaves the captures of a closure alone, unless it is one in which the closure puts itself
into one of them. -/
theorem captured_advance (hhost : host.KeepsCaptures) (hwf : WellFormed m)
    (hid : closure.id < m.heap.captures.size) :
    (m.advance host).heap.captured closure = m.heap.captured closure
      ∨ ∃ slot self, self.id = closure.id ∧ SetsSelf host m slot self
        ∧ (m.advance host).heap.captured closure
          = (m.heap.captured closure).setIfInBounds slot (.closure self) := by
  cases hframes : m.frames with
  | nil =>
    rw [Machine.advance_of_nil hframes]
    exact Or.inl rfl
  | cons frame callers =>
    have ht := Exec.step_transition host hwf.floor_le hwf.stack_le hframes
    rw [Machine.advance_of_cons hframes]
    rcases (writesHeap_of_transition ht).captured hid with hsame
      | ⟨i, hnext, hop, hself, hok, hset⟩ | ⟨i, place, b, arguments, -, hheap⟩
    · exact Or.inl hsame
    · have hsets : SetsSelf host m i.first frame.closure :=
        ⟨⟨frame, callers, i, hframes, rfl, hnext, hop, rfl⟩, hok⟩
      exact Or.inr ⟨i.first, frame.closure, hself, hsets, hset⟩
    · have hkept := hhost b.label m.heap arguments
      have hsame := getElem?_of_isPrefix hkept hid
      unfold Heap.captured
      rw [hheap, hsame]
      exact Or.inl rfl

theorem FixedFor.zero (host : Host) (m : Machine) (closure : Closure) :
    FixedFor host m 0 closure :=
  ⟨rfl, fun _ => Or.inl rfl⟩

/-- **One more step.** What the closure has put into a slot counts as put by that step, and all other
slots are as they were before it. -/
theorem FixedFor.advance {n : Nat} (h : FixedFor host m n closure) (hhost : host.KeepsCaptures)
    (hwf : WellFormed (m.after host n)) (hid : closure.id < (m.after host n).heap.captures.size) :
    FixedFor host m (n + 1) closure := by
  have hsize := h.size
  have hslots : ∀ slot, ((m.after host n).heap.captured closure)[slot]?
      = (m.heap.captured closure)[slot]? ∨ ∃ self : Closure, self.id = closure.id
        ∧ ((m.after host n).heap.captured closure)[slot]? = some (.closure self)
        ∧ ∃ k < n + 1, SetsSelf host (m.after host k) slot self := by
    intro slot
    rcases h.slots slot with hslot | ⟨self, hself, hslot, k, hk, hsets⟩
    · exact Or.inl hslot
    · exact Or.inr ⟨self, hself, hslot, k, by omega, hsets⟩
  have hafter : m.after host (n + 1) = (m.after host n).advance host := rfl
  rcases captured_advance hhost hwf hid with hsame | ⟨written, self, hself, hsets, hset⟩
  · rw [← hafter] at hsame
    constructor
    · rw [hsame, hsize]
    · rwa [hsame]
  · rw [← hafter] at hset
    constructor
    · rw [hset, Array.size_setIfInBounds, hsize]
    · intro slot
      rw [hset, Array.getElem?_setIfInBounds]
      by_cases hslot : written = slot
      · obtain rfl := hslot
        rw [if_pos rfl]
        by_cases hlt : written < ((m.after host n).heap.captured closure).size
        · rw [if_pos hlt]
          exact Or.inr ⟨self, hself, rfl, n, by omega, hsets⟩
        · rw [if_neg hlt, Array.getElem?_eq_none (by omega)]
          exact Or.inl rfl
      · rw [if_neg hslot]
        exact hslots slot

/-- However many steps are taken, no closure loses a capture and none is assigned to. -/
theorem fixedFor_after (hhost : host.KeepsCaptures) (hwf : WellFormed m)
    (hid : closure.id < m.heap.captures.size) (n : Nat) :
    FixedFor host m n closure ∧ closure.id < (m.after host n).heap.captures.size := by
  induction n with
  | zero => exact ⟨.zero host m closure, hid⟩
  | succ n ih =>
    have hwf' := hwf.after host n
    have hle := captures_size_le_advance hhost hwf'
    exact ⟨ih.1.advance hhost hwf' ih.2, Nat.lt_of_lt_of_le ih.2 hle⟩

/-- **Captures are fixed when a closure is made.** `MakeClosure` makes a closure of the temporaries
that it takes; and from any state on, whatever is run, called, assigned or resumed after a fault, a
closure keeps each of its captures but for those in whose place it puts itself. -/
theorem captures_fixed (hhost : host.KeepsCaptures) (hreach : m.Reachable host) :
    (∀ frame callers i m', m.frames = frame :: callers → frame.next = .ok i →
        i.opcode = .makeClosure → Exec.step host m = .ok () m' →
        ∃ closure, Makes m i closure m' ∧ ∀ n, FixedFor host m' n closure)
      ∧ ∀ closure : Closure, closure.id < m.heap.captures.size →
        ∀ n, FixedFor host m n closure := by
  have hwf : WellFormed m := hreach.induct (fun _ => .of_fresh) fun _ hm => hm.advance host
  constructor
  · intro frame callers i m' hframes hnext hop hstep
    obtain ⟨closure, hmakes⟩ := Exec.makes_of_step hframes hnext hop hstep
    have hadvance : m' = m.advance host := by
      rw [Machine.advance_of_cons hframes, hstep]
      rfl
    have hwf' : WellFormed m' := hadvance ▸ hwf.advance host
    have hid : closure.id < m'.heap.captures.size := by
      rw [hmakes.fresh, hmakes.captures, Array.size_push]
      omega
    exact ⟨closure, hmakes, fun n => (fixedFor_after hhost hwf' hid n).1⟩
  · intro closure hid n
    exact (fixedFor_after hhost hwf hid n).1

/-- `LoadConstant 1; LoadNull`, and `MakeClosure 0 2` is next, which makes a closure that will put
itself into the place of the null. -/
def selfReference : Machine :=
  -- `LoadConstant 1; LoadNull; MakeClosure 0 2; Call 0` and, in the function, `SetSelf 1`
  let main : Code := #[0, 0, 1, 13, 18, 0, 0, 2, 42, 0]
  (Machine.load {} ⟨4, 2, 0⟩ ⟨main, #[.function { code := #[10, 1] }, .integer 7]⟩).after Host.sample 2

/-- A closure has captured an integer and a null. Two steps later it stands in the place of the null
itself. -/
theorem captures_fixed_self :
    ∃ (m' : Machine) (i : Instruction) (closure : Closure),
      Makes selfReference i closure m' ∧ m'.heap.captured closure = #[.integer 7, .null]
        ∧ (m'.after Host.sample 2).heap.captures = #[#[], #[.integer 7, .closure closure]]
        ∧ FixedFor Host.sample m' 2 closure := by
  have hreach : selfReference.Reachable Host.sample :=
    (Machine.fresh_load {} _ _).reachable.after 2
  have hstep : Exec.step Host.sample selfReference = .ok () (selfReference.advance Host.sample) :=
    rfl
  obtain ⟨closure, hmakes, hfixed⟩ := (captures_fixed Host.keepsCaptures_sample hreach).1 _ _
    ⟨.makeClosure, [0, 2]⟩ _ rfl rfl rfl hstep
  obtain ⟨id, routine⟩ := closure
  have hid : id = 1 := by
    have hsize : selfReference.heap.captures.size = 1 := by decide +kernel
    exact hmakes.fresh.trans hsize
  have hroutine : routine = { code := #[10, 1] } := by
    have hconstant : selfReference.constants[0]? = some (.function 0 { code := #[10, 1] }) := by
      decide +kernel
    obtain ⟨id', hfunction⟩ := hmakes.function
    cases hconstant.symm.trans hfunction
    rfl
  refine ⟨_, _, _, hmakes, ?_, ?_, hfixed 2⟩
  · rw [hmakes.captured]
    decide +kernel
  · rw [hid, hroutine]
    decide +kernel

end

end ClosureMachine
