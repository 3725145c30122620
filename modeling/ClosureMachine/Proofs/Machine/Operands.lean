import ClosureMachine.Machine.Step

/-!
# Actions that look and take

An instruction first looks at the machine and takes its operands, and only then writes or pushes.
This module is about the first part.

* **`bind_eq_ok`**, **`bind_eq_error`** take a sequence of actions apart.
* **`Took count m m'`** says that `m'` is `m` without its top `count` temporaries. The heap may have
  new places; everything else is as it was.
* **`Gathers count a`** says that `a` takes `count` temporaries, or faults after as many or fewer.
  There is one lemma for each action, from which what holds of a whole first part is put together.
-/

namespace ClosureMachine

theorem map_eq_ok_iff {ε α β : Type} {f : α → β} {x : Except ε α} {y : β} :
    f <$> x = .ok y ↔ ∃ a, x = .ok a ∧ f a = y := by
  cases x <;> simp [Functor.map, Except.map]

theorem map_eq_error_iff {ε α β : Type} {f : α → β} {x : Except ε α} {e : ε} :
    f <$> x = .error e ↔ x = .error e := by
  cases x <;> simp [Functor.map, Except.map]

/-! ## Heaps that only grow -/

/-- Every place of `old` stands in `new`, with the same content. -/
structure Heap.Extends (old new : Heap) : Prop where
  arrays : old.arrays.toList <+: new.arrays.toList
  hashes : old.hashes.toList <+: new.hashes.toList
  captures : old.captures.toList <+: new.captures.toList
  modules : old.modules.toList <+: new.modules.toList

namespace Heap

theorem Extends.refl (heap : Heap) : heap.Extends heap :=
  ⟨List.prefix_rfl, List.prefix_rfl, List.prefix_rfl, List.prefix_rfl⟩

theorem Extends.trans {a b c : Heap} (hab : a.Extends b) (hbc : b.Extends c) : a.Extends c :=
  ⟨hab.arrays.trans hbc.arrays, hab.hashes.trans hbc.hashes, hab.captures.trans hbc.captures,
    hab.modules.trans hbc.modules⟩

theorem extends_newArray (heap : Heap) (elements : Array Value) :
    heap.Extends (heap.newArray elements).2 :=
  ⟨by simp [newArray], List.prefix_rfl, List.prefix_rfl, List.prefix_rfl⟩

theorem extends_newHash (heap : Heap) (entries : Dict Key Value) :
    heap.Extends (heap.newHash entries).2 :=
  ⟨List.prefix_rfl, by simp [newHash], List.prefix_rfl, List.prefix_rfl⟩

theorem extends_newClosure (heap : Heap) (routine : Routine) (captures : Array Value) :
    heap.Extends (heap.newClosure routine captures).2 :=
  ⟨List.prefix_rfl, List.prefix_rfl, by simp [newClosure], List.prefix_rfl⟩

/-- An operation on two values at most makes a new array. -/
theorem extends_of_binary {heap heap' : Heap} {op : Opcode} {left right v : Value}
    (h : heap.binary op left right = .ok (v, heap')) : heap.Extends heap' := by
  unfold binary at h
  split at h
  · obtain ⟨w, _, hw⟩ := map_eq_ok_iff.mp h
    cases hw
    exact .refl heap
  · obtain ⟨w, _, hw⟩ := map_eq_ok_iff.mp h
    cases hw
    exact .refl heap
  · split at h
    · cases h
      exact heap.extends_newArray _
    · cases h
  · cases h

end Heap

/-! ## Machines without some of their temporaries -/

theorem getElem?_take_of_lt (stack : Array Value) {place height : Nat} (h : place < height) :
    (stack.take height)[place]? = stack[place]? := by
  rw [Array.getElem?_extract]
  split
  · rw [Nat.zero_add]
  · exact (Array.getElem?_eq_none (by omega)).symm

theorem take_eq_take {stack stack' : Array Value} {height : Nat}
    (h : ∀ place < height, stack'[place]? = stack[place]?) :
    stack'.take height = stack.take height := by
  refine Array.ext_getElem? fun place => ?_
  by_cases hplace : place < height
  · rw [getElem?_take_of_lt stack' hplace, getElem?_take_of_lt stack hplace, h place hplace]
  · rw [Array.getElem?_eq_none, Array.getElem?_eq_none]
    all_goals
      rw [Array.size_extract]
      omega

/-- To take the top off a stack changes nothing below it. -/
theorem take_pop {stack : Array Value} {height : Nat} (h : height < stack.size) :
    stack.pop.take height = stack.take height := by
  apply take_eq_take
  intro place hplace
  rw [Array.getElem?_pop, if_pos (by omega)]

/-- `m'` is `m` without its top `count` values, which are temporaries of the active frame. The heap
may have new places; everything else is as it was. -/
structure Took (count : Nat) (m m' : Machine) : Prop where
  enough : m.floor + count ≤ m.stack.size
  stack : m'.stack = m.stack.take (m.stack.size - count)
  heap : m.heap.Extends m'.heap
  rest : m' = { m with stack := m'.stack, heap := m'.heap }

namespace Took

variable {j k : Nat} {m m' m'' : Machine}

theorem refl (h : m.floor ≤ m.stack.size) : Took 0 m m where
  enough := h
  stack := by simp
  heap := .refl _
  rest := rfl

theorem frames (h : Took k m m') : m'.frames = m.frames := by
  rw [h.rest]

theorem limits (h : Took k m m') : m'.limits = m.limits := by
  rw [h.rest]

theorem globals (h : Took k m m') : m'.globals = m.globals := by
  rw [h.rest]

theorem lastPopped (h : Took k m m') : m'.lastPopped = m.lastPopped := by
  rw [h.rest]

theorem floor (h : Took k m m') : m'.floor = m.floor := by
  unfold Machine.floor
  rw [h.frames]

theorem size (h : Took k m m') : m'.stack.size = m.stack.size - k := by
  rw [h.stack]
  simp

theorem floor_le (h : Took k m m') : m'.floor ≤ m'.stack.size := by
  have := h.enough
  rw [h.floor, h.size]
  omega

theorem size_le (h : Took k m m') (hm : m.stack.size ≤ m.limits.stackSize) :
    m'.stack.size ≤ m'.limits.stackSize := by
  rw [h.size, h.limits]
  omega

theorem trans (h : Took j m m') (h' : Took k m' m'') : Took (j + k) m m'' := by
  -- the floor is where it was, so what is taken second lies below what was taken first
  have henough := h'.enough
  rw [h.floor, h.size] at henough
  have := h.enough
  refine ⟨by omega, ?_, h.heap.trans h'.heap, ?_⟩
  · rw [h'.stack, h.size, h.stack]
    simp only [Array.extract_extract]
    congr 1
    omega
  · rw [h'.rest, h.rest]

/-- What stands below the taken values is as it was. -/
theorem getElem?_of_lt (h : Took k m m') {place : Nat} (hplace : place < m.stack.size - k) :
    m'.stack[place]? = m.stack[place]? := by
  rw [h.stack]
  exact getElem?_take_of_lt m.stack hplace

end Took

/-! ## Sequences of actions -/

namespace Exec

variable {α β : Type}

theorem bind_apply (a : Exec α) (f : α → Exec β) (m : Machine) :
    (a >>= f) m = match a m with
      | .ok x m' => f x m'
      | .error e m' => .error e m' := by
  show EStateM.bind a f m = _
  unfold EStateM.bind
  cases a m <;> rfl

theorem bind_eq_ok {a : Exec α} {f : α → Exec β} {m m'' : Machine} {y : β} :
    (a >>= f) m = .ok y m'' ↔ ∃ x m', a m = .ok x m' ∧ f x m' = .ok y m'' := by
  rw [bind_apply]
  cases a m with
  | ok x m' =>
    refine ⟨fun h => ⟨x, m', rfl, h⟩, ?_⟩
    rintro ⟨x', m₁, h, hf⟩
    cases h
    exact hf
  | error e m' => simp

theorem bind_eq_error {a : Exec α} {f : α → Exec β} {m m'' : Machine} {e : Fault} :
    (a >>= f) m = .error e m'' ↔
      a m = .error e m'' ∨ ∃ x m', a m = .ok x m' ∧ f x m' = .error e m'' := by
  rw [bind_apply]
  cases a m with
  | ok x m' =>
    refine ⟨fun h => Or.inr ⟨x, m', rfl, h⟩, ?_⟩
    rintro (h | ⟨x', m₁, h, hf⟩)
    · cases h
    · cases h
      exact hf
  | error e' m' => simp

/-! ## Actions that only look -/

/-- The action leaves the machine as it found it, whether it faults or not. -/
def Reads (a : Exec α) : Prop :=
  ∀ m, (∃ x, a m = .ok x m) ∨ ∃ e, a m = .error e m

theorem Reads.pure (x : α) : Reads (pure x : Exec α) :=
  fun _ => Or.inl ⟨x, rfl⟩

theorem Reads.throw (e : Fault) : Reads (throw e : Exec α) :=
  fun _ => Or.inr ⟨e, rfl⟩

theorem Reads.bind {a : Exec α} {f : α → Exec β} (ha : Reads a) (hf : ∀ x, Reads (f x)) :
    Reads (a >>= f) := by
  intro m
  rw [bind_apply]
  rcases ha m with ⟨x, h⟩ | ⟨e, h⟩
  · rw [h]
    exact hf x m
  · rw [h]
    exact Or.inr ⟨e, rfl⟩

theorem reads_constant (index : Nat) : Reads (constant index) := by
  intro m
  unfold constant
  split
  · exact Or.inl ⟨_, rfl⟩
  · exact Or.inr ⟨_, rfl⟩

theorem reads_routine (index : Nat) : Reads (routine index) := by
  refine (reads_constant index).bind fun v => ?_
  split
  · exact .pure _
  · exact .throw _

theorem reads_builtin (index : Nat) : Reads (builtin index) := by
  intro m
  unfold builtin
  split
  · exact Or.inl ⟨_, rfl⟩
  · exact Or.inr ⟨_, rfl⟩

theorem reads_moduleNamed (name : Value) : Reads (moduleNamed name) := by
  intro m
  unfold moduleNamed
  split
  · split
    · exact Or.inl ⟨_, rfl⟩
    · exact Or.inr ⟨_, rfl⟩
  · exact Or.inr ⟨_, rfl⟩

theorem reads_checkGlobal (index : Nat) : Reads (checkGlobal index) := by
  intro m
  unfold checkGlobal
  split
  · exact Or.inl ⟨_, rfl⟩
  · exact Or.inr ⟨_, rfl⟩

theorem reads_global (index : Nat) : Reads (global index) := by
  intro m
  unfold global
  split
  · exact Or.inl ⟨_, rfl⟩
  · exact Or.inr ⟨_, rfl⟩

theorem reads_frame : Reads frame := by
  intro m
  unfold frame
  split
  · exact Or.inr ⟨_, rfl⟩
  · exact Or.inl ⟨_, rfl⟩

theorem reads_localSlot (index : Nat) : Reads (localSlot index) := by
  refine reads_frame.bind fun frame => ?_
  split
  · exact .pure _
  · exact .throw _

theorem reads_slot (place : Nat) : Reads (slot place) :=
  fun _ => Or.inl ⟨_, rfl⟩

theorem reads_query (f : Heap → Except Fault α) : Reads (query f) := by
  intro m
  unfold query
  split
  · exact Or.inl ⟨_, rfl⟩
  · exact Or.inr ⟨_, rfl⟩

/-! ## Actions that take temporaries -/

/-- The action takes `count` temporaries, or faults when it has taken as many or fewer. -/
structure Gathers (count : Nat) (a : Exec α) : Prop where
  ok : ∀ {m x m'}, m.floor ≤ m.stack.size → a m = .ok x m' → Took count m m'
  error : ∀ {m e m'}, m.floor ≤ m.stack.size → a m = .error e m' → ∃ k ≤ count, Took k m m'

theorem Reads.gathers {a : Exec α} (ha : Reads a) : Gathers 0 a where
  ok hm h := by
    rcases ha _ with ⟨x, h'⟩ | ⟨e, h'⟩
    · rw [h'] at h
      cases h
      exact .refl hm
    · rw [h'] at h
      cases h
  error hm h := by
    rcases ha _ with ⟨x, h'⟩ | ⟨e, h'⟩
    · rw [h'] at h
      cases h
    · rw [h'] at h
      cases h
      exact ⟨0, Nat.le_refl 0, .refl hm⟩

theorem gathers_pop : Gathers 1 pop where
  ok {m x m'} _ h := by
    unfold pop at h
    split at h
    · cases h
      exact ⟨by omega, (Array.extract_eq_pop rfl).symm, .refl _, rfl⟩
    · cases h
  error {m e m'} hm h := by
    unfold pop at h
    split at h
    · cases h
    · cases h
      exact ⟨0, Nat.zero_le 1, .refl hm⟩

theorem gathers_popMany (count : Nat) : Gathers count (popMany count) where
  ok {m x m'} _ h := by
    unfold popMany at h
    split at h
    · cases h
      exact ⟨by assumption, Array.shrink_eq_take, .refl _, rfl⟩
    · cases h
  error {m e m'} hm h := by
    unfold popMany at h
    split at h
    · cases h
    · cases h
      exact ⟨0, Nat.zero_le count, .refl hm⟩

/-- Something new in the heap leaves all temporaries where they are. -/
theorem gathers_create {f : Heap → α × Heap} (hf : ∀ heap : Heap, heap.Extends (f heap).2) :
    Gathers 0 (create f) where
  ok {m x m'} hm h := by
    cases h
    exact ⟨hm, by simp, hf m.heap, rfl⟩
  error _ h := by
    cases h

theorem gathers_attempt {f : Heap → Except Fault (α × Heap)}
    (hf : ∀ {heap heap' : Heap} {x}, f heap = .ok (x, heap') → heap.Extends heap') :
    Gathers 0 (attempt f) where
  ok {m x m'} hm h := by
    unfold attempt onHeap at h
    cases hresult : f m.heap with
    | ok result =>
      simp only [hresult] at h
      cases h
      exact ⟨hm, by simp, hf hresult, rfl⟩
    | error e =>
      simp only [hresult] at h
      cases h
  error {m e m'} hm h := by
    unfold attempt onHeap at h
    cases hresult : f m.heap with
    | ok result =>
      simp only [hresult] at h
      cases h
    | error e =>
      simp only [hresult] at h
      cases h
      exact ⟨0, Nat.le_refl 0, .refl hm⟩

end Exec

end ClosureMachine
