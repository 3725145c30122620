import ClosureMachine.Host.Sample
import ClosureMachine.Proofs.Machine.Invariant

/-!
# What a step may write

The heap is shared: an array may be known to globals, to captures and to other arrays all at once. A
step that writes more than its instruction says would be noticed far away, so this module says of
each part of a machine which steps change it, and how.

* **`WritesHeap`** is what a step does to the heap, whether it faults or not; `writesHeap_of_transition`
  reads it off the transitions.
* **`Assigns`** says that an item of a container is about to be assigned, with the operands where they
  stand on the stack. `assigns_of_step` ties the one write of such a step to these.
* **`Footprint`** is all that a step without a fault changes, **`step_footprint`** that there is no
  more.
-/

namespace ClosureMachine

/-! ## Contents of heaps -/

section

variable {α : Type}

theorem getElem?_of_isPrefix {old new : Array α} (h : old.toList <+: new.toList) {place : Nat}
    (hplace : place < old.size) : new[place]? = old[place]? := by
  obtain ⟨rest, hrest⟩ := h
  have hlist : new.toList[place]? = old.toList[place]? := by
    rw [← hrest]
    exact List.getElem?_append_left (by simpa using hplace)
  simpa using hlist

theorem getD_modify_self {values : Array α} {place : Nat} (h : place < values.size) (f : α → α)
    (default : α) : (values.modify place f)[place]?.getD default = f (values[place]?.getD default) := by
  rw [Array.getElem?_modify, if_pos rfl, Array.getElem?_eq_getElem h]
  simp

theorem getD_modify_ne (values : Array α) {place place' : Nat} (h : place ≠ place') (f : α → α)
    (default : α) : (values.modify place f)[place']?.getD default = values[place']?.getD default := by
  rw [Array.getElem?_modify, if_neg h]

end

namespace Heap

section

variable {old new : Heap}

theorem Extends.array (h : old.Extends new) {id : Nat} (hid : id < old.arrays.size) :
    new.array id = old.array id := by
  unfold Heap.array
  rw [getElem?_of_isPrefix h.arrays hid]

theorem Extends.hash (h : old.Extends new) {id : Nat} (hid : id < old.hashes.size) :
    new.hash id = old.hash id := by
  unfold Heap.hash
  rw [getElem?_of_isPrefix h.hashes hid]

theorem Extends.captured (h : old.Extends new) {closure : Closure}
    (hid : closure.id < old.captures.size) : new.captured closure = old.captured closure := by
  unfold Heap.captured
  rw [getElem?_of_isPrefix h.captures hid]

theorem Extends.module (h : old.Extends new) {id : Nat} (hid : id < old.modules.size) :
    new.module id = old.module id := by
  unfold Heap.module
  rw [getElem?_of_isPrefix h.modules hid]

theorem size_le_of_isPrefix {α : Type} {old new : Array α} (h : old.toList <+: new.toList) :
    old.size ≤ new.size := by
  simpa using h.length_le

end

section

variable {heap : Heap} {v : Value}

theorem captured_setCapture_self {running closure : Closure} (hid : running.id = closure.id)
    (hlt : closure.id < heap.captures.size) (slot : Nat) :
    (heap.setCapture running slot v).captured closure
      = (heap.captured closure).setIfInBounds slot v := by
  unfold captured setCapture
  rw [hid]
  exact getD_modify_self hlt _ _

theorem captured_setCapture_ne {running closure : Closure} (hid : running.id ≠ closure.id)
    (slot : Nat) : (heap.setCapture running slot v).captured closure = heap.captured closure :=
  getD_modify_ne heap.captures hid _ _

theorem captures_write (place : Place) : (heap.write place v).captures = heap.captures := by
  cases place with
  | element id slot => rfl
  | entry id key => rfl

theorem modules_write (place : Place) : (heap.write place v).modules = heap.modules := by
  cases place with
  | element id slot => rfl
  | entry id key => rfl

theorem array_write {id : Nat} (hid : id < heap.arrays.size) (place : Place) :
    (heap.write place v).array id = heap.array id
      ∨ ∃ slot, place = .element id slot
        ∧ (heap.write place v).array id = (heap.array id).setIfInBounds slot v := by
  cases place with
  | element id' slot =>
    by_cases h : id' = id
    · obtain rfl := h
      exact Or.inr ⟨slot, rfl, getD_modify_self hid _ _⟩
    · exact Or.inl (getD_modify_ne heap.arrays h _ _)
  | entry id' key => exact Or.inl rfl

theorem hash_write {id : Nat} (hid : id < heap.hashes.size) (place : Place) :
    (heap.write place v).hash id = heap.hash id
      ∨ ∃ key, place = .entry id key
        ∧ (heap.write place v).hash id = (heap.hash id).insert key v := by
  cases place with
  | element id' slot => exact Or.inl rfl
  | entry id' key =>
    by_cases h : id' = id
    · obtain rfl := h
      exact Or.inr ⟨key, rfl, getD_modify_self hid _ _⟩
    · exact Or.inl (getD_modify_ne heap.hashes h _ _)

/-- A place in an array is found by the array and an integer. -/
theorem locate_eq_element {container index : Value} {id slot : Nat}
    (h : heap.locate container index = .ok (.element id slot)) :
    container = .array id ∧ ∃ n, index = .integer n ∧ place? n = some slot := by
  unfold locate at h
  split at h
  · next n =>
    dsimp only at h
    split at h
    · next hslot =>
      cases h
      have hplace := (Option.filter_eq_some_iff.mp hslot).1
      exact ⟨rfl, n, rfl, hplace⟩
    · cases h
  · obtain ⟨key, -, hplace⟩ := map_eq_ok_iff.mp h
    cases hplace
  · cases h

/-- A place in a hash is found by the hash and what can be a key. -/
theorem locate_eq_entry {container index : Value} {id : Nat} {key : Key}
    (h : heap.locate container index = .ok (.entry id key)) :
    container = .hash id ∧ index.key? = some key := by
  unfold locate at h
  split at h
  · dsimp only at h
    split at h
    · cases h
    · cases h
  · obtain ⟨key', hkey, hplace⟩ := map_eq_ok_iff.mp h
    cases hplace
    unfold Value.hashKey at hkey
    split at hkey
    · next hkey? =>
      cases hkey
      exact ⟨rfl, hkey?⟩
    · cases hkey
  · cases h

end

end Heap

/-! ## What a step does to the heap -/

/-- A function of the host is about to be called. -/
def CallsBuiltin (m : Machine) (frame : Frame) : Prop :=
  ∃ i place b, Calls m frame i place (.builtin b)

/-- The functions of the host leave the modules that there are as they are. -/
def Host.KeepsModules (host : Host) : Prop :=
  ∀ (label : String) (heap : Heap) (arguments : List Value),
    heap.modules.toList <+: (host label heap arguments).2.modules.toList

/-- What a step of the active frame may make of the heap, given what the step comes to. -/
inductive WritesHeap (host : Host) (m : Machine) (frame : Frame) :
    EStateM.Result Fault Machine Unit → Prop
  | grows {r : EStateM.Result Fault Machine Unit}
      (hgrows : m.heap.Extends (Machine.ofResult r).heap) : WritesHeap host m frame r
  | setSelf {i : Instruction} {heap : Heap} {m' : Machine} (hnext : frame.next = .ok i)
      (hop : i.opcode = .setSelf) (hgrows : m.heap.Extends heap)
      (hwrite : m'.heap = heap.setCapture frame.closure i.first (.closure frame.closure)) :
      WritesHeap host m frame (.ok () m')
  | setItem {i : Instruction} {heap : Heap} {m' : Machine} (hnext : frame.next = .ok i)
      (hop : i.opcode = .setItem) (hgrows : m.heap.Extends heap) {place : Heap.Place} {v : Value}
      (hwrite : m'.heap = heap.write place v) : WritesHeap host m frame (.ok () m')
  | builtin {i : Instruction} {place : Nat} {b : Builtin} {r : EStateM.Result Fault Machine Unit}
      (hcalls : Calls m frame i place (.builtin b)) (arguments : List Value)
      (hheap : (Machine.ofResult r).heap = (host b.label m.heap arguments).2) :
      WritesHeap host m frame r

section

variable {host : Host} {m m' : Machine} {frame : Frame} {callers : List Frame}
  {r : EStateM.Result Fault Machine Unit}

theorem writesHeap_of_transition (ht : Transition host m frame callers r) :
    WritesHeap host m frame r := by
  cases ht with
  | @straight i m₁ m' hnext _ took hcommit =>
    have hgrows : m.heap.Extends m₁.heap := took.heap
    have hframes : m₁.frames = frame.past i :: callers := took.frames
    cases hcommit with
    | @setSelf active rest hop hactive =>
      obtain ⟨rfl, -⟩ := List.cons.inj (hframes.symm.trans hactive)
      exact .setSelf hnext hop hgrows rfl
    | setItem place v hop => exact .setItem hnext hop hgrows rfl
    | _ => exact .grows hgrows
  | builtin hcalls hhost => exact .builtin hcalls _ (congrArg Prod.snd hhost).symm
  | hostFault hcalls hhost => exact .builtin hcalls _ (congrArg Prod.snd hhost).symm
  | refused _ took => exact .grows took.heap
  | _ => exact .grows (.refl m.heap)

/-- The captures of a closure change in two ways only: by that closure itself, in the slot that it
names, or by a function of the host. -/
theorem WritesHeap.captured (h : WritesHeap host m frame r) {closure : Closure}
    (hid : closure.id < m.heap.captures.size) :
    (Machine.ofResult r).heap.captured closure = m.heap.captured closure
      ∨ (∃ i, frame.next = .ok i ∧ i.opcode = .setSelf ∧ frame.closure.id = closure.id
        ∧ (∃ m', r = .ok () m')
        ∧ (Machine.ofResult r).heap.captured closure
          = (m.heap.captured closure).setIfInBounds i.first (.closure frame.closure))
      ∨ ∃ i place b arguments, Calls m frame i place (.builtin b)
        ∧ (Machine.ofResult r).heap = (host b.label m.heap arguments).2 := by
  cases h with
  | grows hgrows => exact Or.inl (hgrows.captured hid)
  | @setSelf i heap m' hnext hop hgrows hwrite =>
    have hold := hgrows.captured hid
    have hlt : closure.id < heap.captures.size :=
      Nat.lt_of_lt_of_le hid (Heap.size_le_of_isPrefix hgrows.captures)
    simp only [Machine.ofResult, hwrite]
    by_cases hself : frame.closure.id = closure.id
    · have hset := Heap.captured_setCapture_self (v := .closure frame.closure) hself hlt i.first
      rw [hold] at hset
      exact Or.inr (Or.inl ⟨i, hnext, hop, hself, ⟨m', rfl⟩, hset⟩)
    · have hset : (heap.setCapture frame.closure i.first (.closure frame.closure)).captured closure
          = heap.captured closure := Heap.captured_setCapture_ne hself i.first
      exact Or.inl (hset.trans hold)
  | @setItem i heap m' _ _ hgrows place v hwrite =>
    have hsame : (heap.write place v).captured closure = heap.captured closure := by
      unfold Heap.captured
      rw [Heap.captures_write]
    simp only [Machine.ofResult, hwrite]
    exact Or.inl (hsame.trans (hgrows.captured hid))
  | builtin hcalls arguments hheap => exact Or.inr (Or.inr ⟨_, _, _, arguments, hcalls, hheap⟩)

/-- Arrays and hashes change when an item is assigned or a function of the host is called. -/
theorem WritesHeap.containers (h : WritesHeap host m frame r) :
    ((∀ id < m.heap.arrays.size, (Machine.ofResult r).heap.array id = m.heap.array id)
        ∧ ∀ id < m.heap.hashes.size, (Machine.ofResult r).heap.hash id = m.heap.hash id)
      ∨ (∃ i, frame.next = .ok i ∧ i.opcode = .setItem) ∨ CallsBuiltin m frame := by
  cases h with
  | grows hgrows => exact Or.inl ⟨fun _ hid => hgrows.array hid, fun _ hid => hgrows.hash hid⟩
  | @setSelf i heap m' _ _ hgrows hwrite =>
    simp only [Machine.ofResult, hwrite]
    exact Or.inl ⟨fun _ hid => hgrows.array hid, fun _ hid => hgrows.hash hid⟩
  | setItem hnext hop => exact Or.inr (Or.inl ⟨_, hnext, hop⟩)
  | builtin hcalls => exact Or.inr (Or.inr ⟨_, _, _, hcalls⟩)

theorem WritesHeap.module (h : WritesHeap host m frame r)
    (hkeeps : host.KeepsModules ∨ ¬CallsBuiltin m frame) {id : Nat}
    (hid : id < m.heap.modules.size) :
    (Machine.ofResult r).heap.module id = m.heap.module id := by
  cases h with
  | grows hgrows => exact hgrows.module hid
  | @setSelf i heap m' _ _ hgrows hwrite =>
    simp only [Machine.ofResult, hwrite]
    exact hgrows.module hid
  | @setItem i heap m' _ _ hgrows place v hwrite =>
    have hsame : (heap.write place v).module id = heap.module id := by
      unfold Heap.module
      rw [Heap.modules_write]
    simp only [Machine.ofResult, hwrite]
    exact hsame.trans (hgrows.module hid)
  | @builtin i place b r hcalls arguments hheap =>
    rcases hkeeps with hkeeps | hnot
    · have hprefix := hkeeps b.label m.heap arguments
      unfold Heap.module
      rw [hheap, getElem?_of_isPrefix hprefix hid]
    · exact absurd ⟨i, place, b, hcalls⟩ hnot

/-! ## Assignments to items -/

/-- The active frame is about to assign `v` to `container[index]`. The operands are the top of the
stack, the value above the index above the container. -/
structure Assigns (m : Machine) (frame : Frame) (container index v : Value) : Prop where
  next : ∃ i, frame.next = .ok i ∧ i.opcode = .setItem
  operands : ∃ rest : Array Value, m.stack = ((rest.push container).push index).push v

namespace Exec

theorem pop_eq_ok {v : Value} (h : pop m = .ok v m') :
    m.stack = m'.stack.push v ∧ m' = { m with stack := m'.stack } := by
  unfold pop at h
  split at h
  · next hlt =>
    have hback : m.stack = m.stack.pop.push (m.stack.back (by omega)) := by grind
    cases h
    exact ⟨hback, rfl⟩
  · cases h

theorem query_eq_ok {α : Type} {f : Heap → Except Fault α} {x : α} (h : query f m = .ok x m') :
    f m.heap = .ok x ∧ m' = m := by
  unfold query at h
  split at h
  · next hx =>
    cases h
    exact ⟨hx, rfl⟩
  · cases h

/-- An assignment writes the place that container and index denote, and no other. -/
theorem assigns_of_step {i : Instruction} (hframes : m.frames = frame :: callers)
    (hnext : frame.next = .ok i) (hop : i.opcode = .setItem)
    (hstep : step host m = .ok () m') :
    ∃ container index v place, Assigns m frame container index v
      ∧ m.heap.locate container index = .ok place ∧ m'.heap = m.heap.write place v := by
  have hexecute : execute host i = proceed (do
      let value ← pop
      let index ← pop
      let container ← pop
      let place ← query fun heap => heap.locate container index
      change fun heap => heap.write place value) := by
    unfold execute
    rw [hop]
  rw [step_of_proceed hframes hnext hexecute] at hstep
  -- the operands come off the stack one by one, and then the place is looked up
  obtain ⟨v, m₁, hv, hstep⟩ := bind_eq_ok.mp hstep
  obtain ⟨index, m₂, hindex, hstep⟩ := bind_eq_ok.mp hstep
  obtain ⟨container, m₃, hcontainer, hstep⟩ := bind_eq_ok.mp hstep
  obtain ⟨place, m₄, hplace, hstep⟩ := bind_eq_ok.mp hstep
  obtain ⟨hstack, hm₁⟩ := pop_eq_ok hv
  obtain ⟨hstack₁, hm₂⟩ := pop_eq_ok hindex
  obtain ⟨hstack₂, hm₃⟩ := pop_eq_ok hcontainer
  obtain ⟨hlocate, hm₄⟩ := query_eq_ok hplace
  have hheap : m₃.heap = m.heap := by rw [hm₃, hm₂, hm₁]
  have hoperands : m.stack = ((m₃.stack.push container).push index).push v := by
    rw [← hstack₂, ← hstack₁]
    exact hstack
  rw [hheap] at hlocate
  cases hstep
  exact ⟨container, index, v, place, ⟨⟨i, hnext, hop⟩, m₃.stack, hoperands⟩, hlocate,
    by rw [hm₄, hheap]⟩

end Exec

/-! ## What a step does to the rest -/

/-- What a machine is given once and for all. -/
structure SameSetting (m m' : Machine) : Prop where
  constants : m'.constants = m.constants
  builtins : m'.builtins = m.builtins
  modules : m'.modules = m.modules
  limits : m'.limits = m.limits

theorem Took.sameSetting {k : Nat} (h : Took k m m') : SameSetting m m' := by
  rw [h.rest]
  exact ⟨rfl, rfl, rfl, rfl⟩

theorem Commit.sameSetting {i : Instruction} (h : Commit i m m') : SameSetting m m' := by
  cases h <;> exact ⟨rfl, rfl, rfl, rfl⟩

namespace Transition

theorem sameSetting (ht : Transition host m frame callers r) :
    SameSetting m (Machine.ofResult r) := by
  cases ht with
  | @straight i m₁ m' _ _ took hcommit =>
    have htook := took.sameSetting
    have hend := hcommit.sameSetting
    exact ⟨hend.constants.trans htook.constants, hend.builtins.trans htook.builtins,
      hend.modules.trans htook.modules, hend.limits.trans htook.limits⟩
  | refused _ took =>
    have htook := took.sameSetting
    exact ⟨htook.constants, htook.builtins, htook.modules, htook.limits⟩
  | _ => exact ⟨rfl, rfl, rfl, rfl⟩

theorem globals (ht : Transition host m frame callers r) :
    (Machine.ofResult r).globals = m.globals
      ∨ ∃ i v, frame.next = .ok i ∧ (i.opcode = .assignGlobal ∨ i.opcode = .bindGlobal)
        ∧ (Machine.ofResult r).globals = m.globals.setIfInBounds i.first v := by
  cases ht with
  | @straight i m₁ m' hnext _ took hcommit =>
    have htook : m₁.globals = m.globals := took.globals
    rw [← htook]
    cases hcommit with
    | assignGlobal v hop => exact Or.inr ⟨i, v, hnext, Or.inl hop, rfl⟩
    | bindGlobal v hop => exact Or.inr ⟨i, v, hnext, Or.inr hop, rfl⟩
    | _ => exact Or.inl rfl
  | refused _ took => exact Or.inl took.globals
  | _ => exact Or.inl rfl

theorem lastPopped (ht : Transition host m frame callers r) :
    (Machine.ofResult r).lastPopped = m.lastPopped
      ∨ ∃ i, frame.next = .ok i ∧ i.opcode = .pop := by
  cases ht with
  | @straight i m₁ m' hnext _ took hcommit =>
    have htook : m₁.lastPopped = m.lastPopped := took.lastPopped
    rw [← htook]
    cases hcommit with
    | discard v hop => exact Or.inr ⟨i, hnext, hop⟩
    | _ => exact Or.inl rfl
  | refused _ took => exact Or.inl took.lastPopped
  | _ => exact Or.inl rfl

theorem frames (hframes : m.frames = frame :: callers) (ht : Transition host m frame callers r) :
    (Machine.ofResult r).frames = callers
      ∨ ∃ ip entered, entered.length ≤ 1
        ∧ (Machine.ofResult r).frames = entered ++ { frame with ip } :: callers := by
  cases ht with
  | straight _ _ took hcommit =>
    obtain ⟨ip, hframes', -⟩ := hcommit.frames_eq took.frames
    exact Or.inr ⟨ip, [], Nat.zero_le 1, hframes'⟩
  | builtin => exact Or.inr ⟨_, [], Nat.zero_le 1, rfl⟩
  | enter => exact Or.inr ⟨_, [_], Nat.le_refl 1, rfl⟩
  | leave => exact Or.inl rfl
  | finish _ hcallers => exact Or.inl hcallers.symm
  | undecodable => exact Or.inr ⟨frame.ip, [], Nat.zero_le 1, hframes⟩
  | refused _ took => exact Or.inr ⟨_, [], Nat.zero_le 1, took.frames⟩
  | hostFault => exact Or.inr ⟨_, [], Nat.zero_le 1, rfl⟩
  | overflow => exact Or.inl rfl

end Transition

/-- Nothing that a machine does changes its limits. -/
theorem WellFormed.limits_advance (hm : WellFormed m) (host : Host) :
    (m.advance host).limits = m.limits := by
  cases hframes : m.frames with
  | nil => rw [Machine.advance_of_nil hframes]
  | cons frame callers =>
    rw [Machine.advance_of_cons hframes]
    exact (Exec.step_transition host hm.floor_le hm.stack_le hframes).sameSetting.limits

/-! ## All that a step may write -/

/-- `m'` differs from `m` in no more than a step without a fault may write. -/
structure Footprint (host : Host) (m : Machine) (frame : Frame) (callers : List Frame)
    (m' : Machine) : Prop where
  setting : SameSetting m m'
  globals : m'.globals = m.globals
    ∨ ∃ i v, frame.next = .ok i ∧ (i.opcode = .assignGlobal ∨ i.opcode = .bindGlobal)
      ∧ m'.globals = m.globals.setIfInBounds i.first v
  lastPopped : m'.lastPopped = m.lastPopped ∨ ∃ i, frame.next = .ok i ∧ i.opcode = .pop
  /-- An array changes in the one place that is assigned to. -/
  array : ∀ id < m.heap.arrays.size, m'.heap.array id = m.heap.array id
    ∨ (∃ n slot v, Assigns m frame (.array id) (.integer n) v ∧ place? n = some slot
      ∧ m'.heap.array id = (m.heap.array id).setIfInBounds slot v)
    ∨ CallsBuiltin m frame
  /-- A hash changes at the one key that is assigned to. -/
  hash : ∀ id < m.heap.hashes.size, m'.heap.hash id = m.heap.hash id
    ∨ (∃ index key v, Assigns m frame (.hash id) index v ∧ index.key? = some key
      ∧ m'.heap.hash id = (m.heap.hash id).insert key v)
    ∨ CallsBuiltin m frame
  /-- A closure changes in the one slot in which it puts itself. -/
  captured : ∀ closure : Closure, closure.id < m.heap.captures.size →
    m'.heap.captured closure = m.heap.captured closure
    ∨ (∃ i, frame.next = .ok i ∧ i.opcode = .setSelf ∧ frame.closure.id = closure.id
      ∧ m'.heap.captured closure
        = (m.heap.captured closure).setIfInBounds i.first (.closure frame.closure))
    ∨ CallsBuiltin m frame
  module : host.KeepsModules ∨ ¬CallsBuiltin m frame →
    ∀ id < m.heap.modules.size, m'.heap.module id = m.heap.module id
  /-- The active frame is popped, or only goes on elsewhere and may have entered another. -/
  frames : m'.frames = callers ∨ ∃ ip entered, entered.length ≤ 1
    ∧ m'.frames = entered ++ { frame with ip } :: callers

/-- Arrays and hashes stay as they are, unless a step writes the one place that an assignment denotes
or calls a function of the host. -/
theorem containers_of_step (hframes : m.frames = frame :: callers)
    (hstep : Exec.step host m = .ok () m') (ht : Transition host m frame callers (.ok () m')) :
    ((∀ id < m.heap.arrays.size, m'.heap.array id = m.heap.array id)
        ∧ ∀ id < m.heap.hashes.size, m'.heap.hash id = m.heap.hash id)
      ∨ (∃ container index v place, Assigns m frame container index v
        ∧ m.heap.locate container index = .ok place ∧ m'.heap = m.heap.write place v)
      ∨ CallsBuiltin m frame := by
  rcases (writesHeap_of_transition ht).containers with hsame | ⟨i, hnext, hop⟩ | hcalls
  · exact Or.inl hsame
  · exact Or.inr (Or.inl (Exec.assigns_of_step hframes hnext hop hstep))
  · exact Or.inr (Or.inr hcalls)

/-- **A step writes no more than its footprint.** Whatever else refers to an array, a hash or a
closure, it sees no change but the one that the instruction is for. -/
theorem step_footprint (hreach : m.Reachable host) (hstep : Exec.step host m = .ok () m') :
    ∃ frame callers, m.frames = frame :: callers ∧ Footprint host m frame callers m' := by
  have hwf : WellFormed m := hreach.induct (fun _ => .of_fresh) fun _ hm => hm.advance host
  cases hframes : m.frames with
  | nil =>
    rw [Machine.step_of_nil hframes] at hstep
    cases hstep
  | cons frame callers =>
    have ht := Exec.step_transition host hwf.floor_le hwf.stack_le hframes
    rw [hstep] at ht
    have hheap := writesHeap_of_transition ht
    have hcontainers := containers_of_step hframes hstep ht
    refine ⟨frame, callers, rfl,
      { setting := ht.sameSetting
        globals := ht.globals
        lastPopped := ht.lastPopped
        array := fun id hid => ?_
        hash := fun id hid => ?_
        captured := fun closure hid => ?_
        module := fun hkeeps id hid => hheap.module hkeeps hid
        frames := ht.frames hframes }⟩
    · rcases hcontainers with hsame | ⟨container, index, v, place, hassigns, hlocate, hwrite⟩ | hcalls
      · exact Or.inl (hsame.1 id hid)
      · rw [hwrite]
        rcases Heap.array_write (v := v) hid place with hsame | ⟨slot, rfl, hset⟩
        · exact Or.inl hsame
        · obtain ⟨rfl, n, rfl, hslot⟩ := Heap.locate_eq_element hlocate
          exact Or.inr (Or.inl ⟨n, slot, v, hassigns, hslot, hset⟩)
      · exact Or.inr (Or.inr hcalls)
    · rcases hcontainers with hsame | ⟨container, index, v, place, hassigns, hlocate, hwrite⟩ | hcalls
      · exact Or.inl (hsame.2 id hid)
      · rw [hwrite]
        rcases Heap.hash_write (v := v) hid place with hsame | ⟨key, rfl, hset⟩
        · exact Or.inl hsame
        · obtain ⟨rfl, hkey⟩ := Heap.locate_eq_entry hlocate
          exact Or.inr (Or.inl ⟨index, key, v, hassigns, hkey, hset⟩)
      · exact Or.inr (Or.inr hcalls)
    · rcases hheap.captured hid with hsame | ⟨i, hnext, hop, hself, -, hset⟩
        | ⟨i, place, b, -, hcalls, -⟩
      · exact Or.inl hsame
      · exact Or.inr (Or.inl ⟨i, hnext, hop, hself, hset⟩)
      · exact Or.inr (Or.inr ⟨i, place, b, hcalls⟩)

/-- `LoadConstant 0; MakeArray 1; BindGlobal 0; LoadConstant 1; LoadTrue`, and `SetItem` is next. -/
def aliasedAssignment : Machine :=
  let main : Code := #[0, 0, 0, 16, 0, 1, 5, 0, 0, 0, 0, 1, 11, 15]
  (Machine.load {} ⟨4, 1, 1⟩ ⟨main, #[.integer 7, .integer 0]⟩).after Host.sample 5

/-- An array that a global refers to is assigned to through the stack. -/
theorem step_footprint_alias :
    ∃ (m' : Machine) (frame : Frame) (callers : List Frame),
      aliasedAssignment.globals = #[.array 0]
        ∧ aliasedAssignment.heap.array 0 = #[.integer 7] ∧ m'.heap.array 0 = #[.boolean true]
        ∧ Footprint Host.sample aliasedAssignment frame callers m' := by
  have hreach : aliasedAssignment.Reachable Host.sample :=
    (Machine.fresh_load {} _ _).reachable.after 5
  have hafter : (Machine.ofResult (Exec.step Host.sample aliasedAssignment)).heap.array 0
      = #[.boolean true] := by decide +kernel
  have hok : (match Exec.step Host.sample aliasedAssignment with
      | .ok _ _ => true
      | .error _ _ => false) = true := by decide +kernel
  cases hstep : Exec.step Host.sample aliasedAssignment with
  | ok _ m' =>
    rw [hstep] at hafter
    obtain ⟨frame, callers, -, hfootprint⟩ := step_footprint hreach hstep
    exact ⟨m', frame, callers, by decide +kernel, by decide +kernel, hafter, hfootprint⟩
  | error fault m' =>
    rw [hstep] at hok
    cases hok

end

end ClosureMachine
