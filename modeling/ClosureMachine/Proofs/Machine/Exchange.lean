import ClosureMachine.Proofs.Machine.Effect

/-!
# Operands for an answer

What an instruction makes of operands that are at hand. `Machine.Offers` says where they stand: on
top of the stack, the last one uppermost, and all of them temporaries of the active frame.

* **`Exec.pop_bind`** and **`Exec.popMany_bind`** take them off.
* **`Exec.execute_setItem`** and **`Exec.execute_makeHash`** change the heap.
* **`Exec.Responds`** says what an instruction puts in the place of its operands when it leaves the
  heap alone; there is a lemma for each kind of instruction that computes or compares.

If an instruction faults, its operands are gone and nothing else has changed.
-/

namespace ClosureMachine

/-- The operands stand on top of the stack, above `rest`. -/
structure Machine.Offers (m : Machine) (rest : Array Value) (operands : List Value) : Prop where
  stack : m.stack = rest ++ operands.toArray
  floor_le : m.floor ≤ rest.size

/-- Any number of temporaries can be seen as operands. -/
theorem Machine.exists_offers {m : Machine} {count : Nat} (h : m.floor + count ≤ m.stack.size) :
    ∃ rest operands, m.Offers rest operands ∧ operands.length = count
      ∧ m.stack.size = rest.size + count := by
  have hrest : (m.stack.take (m.stack.size - count)).size = m.stack.size - count := by
    rw [Array.size_extract]
    omega
  refine ⟨m.stack.take (m.stack.size - count), m.stack.toList.drop (m.stack.size - count),
    ⟨?_, ?_⟩, ?_, ?_⟩
  · apply Array.toList_inj.mp
    simp
  · omega
  · rw [List.length_drop, Array.length_toList]
    omega
  · omega

/-- The operations of arithmetic and order on two operands. -/
def Opcode.binaries : List Opcode :=
  [.add, .sub, .mul, .div, .mod, .bitwiseOr, .bitwiseXor, .bitwiseAnd, .leftShift, .rightShift,
    .greaterThan, .greaterThanEqual]

namespace Exec

variable {α : Type} {host : Host} {m : Machine} {rest : Array Value} {operands : List Value}

/-! ## Operands come off the stack -/

theorem pop_bind (operands : List Value) {v : Value} (h : m.Offers rest (operands ++ [v]))
    (f : Value → Exec α) :
    (pop >>= f) m = f v { m with stack := rest ++ operands.toArray } := by
  have hstack : m.stack = (rest ++ operands.toArray).push v := by
    rw [h.stack]
    simp
  have henough : m.floor < m.stack.size := by
    have hfloor := h.floor_le
    rw [hstack, Array.size_push, Array.size_append]
    omega
  obtain ⟨w, hback, hpop⟩ := pop_of_lt henough
  rw [hstack, Array.back?_push] at hback
  cases hback
  rw [bind_apply, hpop, hstack, Array.pop_push]

theorem popMany_bind (h : m.Offers rest operands) (f : Array Value → Exec α) :
    (popMany operands.length >>= f) m = f operands.toArray { m with stack := rest } := by
  have hsize : m.stack.size = rest.size + operands.length := by
    rw [h.stack, Array.size_append]
    rfl
  have henough : m.floor + operands.length ≤ m.stack.size := by
    have hfloor := h.floor_le
    omega
  have hrest : m.stack.shrink rest.size = rest := by
    rw [Array.shrink_eq_take, h.stack]
    simp
  have hvalues : m.stack.extract rest.size m.stack.size = operands.toArray := by
    rw [hsize, h.stack]
    simp
  rw [bind_apply]
  unfold popMany
  rw [if_pos henough]
  simp only [hsize, Nat.add_sub_cancel, hrest]
  rw [← hsize, hvalues]

theorem pop_two_bind {x y : Value} (h : m.Offers rest [x, y]) (f : Value → Value → Exec α) :
    (do
      let right ← pop
      let left ← pop
      f left right) m = f x y { m with stack := rest } := by
  rw [pop_bind [x] h]
  have hleft : Machine.Offers { m with stack := rest ++ #[x] } rest ([] ++ [x]) :=
    ⟨rfl, h.floor_le⟩
  rw [pop_bind [] hleft]
  simp

theorem query_bind {β : Type} (g : Heap → Except Fault α) (f : α → Exec β) :
    (query g >>= f) m =
      match g m.heap with
      | .ok x => f x m
      | .error fault => .error fault m := by
  rw [bind_apply]
  unfold query
  cases g m.heap <;> rfl

theorem attempt_bind {β : Type} (g : Heap → Except Fault (α × Heap)) (f : α → Exec β) :
    (attempt g >>= f) m =
      match g m.heap with
      | .ok (x, heap) => f x { m with heap }
      | .error fault => .error fault m := by
  rw [bind_apply]
  unfold attempt onHeap
  dsimp only
  cases g m.heap <;> rfl

theorem proceed_apply (a : Exec Unit) :
    proceed a m =
      match a m with
      | .ok () m' => .ok .next m'
      | .error fault m' => .error fault m' := by
  unfold proceed
  rw [bind_apply]
  cases a m <;> rfl

/-- Once the operands are gone, the answer goes on the stack. -/
theorem push_onto (v : Value) (room : rest.size < m.limits.stackSize) :
    push v { m with stack := rest } = .ok () { m with stack := rest.push v } :=
  push_of_lt v room

theorem push_created {f : Heap → Value × Heap} (room : rest.size < m.limits.stackSize) :
    (create f >>= push) { m with stack := rest }
      = .ok () { m with stack := rest.push (f m.heap).1, heap := (f m.heap).2 } := by
  rw [bind_apply]
  exact push_of_lt (m := { m with stack := rest, heap := (f m.heap).2 }) _ room

/-! ## Instructions that change the heap -/

theorem execute_setItem {container index v : Value} (h : m.Offers rest [container, index, v]) :
    execute host ⟨.setItem, []⟩ m =
      match m.heap.setItem container index v with
      | .ok heap => .ok .next { m with stack := rest, heap }
      | .error fault => .error fault { m with stack := rest } := by
  have hindex : Machine.Offers { m with stack := rest ++ #[container, index] } rest
      ([container] ++ [index]) := ⟨rfl, h.floor_le⟩
  have hcontainer : Machine.Offers { m with stack := rest ++ #[container] } rest
      ([] ++ [container]) := ⟨rfl, h.floor_le⟩
  show proceed (do
    let v ← pop
    let index ← pop
    let container ← pop
    let place ← query fun heap => heap.locate container index
    change fun heap => heap.write place v) m = _
  rw [proceed_apply, pop_bind [container, index] h, pop_bind [container] hindex,
    pop_bind [] hcontainer, query_bind, Array.append_empty]
  unfold Heap.setItem
  cases m.heap.locate container index <;> rfl

/-- The operand has been checked to be even. -/
theorem execute_makeHash {i : Instruction} (hop : i.opcode = .makeHash) (heven : i.first % 2 = 0)
    (hfirst : operands.length = i.first) (h : m.Offers rest operands)
    (room : rest.size < m.limits.stackSize) :
    execute host i m =
      match hashOf (pairs operands) with
      | .ok dict => .ok .next { m with
          stack := rest.push (m.heap.newHash dict).1
          heap := (m.heap.newHash dict).2 }
      | .error fault => .error fault { m with stack := rest } := by
  have hexecute : execute host i = proceed (do
      let items ← popMany operands.length
      let entries ← query fun _ => hashOf (pairs items.toList)
      push (← create fun heap => heap.newHash entries)) := by
    unfold execute
    rw [hop, hfirst]
    simp only [heven]
    rfl
  rw [hexecute, proceed_apply, popMany_bind h, query_bind]
  cases hashOf (pairs operands) with
  | ok dict => simp only [push_created room]
  | error fault => rfl

/-! ## Instructions that leave the heap alone -/

/-- Wherever it finds the operands on top of the stack, the instruction puts the answer in their
place, or takes them away and faults. -/
def Responds (host : Host) (i : Instruction) (operands : List Value) (answer : Except Fault Value) :
    Prop :=
  ∀ (m : Machine) (rest : Array Value), m.Offers rest operands → rest.size < m.limits.stackSize →
    execute host i m =
      match answer with
      | .ok v => .ok .next { m with stack := rest.push v }
      | .error fault => .error fault { m with stack := rest }

/-- An instruction on two operands has one answer. -/
theorem Responds.unique {i : Instruction} {x y : Value} {answer answer' : Except Fault Value}
    (h : Responds host i [x, y] answer) (h' : Responds host i [x, y] answer') :
    answer = answer' := by
  let m : Machine :=
    { constants := #[]
      globals := #[]
      stack := #[x, y]
      frames := []
      limits := {}
      heap := {} }
  have hoffers : m.Offers #[] [x, y] := ⟨rfl, Nat.le_refl 0⟩
  have room : 0 < m.limits.stackSize := Nat.zero_lt_succ 2047
  have hsame := (h m #[] hoffers room).symm.trans (h' m #[] hoffers room)
  cases answer <;> cases answer' <;> simp_all

theorem responds_binary {op : Opcode} (hop : op ∈ Opcode.binaries) {x y : Value}
    {answer : Except Fault Value} (h : ∀ heap : Heap, heap.binary op x y = (·, heap) <$> answer) :
    Responds host ⟨op, []⟩ [x, y] answer := by
  intro m rest hoffers room
  have hexecute : execute host ⟨op, []⟩ = proceed (do
      let right ← pop
      let left ← pop
      push (← attempt fun heap => heap.binary op left right)) := by
    simp only [Opcode.binaries, List.mem_cons, List.not_mem_nil, or_false] at hop
    rcases hop with rfl | rfl | rfl | rfl | rfl | rfl | rfl | rfl | rfl | rfl | rfl | rfl <;> rfl
  rw [hexecute, proceed_apply, pop_two_bind hoffers, attempt_bind, h]
  cases answer with
  | error fault => rfl
  | ok v => simp only [Functor.map, Except.map, push_onto v room]

/-- The instructions on two operands that cannot fault once they have them. -/
theorem responds_pure_binary {i : Instruction} (f : Value → Value → Value)
    (hexecute : execute host i = proceed (do
      let right ← pop
      let left ← pop
      push (f left right))) (x y : Value) : Responds host i [x, y] (.ok (f x y)) := by
  intro m rest hoffers room
  rw [hexecute, proceed_apply, pop_two_bind hoffers, push_onto _ room]

theorem responds_equal (x y : Value) :
    Responds host ⟨.equal, []⟩ [x, y] (.ok (.boolean (x.equals y))) :=
  responds_pure_binary (fun left right => .boolean (left.equals right)) rfl x y

theorem responds_getItem {x y : Value} {answer : Except Fault Value}
    (h : ∀ heap : Heap, heap.getItem x y = answer) :
    Responds host ⟨.getItem, []⟩ [x, y] answer := by
  intro m rest hoffers room
  show proceed (do
    let index ← pop
    let container ← pop
    push (← query fun heap => heap.getItem container index)) m = _
  rw [proceed_apply, pop_two_bind hoffers, query_bind]
  simp only [h]
  cases answer with
  | error fault => rfl
  | ok v => simp only [push_onto v room]

theorem responds_unary {op : Opcode} (hop : op = .not ∨ op = .minus ∨ op = .bitwiseNot)
    (x : Value) : Responds host ⟨op, []⟩ [x] (x.unary op) := by
  intro m rest hoffers room
  have hexecute : execute host ⟨op, []⟩ = proceed (do
      let operand ← pop
      push (← query fun _ => operand.unary op)) := by
    rcases hop with rfl | rfl | rfl <;> rfl
  rw [hexecute, proceed_apply, pop_bind [] hoffers, query_bind, Array.append_empty]
  cases x.unary op with
  | error fault => rfl
  | ok v => simp only [push_onto v room]

end Exec

end ClosureMachine
