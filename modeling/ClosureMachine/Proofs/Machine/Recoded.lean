import ClosureMachine.Proofs.Machine.Recoding
import ClosureMachine.Proofs.Machine.Simulation

/-!
# Instructions and code

Only two things that a machine does depend on the code of a function: to decode the next instruction
and to check the target of a jump. Machines that differ in nothing but the code of their functions
keep step in everything else.

* **`recoding R left`** compares such machines, as long as the first has no fault with `left`. There is
  one lemma for each action.
* **`recoded_execute`**: all instructions keep such machines related, if jumps do.
-/

namespace ClosureMachine

section

variable {R : Routine → Routine → Prop}

/-! ## Actions -/

/-- Machines that differ in the code of their routines, until the first faults as `left` says. -/
def recoding (R : Routine → Routine → Prop) (left : Fault → Prop) : Comparison where
  related := Machine.Recoded R
  places := Eq
  left := left
  right _ := False

namespace Machine.Recoded

variable {m m' : Machine}

theorem frames_cases (h : m.Recoded R m') :
    m.frames = [] ∧ m'.frames = []
      ∨ ∃ frame callers frame' callers', m.frames = frame :: callers
        ∧ m'.frames = frame' :: callers' ∧ frame.Recoded R frame'
        ∧ List.Forall₂ (Frame.Recoded R) callers callers' := by
  have hframes := h.frames
  cases hm : m.frames with
  | nil =>
    rw [hm] at hframes
    have hm' : m'.frames = [] := List.forall₂_nil_left_iff.mp hframes
    exact Or.inl ⟨rfl, hm'⟩
  | cons frame callers =>
    rw [hm] at hframes
    obtain ⟨frame', callers', hframe, hcallers, hm'⟩ := List.forall₂_cons_left_iff.mp hframes
    exact Or.inr ⟨frame, callers, frame', callers', rfl, hm', hframe, hcallers⟩

theorem depth_eq (h : m.Recoded R m') : m'.depth = m.depth :=
  h.frames.length_eq.symm

theorem floor_eq (hR : Recodes R) (h : m.Recoded R m') : m'.floor = m.floor := by
  unfold Machine.floor
  rcases h.frames_cases with ⟨hm, hm'⟩ | ⟨frame, callers, frame', callers', hm, hm', hframe, -⟩
  · rw [hm, hm']
  · rw [hm, hm']
    show frame'.base + frame'.slots = frame.base + frame.slots
    rw [hframe.base, hframe.slots_eq hR]

end Machine.Recoded

namespace Exec

variable {left : Fault → Prop} {host : Host} {v v' : Value}

theorem recoded_push (hv : v.Recoded R v') : (recoding R left).Sim Eq (push v) (push v') := by
  intro m m' (h : m.Recoded R m')
  unfold push
  by_cases room : m.stack.size < m.limits.stackSize
  · have room' : m'.stack.size < m'.limits.stackSize := by
      rw [h.stack.size_eq, h.limits]
      exact room
    rw [if_pos room, if_pos room']
    exact .ok rfl { h with stack := h.stack.push hv }
  · have room' : ¬m'.stack.size < m'.limits.stackSize := by
      rw [h.stack.size_eq, h.limits]
      exact room
    rw [if_neg room, if_neg room']
    exact .error h

theorem recoded_pop (hR : Recodes R) : (recoding R left).Sim (Value.Recoded R) pop pop := by
  intro m m' (h : m.Recoded R m')
  have hfloor := h.floor_eq hR
  have hsize := h.stack.size_eq
  unfold pop
  by_cases hlt : m.floor < m.stack.size
  · have hlt' : m'.floor < m'.stack.size := by omega
    rw [dif_pos hlt, dif_pos hlt']
    exact .ok (h.stack.back (by omega) (by omega)) { h with stack := h.stack.pop }
  · have hlt' : ¬m'.floor < m'.stack.size := by omega
    rw [dif_neg hlt, dif_neg hlt']
    exact .error h

theorem recoded_popMany (hR : Recodes R) (count : Nat) :
    (recoding R left).Sim (Pointwise (Value.Recoded R)) (popMany count) (popMany count) := by
  intro m m' (h : m.Recoded R m')
  unfold popMany
  rw [h.floor_eq hR, h.stack.size_eq]
  split
  · exact .ok (h.stack.extract _ _) { h with stack := h.stack.shrink _ }
  · exact .error h

theorem recoded_truncate (height : Nat) :
    (recoding R left).Sim Eq (truncate height) (truncate height) :=
  fun _ _ (h : Machine.Recoded R _ _) => .ok rfl { h with stack := h.stack.shrink height }

theorem recoded_discard (hv : v.Recoded R v') :
    (recoding R left).Sim Eq (discard v) (discard v') :=
  fun _ _ (h : Machine.Recoded R _ _) => .ok rfl { h with lastPopped := hv }

theorem recoded_constant (index : Nat) :
    (recoding R left).Sim (Value.Recoded R) (constant index) (constant index) := by
  intro m m' (h : m.Recoded R m')
  have hconstant := h.constants index
  unfold constant
  generalize m.constants[index]? = v at hconstant
  generalize m'.constants[index]? = v' at hconstant
  cases hconstant with
  | some hv => exact .ok hv h
  | none => exact .error h

theorem recoded_routine (index : Nat) :
    (recoding R left).Sim R (routine index) (routine index) := by
  refine (recoded_constant index).bind fun v v' hv => ?_
  cases hv with
  | function id hroutine => exact fun _ _ h => .ok hroutine h
  | _ => exact fun _ _ h => .error h

theorem recoded_builtin (index : Nat) :
    (recoding R left).Sim (Value.Recoded R) (builtin index) (builtin index) := by
  intro m m' (h : m.Recoded R m')
  unfold builtin
  rw [h.builtins]
  cases m.builtins.get? index with
  | some b => exact .ok (.builtin b) h
  | none => exact .error h

theorem recoded_moduleNamed (hv : v.Recoded R v') :
    (recoding R left).Sim (Value.Recoded R) (moduleNamed v) (moduleNamed v') := by
  intro m m' (h : m.Recoded R m')
  unfold moduleNamed
  cases hv with
  | string name =>
    have hmodule := h.modules.find? name
    dsimp only
    generalize m.modules.find? name = w at hmodule
    generalize m'.modules.find? name = w' at hmodule
    cases hmodule with
    | some hw => exact .ok hw h
    | none => exact .error h
  | _ => exact .error h

theorem recoded_checkGlobal (index : Nat) :
    (recoding R left).Sim Eq (checkGlobal index) (checkGlobal index) := by
  intro m m' (h : m.Recoded R m')
  unfold checkGlobal
  rw [h.globals.size_eq]
  split
  · exact .ok rfl h
  · exact .error h

theorem recoded_global (index : Nat) :
    (recoding R left).Sim (Value.Recoded R) (global index) (global index) := by
  intro m m' (h : m.Recoded R m')
  have hglobal := h.globals index
  unfold global
  rw [h.globals.size_eq]
  generalize m.globals[index]? = v at hglobal
  generalize m'.globals[index]? = v' at hglobal
  cases hglobal with
  | some hv => exact .ok hv h
  | none => exact .error h

theorem recoded_setGlobal (index : Nat) (hv : v.Recoded R v') :
    (recoding R left).Sim Eq (setGlobal index v) (setGlobal index v') :=
  fun _ _ (h : Machine.Recoded R _ _) =>
    .ok rfl { h with globals := h.globals.setIfInBounds index hv }

theorem recoded_frame : (recoding R left).Sim (Frame.Recoded R) frame frame := by
  intro m m' (h : m.Recoded R m')
  unfold frame
  rcases h.frames_cases with ⟨hm, hm'⟩ | ⟨frame, callers, frame', callers', hm, hm', hframe, -⟩
  · rw [hm, hm']
    exact .error h
  · rw [hm, hm']
    exact .ok hframe h

theorem recoded_localSlot (hR : Recodes R) (index : Nat) :
    (recoding R left).Sim Eq (localSlot index) (localSlot index) := by
  refine recoded_frame.bind fun frame frame' hframe => ?_
  rw [hframe.slots_eq hR, hframe.base]
  split
  · exact Comparison.same_pure _
  · exact Comparison.same_throw _

theorem recoded_slot (place : Nat) :
    (recoding R left).Sim (Value.Recoded R) (slot place) (slot place) :=
  fun _ _ (h : Machine.Recoded R _ _) => .ok (h.stack.getD place .null) h

theorem recoded_setSlot (place : Nat) (hv : v.Recoded R v') :
    (recoding R left).Sim Eq (setSlot place v) (setSlot place v') :=
  fun _ _ (h : Machine.Recoded R _ _) =>
    .ok rfl { h with stack := h.stack.setIfInBounds place hv }

section

variable {α β : Type} {V : α → β → Prop}

theorem recoded_query {f : Heap → Except Fault α} {f' : Heap → Except Fault β}
    (hf : ∀ heap heap', heap.Recoded R heap' → Answers V (f heap) (f' heap')) :
    (recoding R left).Sim V (query f) (query f') := by
  intro m m' (h : m.Recoded R m')
  have hanswers := hf m.heap m'.heap h.heap
  unfold query
  generalize f m.heap = result at hanswers
  generalize f' m'.heap = result' at hanswers
  cases hanswers with
  | ok hxy => exact .ok hxy h
  | error fault => exact .error h

theorem recoded_onHeap {f : Heap → Except Fault α × Heap} {f' : Heap → Except Fault β × Heap}
    (hf : ∀ heap heap', heap.Recoded R heap' →
      Answers V (f heap).1 (f' heap').1 ∧ (f heap).2.Recoded R (f' heap').2) :
    (recoding R left).Sim V (onHeap f) (onHeap f') := by
  intro m m' (h : m.Recoded R m')
  obtain ⟨hanswers, hheap⟩ := hf m.heap m'.heap h.heap
  unfold onHeap
  dsimp only
  generalize f m.heap = result at hanswers hheap
  generalize f' m'.heap = result' at hanswers hheap
  obtain ⟨answer, heap⟩ := result
  obtain ⟨answer', heap'⟩ := result'
  cases hanswers with
  | ok hxy => exact .ok hxy { h with heap := hheap }
  | error fault => exact .error { h with heap := hheap }

theorem recoded_create {f : Heap → α × Heap} {f' : Heap → β × Heap}
    (hf : ∀ heap heap', heap.Recoded R heap' →
      V (f heap).1 (f' heap').1 ∧ (f heap).2.Recoded R (f' heap').2) :
    (recoding R left).Sim V (create f) (create f') := by
  refine recoded_onHeap fun heap heap' hheap => ?_
  obtain ⟨hxy, hheap'⟩ := hf heap heap' hheap
  exact ⟨.ok hxy, hheap'⟩

theorem recoded_attempt {f : Heap → Except Fault (α × Heap)} {f' : Heap → Except Fault (β × Heap)}
    (hf : ∀ heap heap', heap.Recoded R heap' →
      Answers (fun made made' => V made.1 made'.1 ∧ made.2.Recoded R made'.2) (f heap) (f' heap')) :
    (recoding R left).Sim V (attempt f) (attempt f') := by
  refine recoded_onHeap fun heap heap' hheap => ?_
  have hanswers := hf heap heap' hheap
  generalize f heap = result at hanswers
  generalize f' heap' = result' at hanswers
  cases hanswers with
  | ok hmade => exact ⟨.ok hmade.1, hmade.2⟩
  | error fault => exact ⟨.error fault, hheap⟩

end

theorem recoded_change {f f' : Heap → Heap}
    (hf : ∀ heap heap', heap.Recoded R heap' → (f heap).Recoded R (f' heap')) :
    (recoding R left).Sim Eq (change f) (change f') :=
  recoded_create fun heap heap' hheap => ⟨rfl, hf heap heap' hheap⟩

/-! ### Frames -/

/-- A value that is left behind is related. -/
inductive ProgressRecoded (R : Routine → Routine → Prop) : Progress → Progress → Prop
  | next : ProgressRecoded R .next .next
  | entered : ProgressRecoded R .entered .entered
  | left {v v' : Value} (h : v.Recoded R v') : ProgressRecoded R (.left v) (.left v')

theorem recoded_callee (hR : Recodes R) (given : Nat) :
    (recoding R left).Sim (fun found found' => found'.1 = found.1 ∧ found.2.Recoded R found'.2)
      (callee given) (callee given) := by
  intro m m' (h : m.Recoded R m')
  have hfloor := h.floor_eq hR
  have hsize := h.stack.size_eq
  unfold callee
  by_cases henough : m.floor + (given + 1) ≤ m.stack.size
  · have henough' : m'.floor + (given + 1) ≤ m'.stack.size := by omega
    have hcallee : (m.stack[m.stack.size - (given + 1)]).Recoded R
        (m'.stack[m'.stack.size - (given + 1)]) := by
      simp only [hsize]
      exact h.stack.get _ _
    rw [dif_pos henough, dif_pos henough']
    exact .ok ⟨congrArg (· - (given + 1)) hsize, hcallee⟩ h
  · have henough' : ¬m'.floor + (given + 1) ≤ m'.stack.size := by omega
    rw [dif_neg henough, dif_neg henough']
    exact .error h

theorem recoded_above (place : Nat) :
    (recoding R left).Sim (List.Forall₂ (Value.Recoded R)) (above place) (above place) := by
  intro m m' (h : m.Recoded R m')
  unfold above
  rw [h.stack.size_eq]
  exact .ok (h.stack.extract _ _).toList h

theorem recoded_enter (hR : Recodes R) {closure closure' : Closure}
    (hclosure : closure.Recoded R closure') (given : Nat) :
    (recoding R left).Sim Eq (enter closure given) (enter closure' given) := by
  intro m m' (h : m.Recoded R m')
  have hmaxFrames : m'.limits.maxFrames = m.limits.maxFrames := by rw [h.limits]
  have hstackSize : m'.limits.stackSize = m.limits.stackSize := by rw [h.limits]
  unfold enter
  dsimp only
  rw [hR.params hclosure.routine, hR.slots hclosure.routine, h.depth_eq, h.stack.size_eq, hmaxFrames,
    hstackSize]
  split
  · exact .error h
  split
  · exact .error h
  split
  · exact .error h
  · exact .ok rfl { h with
      stack := h.stack.append (.refl (.refl hR) _)
      frames := .cons ⟨hclosure, rfl, rfl⟩ h.frames }

theorem recoded_leave : (recoding R left).Sim Eq leave leave := by
  intro m m' (h : m.Recoded R m')
  unfold leave
  rcases h.frames_cases with
    ⟨hm, hm'⟩ | ⟨frame, callers, frame', callers', hm, hm', hframe, hcallers⟩
  · rw [hm, hm']
    exact .error h
  · have hempty : callers'.isEmpty = callers.isEmpty := by
      cases hcallers <;> rfl
    rw [hm, hm']
    dsimp only
    rw [hempty, hframe.base]
    exact .ok rfl { h with stack := h.stack.shrink _, frames := hcallers }

theorem recoded_leaveWith (hv : v.Recoded R v') :
    (recoding R left).Sim (ProgressRecoded R) (leaveWith v) (leaveWith v') :=
  recoded_leave.bind fun _ _ _ => Comparison.sim_pure (.left hv)

/-! ### Instructions -/

theorem recoded_call (hR : Recodes R) (hhost : host.Respects R) (given : Nat) :
    (recoding R left).Sim (ProgressRecoded R) (call host given) (call host given) := by
  refine (recoded_callee hR given).bind fun (place, v) (place', v') hfound => ?_
  obtain ⟨rfl, hv⟩ : place' = place ∧ v.Recoded R v' := hfound
  cases hv with
  | @closure id routine routine' hroutine =>
    have hclosure : Closure.Recoded R ⟨id, routine⟩ ⟨id, routine'⟩ := ⟨rfl, hroutine⟩
    refine (recoded_enter hR hclosure given).bind fun _ _ _ => ?_
    exact Comparison.sim_pure .entered
  | builtin b =>
    refine (recoded_above place').bind fun arguments arguments' harguments => ?_
    refine Comparison.Sim.bind (V := Value.Recoded R) ?_ fun answer answer' hanswer => ?_
    · exact recoded_onHeap fun heap heap' hheap => hhost b.label heap heap' _ _ hheap harguments
    · refine (recoded_truncate place').bind fun _ _ _ => ?_
      exact (recoded_push hanswer).bind fun _ _ _ => Comparison.sim_pure .next
  | _ => exact Comparison.sim_throw _ _

theorem recoded_binaryOperation (hR : Recodes R) (op : Opcode) :
    (recoding R left).Sim Eq
      (do
        let right ← pop
        let left ← pop
        push (← attempt fun heap => heap.binary op left right))
      (do
        let right ← pop
        let left ← pop
        push (← attempt fun heap => heap.binary op left right)) := by
  refine (recoded_pop hR).bind fun right right' hright => ?_
  refine (recoded_pop hR).bind fun left left' hleft => ?_
  refine Comparison.Sim.bind (V := Value.Recoded R) ?_ fun _ _ hv => recoded_push hv
  exact recoded_attempt fun heap heap' hheap => recoded_binary hR hheap op hleft hright

theorem recoded_pureBinary (hR : Recodes R) {f : Value → Value → Value}
    (hf : ∀ left left' right right' : Value, left.Recoded R left' → right.Recoded R right' →
      f left' right' = f left right) :
    (recoding R left).Sim Eq
      (do
        let right ← pop
        let left ← pop
        push (f left right))
      (do
        let right ← pop
        let left ← pop
        push (f left right)) := by
  refine (recoded_pop hR).bind fun right right' hright => ?_
  refine (recoded_pop hR).bind fun left left' hleft => ?_
  rw [hf left left' right right' hleft hright]
  exact recoded_push (.refl hR _)

theorem recoded_unaryOperation (hR : Recodes R) (op : Opcode) :
    (recoding R left).Sim Eq
      (do
        let operand ← pop
        push (← query fun _ => operand.unary op))
      (do
        let operand ← pop
        push (← query fun _ => operand.unary op)) := by
  refine (recoded_pop hR).bind fun operand operand' hoperand => ?_
  refine Comparison.Sim.bind (V := Value.Recoded R) ?_ fun _ _ hv => recoded_push hv
  exact recoded_query fun _ _ _ => recoded_unary hR op hoperand

/-- **No instruction depends on the code of functions**, unless it jumps. -/
theorem recoded_execute (hR : Recodes R) (hhost : host.Respects R)
    (hjump : ∀ target, (recoding R left).Sim Eq (jump target) (jump target)) (i : Instruction) :
    (recoding R left).Sim (ProgressRecoded R) (execute host i) (execute host i) := by
  obtain ⟨op, operands⟩ := i
  cases op with
  | loadConstant => exact .proceed ((recoded_constant _).bind fun _ _ hv => recoded_push hv) .next
  | loadTrue | loadFalse => exact .proceed (recoded_push (.boolean _)) .next
  | loadNull => exact .proceed (recoded_push .null) .next
  | loadBuiltin => exact .proceed ((recoded_builtin _).bind fun _ _ hv => recoded_push hv) .next
  | assignGlobal =>
    refine .proceed ((recoded_checkGlobal _).bind fun _ _ _ => ?_) .next
    exact (recoded_pop hR).bind fun _ _ hv => recoded_setGlobal _ hv
  | bindGlobal =>
    refine .proceed ((recoded_checkGlobal _).bind fun _ _ _ => ?_) .next
    refine (recoded_pop hR).bind fun _ _ hv => ?_
    exact (recoded_setGlobal _ hv).bind fun _ _ _ => recoded_push hv
  | loadGlobal => exact .proceed ((recoded_global _).bind fun _ _ hv => recoded_push hv) .next
  | assignLocal =>
    refine .proceed ((recoded_localSlot hR _).bind fun place _ hplace => ?_) .next
    exact hplace ▸ (recoded_pop hR).bind fun _ _ hv => recoded_setSlot place hv
  | bindLocal =>
    refine .proceed ((recoded_localSlot hR _).bind fun place _ hplace => ?_) .next
    refine hplace ▸ (recoded_pop hR).bind fun _ _ hv => ?_
    exact (recoded_setSlot place hv).bind fun _ _ _ => recoded_push hv
  | loadLocal =>
    refine .proceed ((recoded_localSlot hR _).bind fun place _ hplace => ?_) .next
    exact hplace ▸ (recoded_slot place).bind fun _ _ hv => recoded_push hv
  | loadFree =>
    refine .proceed (recoded_frame.bind fun frame frame' hframe => ?_) .next
    refine Comparison.Sim.bind (V := Value.Recoded R) ?_ fun _ _ hv => recoded_push hv
    refine recoded_query fun heap heap' hheap => ?_
    have hcaptured := hheap.captured hframe.closure
    generalize Instruction.first ⟨.loadFree, operands⟩ = slot
    have hslot := hcaptured slot
    rw [hcaptured.size_eq]
    generalize (heap.captured frame.closure)[slot]? = v at hslot
    generalize (heap'.captured frame'.closure)[slot]? = v' at hslot
    cases hslot with
    | some hv => exact .ok hv
    | none => exact .error _
  | setSelf =>
    refine .proceed (recoded_frame.bind fun frame frame' hframe => ?_) .next
    refine Comparison.Sim.bind (V := Eq) ?_ fun _ _ _ => ?_
    · refine recoded_query fun heap heap' hheap => ?_
      rw [(hheap.captured hframe.closure).size_eq]
      split
      · exact .ok rfl
      · exact .error _
    · refine recoded_change fun heap heap' hheap => ?_
      exact hheap.setCapture hframe.closure _ hframe.closure.value
  | loadModule =>
    refine .proceed ((recoded_pop hR).bind fun name name' hname => ?_) .next
    exact (recoded_moduleNamed hname).bind fun _ _ hv => recoded_push hv
  | getItem =>
    refine .proceed ((recoded_pop hR).bind fun index index' hindex => ?_) .next
    refine (recoded_pop hR).bind fun container container' hcontainer => ?_
    refine Comparison.Sim.bind (V := Value.Recoded R) ?_ fun _ _ hv => recoded_push hv
    exact recoded_query fun heap heap' hheap => recoded_getItem hheap hcontainer hindex
  | setItem =>
    refine .proceed ((recoded_pop hR).bind fun v v' hv => ?_) .next
    refine (recoded_pop hR).bind fun index index' hindex => ?_
    refine (recoded_pop hR).bind fun container container' hcontainer => ?_
    refine Comparison.Sim.bind (V := Eq) ?_ fun place _ hplace => ?_
    · refine recoded_query fun heap heap' hheap => ?_
      rw [recoded_locate hheap hcontainer hindex]
      cases heap.locate container index with
      | ok place => exact .ok rfl
      | error fault => exact .error fault
    · exact hplace ▸ recoded_change fun heap heap' hheap => hheap.write place hv
  | makeArray =>
    refine .proceed ((recoded_popMany hR _).bind fun elements elements' helements => ?_) .next
    refine Comparison.Sim.bind (V := Value.Recoded R) ?_ fun _ _ hv => recoded_push hv
    exact recoded_create fun heap heap' hheap => hheap.newArray helements
  | makeHash =>
    have hrest : (recoding R left).Sim Eq
        (do
          let items ← popMany (Instruction.first ⟨.makeHash, operands⟩)
          let entries ← query fun _ => hashOf (pairs items.toList)
          push (← create fun heap => heap.newHash entries))
        (do
          let items ← popMany (Instruction.first ⟨.makeHash, operands⟩)
          let entries ← query fun _ => hashOf (pairs items.toList)
          push (← create fun heap => heap.newHash entries)) := by
      refine (recoded_popMany hR _).bind fun items items' hitems => ?_
      refine Comparison.Sim.bind (V := Dict.Pointwise (Value.Recoded R)) ?_ fun _ _ hdict => ?_
      · exact recoded_query fun _ _ _ => recoded_hashOf (recoded_pairs hitems.toList)
      · refine Comparison.Sim.bind (V := Value.Recoded R) ?_ fun _ _ hv => recoded_push hv
        exact recoded_create fun heap heap' hheap => hheap.newHash hdict
    refine .proceed ?_ .next
    split
    · exact (Comparison.sim_throw Eq _).bind fun _ _ _ => hrest
    · exact hrest
  | makeClosure =>
    refine .proceed ((recoded_routine _).bind fun routine routine' hroutine => ?_) .next
    refine (recoded_popMany hR _).bind fun captures captures' hcaptures => ?_
    refine Comparison.Sim.bind (V := Closure.Recoded R) ?_ fun _ _ h => recoded_push h.value
    exact recoded_create fun heap heap' hheap => hheap.newClosure hroutine hcaptures
  | pop => exact .proceed ((recoded_pop hR).bind fun _ _ hv => recoded_discard hv) .next
  | noop => exact .proceed (Comparison.same_pure _) .next
  | add | sub | mul | div | mod | bitwiseOr | bitwiseXor | bitwiseAnd | leftShift | rightShift
  | greaterThan | greaterThanEqual => exact .proceed (recoded_binaryOperation hR _) .next
  | equal =>
    refine .proceed (recoded_pureBinary hR (f := fun l r => .boolean (l.equals r)) ?_) .next
    intro l l' r r' hl hr
    rw [hl.equals_eq hr]
  | notEqual =>
    refine .proceed (recoded_pureBinary hR (f := fun l r => .boolean !(l.equals r)) ?_) .next
    intro l l' r r' hl hr
    rw [hl.equals_eq hr]
  | or =>
    refine .proceed
      (recoded_pureBinary hR (f := fun l r => .boolean (l.isTruthy || r.isTruthy)) ?_) .next
    intro l l' r r' hl hr
    rw [hl.isTruthy_eq, hr.isTruthy_eq]
  | and =>
    refine .proceed
      (recoded_pureBinary hR (f := fun l r => .boolean (l.isTruthy && r.isTruthy)) ?_) .next
    intro l l' r r' hl hr
    rw [hl.isTruthy_eq, hr.isTruthy_eq]
  | not | minus | bitwiseNot => exact .proceed (recoded_unaryOperation hR _) .next
  | jump => exact .proceed (hjump _) .next
  | jumpIfFalse =>
    refine .proceed ((recoded_pop hR).bind fun condition condition' hcondition => ?_) .next
    rw [hcondition.isTruthy_eq]
    split
    · exact hjump _
    · exact Comparison.same_pure _
  | call => exact recoded_call hR hhost _
  | returnValue => exact (recoded_pop hR).bind fun _ _ hv => recoded_leaveWith hv
  | bareReturn => exact recoded_leaveWith .null

theorem recoded_deliver {progress progress' : Progress} (h : ProgressRecoded R progress progress') :
    (recoding R left).Sim Eq (deliver progress) (deliver progress') := by
  cases h with
  | left hv => exact recoded_push hv
  | _ => exact Comparison.same_pure _

end Exec

end

end ClosureMachine
