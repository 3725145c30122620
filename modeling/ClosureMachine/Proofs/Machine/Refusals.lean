import ClosureMachine.Proofs.Code.Boundary
import ClosureMachine.Proofs.Machine.Effect

/-!
# Why an instruction is refused

An instruction that stays in its frame faults for one of four reasons: there are too few temporaries
for it, the stack is full, it jumps beyond the end of its stream, or one of its operands, in its
bytes or on the stack, is not what it has to be.

* **`Refusal i count m fault`** lists the reasons, for a machine of which `i` has still to take
  `count` temporaries.
* **`Exec.Takes count a`** is about the beginnings of instructions: `a` takes `count` temporaries, or
  else faults for the first or the last of the reasons.
* **`Exec.refusal_of_execute`**: there are no other reasons, for any instruction. Nothing is
  asked of the machine but that there is an active frame.
-/

namespace ClosureMachine

/-- The faults of the operands of an instruction, of those in its bytes and of those on the stack. -/
def Fault.blamesOperand : Fault → Bool
  | typeMismatch _ _ | unsupportedOperand _ | divisionByZero | invalidShift _ | indexOutOfRange _ _
  | unhashableKey _ | oddHashOperand _ | notAFunction _ | constantOutOfRange _ | globalOutOfRange _ _
  | localOutOfRange _ _ | freeOutOfRange _ _ | unknownBuiltin _ | unknownModule _ => true
  | _ => false

/-- Why an instruction is refused that has still to take `count` temporaries. -/
inductive Refusal (i : Instruction) (count : Nat) (m : Machine) : Fault → Prop
  | few (h : m.stack.size < m.floor + count) : Refusal i count m .stackUnderflow
  | full (hpushes : i.pushes = 1) (h : m.limits.stackSize + count ≤ m.stack.size) :
      Refusal i count m .stackOverflow
  | beyond {frame : Frame} {callers : List Frame} (hjumps : i.opcode.jumps = true)
      (hframes : m.frames = frame :: callers) (h : frame.code.size < i.first) :
      Refusal i count m (.jumpOutOfRange i.first frame.code.size)
  | operand {fault : Fault} (h : fault.blamesOperand = true) : Refusal i count m fault

/-! ## Operations on values -/

section

variable {heap : Heap} {fault : Fault}

theorem Value.blames_hashKey {v : Value} (h : v.hashKey = .error fault) :
    fault.blamesOperand = true := by
  unfold hashKey at h
  split at h
  · cases h
  · cases h
    rfl

theorem Heap.blames_getItem {container index : Value}
    (h : heap.getItem container index = .error fault) : fault.blamesOperand = true := by
  unfold getItem at h
  split at h
  · cases h
  · cases h
  · have hkey := map_eq_error_iff.mp h
    exact Value.blames_hashKey hkey
  · cases h
  · cases h
    rfl

theorem Heap.blames_locate {container index : Value}
    (h : heap.locate container index = .error fault) : fault.blamesOperand = true := by
  unfold locate at h
  split at h
  · dsimp only at h
    split at h
    · cases h
    · cases h
      rfl
  · have hkey := map_eq_error_iff.mp h
    exact Value.blames_hashKey hkey
  · cases h
    rfl

theorem blames_shiftAmount {n : Int64} (h : shiftAmount n = .error fault) :
    fault.blamesOperand = true := by
  unfold shiftAmount at h
  split at h
  · cases h
  · cases h
    rfl

theorem blames_integerOperation {op : Opcode} {l r : Int64}
    (h : integerOperation op l r = .error fault) : fault.blamesOperand = true := by
  cases op with
  | div | mod =>
    unfold integerOperation at h
    dsimp only at h
    split at h
    · cases h
      rfl
    · cases h
  | leftShift | rightShift =>
    have hshift := map_eq_error_iff.mp h
    exact blames_shiftAmount hshift
  | add | sub | mul | bitwiseOr | bitwiseXor | bitwiseAnd | greaterThan | greaterThanEqual => cases h
  | _ =>
    cases h
    rfl

theorem blames_stringOperation {op : Opcode} {l r : String}
    (h : stringOperation op l r = .error fault) : fault.blamesOperand = true := by
  cases op with
  | add | greaterThan | greaterThanEqual => cases h
  | _ =>
    cases h
    rfl

theorem Heap.blames_binary {op : Opcode} {left right : Value}
    (h : heap.binary op left right = .error fault) : fault.blamesOperand = true := by
  unfold binary at h
  split at h
  · have hresult := map_eq_error_iff.mp h
    exact blames_integerOperation hresult
  · have hresult := map_eq_error_iff.mp h
    exact blames_stringOperation hresult
  · split at h
    · cases h
    · cases h
      rfl
  · cases h
    rfl

theorem Value.blames_unary {op : Opcode} {operand : Value}
    (h : operand.unary op = .error fault) : fault.blamesOperand = true := by
  unfold unary at h
  split at h
  · cases h
  · cases h
  · cases h
  · cases h
    rfl

theorem blames_hashOf {entries : List (Value × Value)}
    (h : Exec.hashOf entries = .error fault) : fault.blamesOperand = true := by
  unfold Exec.hashOf at h
  -- whatever has been inserted before, the fault is that of a key
  generalize (Dict.empty : Dict Key Value) = dict at h
  induction entries generalizing dict with
  | nil => cases h
  | cons entry rest ih =>
    obtain ⟨key, value⟩ := entry
    rw [List.foldlM_cons] at h
    dsimp only at h
    cases hkey : key.hashKey with
    | ok key =>
      rw [hkey] at h
      exact ih _ h
    | error fault' =>
      rw [hkey] at h
      cases h
      exact Value.blames_hashKey hkey

end

/-! ## Machines with fewer temporaries -/

/-- `m'` has `count` values less on its stack than `m`, with the same frames and limits. -/
structure Lighter (count : Nat) (m m' : Machine) : Prop where
  frames : m'.frames = m.frames
  limits : m'.limits = m.limits
  size : m'.stack.size + count = m.stack.size

namespace Lighter

variable {j k : Nat} {m m' m'' : Machine}

theorem refl (m : Machine) : Lighter 0 m m :=
  ⟨rfl, rfl, rfl⟩

theorem floor (h : Lighter k m m') : m'.floor = m.floor := by
  unfold Machine.floor
  rw [h.frames]

theorem trans (h : Lighter k m m') (h' : Lighter j m' m'') : Lighter (j + k) m m'' := by
  refine ⟨h'.frames.trans h.frames, h'.limits.trans h.limits, ?_⟩
  have := h.size
  have := h'.size
  omega

end Lighter

/-- What is refused when some temporaries have been taken was refused before for the same reason. -/
theorem Refusal.of_lighter {i : Instruction} {j k : Nat} {m m' : Machine} {fault : Fault}
    (h : Refusal i k m' fault) (lighter : Lighter j m m') : Refusal i (k + j) m fault := by
  have hsize := lighter.size
  cases h with
  | few h =>
    rw [lighter.floor] at h
    exact .few (by omega)
  | full hpushes h =>
    rw [lighter.limits] at h
    exact .full hpushes (by omega)
  | beyond hjumps hframes h => exact .beyond hjumps (lighter.frames ▸ hframes) h
  | operand h => exact .operand h

namespace Exec

variable {α β : Type}

/-! ## Actions that take temporaries -/

/-- The action takes `count` temporaries. If it faults, there are fewer than that, or an operand is
to blame. -/
structure Takes (count : Nat) (a : Exec α) : Prop where
  ok : ∀ {m x m'}, a m = .ok x m' → Lighter count m m'
  error : ∀ {m fault m'}, m.frames ≠ [] → a m = .error fault m' →
    fault.blamesOperand = true ∨ fault = .stackUnderflow ∧ m.stack.size < m.floor + count

theorem Takes.bind {j k : Nat} {a : Exec α} {f : α → Exec β} (ha : Takes j a)
    (hf : ∀ x, Takes k (f x)) : Takes (k + j) (a >>= f) where
  ok h := by
    obtain ⟨x, m₁, h₁, h₂⟩ := bind_eq_ok.mp h
    exact (ha.ok h₁).trans ((hf x).ok h₂)
  error hframes h := by
    rcases bind_eq_error.mp h with h₁ | ⟨x, m₁, h₁, h₂⟩
    · refine (ha.error hframes h₁).imp_right fun ⟨hfault, hfew⟩ => ⟨hfault, ?_⟩
      omega
    · have lighter := ha.ok h₁
      refine ((hf x).error (lighter.frames ▸ hframes) h₂).imp_right fun ⟨hfault, hfew⟩ => ⟨hfault, ?_⟩
      have := lighter.size
      rw [lighter.floor] at hfew
      omega

/-- To look at the machine takes nothing. -/
theorem Reads.takes {a : Exec α} (ha : Reads a)
    (hblames : ∀ {m fault m'}, m.frames ≠ [] → a m = .error fault m' →
      fault.blamesOperand = true) : Takes 0 a where
  ok {m x m'} h := by
    rcases ha m with ⟨y, h'⟩ | ⟨fault, h'⟩
    · cases h'.symm.trans h
      exact .refl m
    · cases h'.symm.trans h
  error hframes h := Or.inl (hblames hframes h)

theorem takes_pure (x : α) : Takes 0 (pure x : Exec α) :=
  (Reads.pure x).takes fun _ h => by cases h

theorem takes_throw {fault : Fault} (hblames : fault.blamesOperand = true) :
    Takes 0 (throw fault : Exec α) :=
  (Reads.throw fault).takes fun _ h => by
    cases h
    exact hblames

theorem takes_constant (index : Nat) : Takes 0 (constant index) :=
  (reads_constant index).takes fun _ h => by
    unfold constant at h
    split at h
    · cases h
    · cases h
      rfl

theorem takes_routine (index : Nat) : Takes 0 (routine index) := by
  refine (takes_constant index).bind fun v => ?_
  split
  · exact takes_pure _
  · exact takes_throw rfl

theorem takes_builtin (index : Nat) : Takes 0 (builtin index) :=
  (reads_builtin index).takes fun _ h => by
    unfold builtin at h
    split at h
    · cases h
    · cases h
      rfl

theorem takes_moduleNamed (name : Value) : Takes 0 (moduleNamed name) :=
  (reads_moduleNamed name).takes fun _ h => by
    unfold moduleNamed at h
    split at h
    · split at h
      · cases h
      · cases h
        rfl
    · cases h
      rfl

theorem takes_checkGlobal (index : Nat) : Takes 0 (checkGlobal index) :=
  (reads_checkGlobal index).takes fun _ h => by
    unfold checkGlobal at h
    split at h
    · cases h
    · cases h
      rfl

theorem takes_global (index : Nat) : Takes 0 (global index) :=
  (reads_global index).takes fun _ h => by
    unfold global at h
    split at h
    · cases h
    · cases h
      rfl

theorem takes_frame : Takes 0 frame :=
  reads_frame.takes fun hframes h => by
    unfold frame at h
    split at h
    · contradiction
    · cases h

theorem takes_localSlot (index : Nat) : Takes 0 (localSlot index) := by
  refine takes_frame.bind fun frame => ?_
  split
  · exact takes_pure _
  · exact takes_throw rfl

theorem takes_query {f : Heap → Except Fault α}
    (hf : ∀ {heap fault}, f heap = .error fault → fault.blamesOperand = true) :
    Takes 0 (query f) :=
  (reads_query f).takes fun _ h => by
    unfold query at h
    split at h
    · cases h
    · next hfault =>
      cases h
      exact hf hfault

theorem takes_pop : Takes 1 pop where
  ok {m x m'} h := by
    unfold pop at h
    split at h
    · next henough =>
      cases h
      refine ⟨rfl, rfl, ?_⟩
      rw [Array.size_pop]
      omega
    · cases h
  error {m fault m'} _ h := by
    unfold pop at h
    split at h
    · cases h
    · cases h
      exact Or.inr ⟨rfl, by omega⟩

theorem takes_popMany (count : Nat) : Takes count (popMany count) where
  ok {m x m'} h := by
    unfold popMany at h
    split at h
    · next henough =>
      cases h
      refine ⟨rfl, rfl, ?_⟩
      rw [Array.size_shrink]
      omega
    · cases h
  error {m fault m'} _ h := by
    unfold popMany at h
    split at h
    · cases h
    · cases h
      exact Or.inr ⟨rfl, by omega⟩

/-- An action that cannot fault, and leaves the height of the stack as it was. -/
theorem takes_of_ok {a : Exec α} (h : ∀ m, ∃ x m', a m = .ok x m' ∧ Lighter 0 m m') :
    Takes 0 a where
  ok {m x m'} hok := by
    obtain ⟨y, m₁, h₁, lighter⟩ := h m
    cases h₁.symm.trans hok
    exact lighter
  error {m fault m'} _ herror := by
    obtain ⟨y, m₁, h₁, -⟩ := h m
    cases h₁.symm.trans herror

theorem takes_setGlobal (index : Nat) (v : Value) : Takes 0 (setGlobal index v) :=
  takes_of_ok fun _ => ⟨_, _, rfl, rfl, rfl, rfl⟩

theorem takes_setSlot (place : Nat) (v : Value) : Takes 0 (setSlot place v) :=
  takes_of_ok fun _ => ⟨_, _, rfl, rfl, rfl, Array.size_setIfInBounds⟩

theorem takes_slot (place : Nat) : Takes 0 (slot place) :=
  takes_of_ok fun m => ⟨_, _, rfl, .refl m⟩

theorem takes_discard (v : Value) : Takes 0 (discard v) :=
  takes_of_ok fun _ => ⟨_, _, rfl, rfl, rfl, rfl⟩

theorem takes_create (f : Heap → α × Heap) : Takes 0 (create f) :=
  takes_of_ok fun _ => ⟨_, _, rfl, rfl, rfl, rfl⟩

theorem takes_attempt {f : Heap → Except Fault (α × Heap)}
    (hf : ∀ {heap fault}, f heap = .error fault → fault.blamesOperand = true) :
    Takes 0 (attempt f) where
  ok {m x m'} h := by
    unfold attempt onHeap at h
    cases hresult : f m.heap with
    | ok result =>
      simp only [hresult] at h
      cases h
      exact ⟨rfl, rfl, rfl⟩
    | error fault =>
      simp only [hresult] at h
      cases h
  error {m fault m'} _ h := by
    unfold attempt onHeap at h
    cases hresult : f m.heap with
    | ok result =>
      simp only [hresult] at h
      cases h
    | error fault =>
      simp only [hresult] at h
      cases h
      exact Or.inl (hf hresult)

/-! ## All instructions that stay in their frame -/

variable {i : Instruction} {j k : Nat}

/-- The action faults for the reasons of `i` only, when `count` temporaries are still to be taken. -/
def Refuses (i : Instruction) (count : Nat) (a : Exec α) : Prop :=
  ∀ (m m' : Machine) (fault : Fault), m.frames ≠ [] → a m = .error fault m' →
    Refusal i count m fault

theorem Takes.refuses {a : Exec α} (ha : Takes k a) : Refuses i k a := by
  intro m m' fault hframes h
  rcases ha.error hframes h with hblames | ⟨rfl, hfew⟩
  · exact .operand hblames
  · exact .few hfew

/-- What is taken first is added to what is still to be taken. -/
theorem Takes.before {a : Exec α} {f : α → Exec β} (ha : Takes j a)
    (hf : ∀ x, Refuses i k (f x)) : Refuses i (k + j) (a >>= f) := by
  intro m m' fault hframes h
  rcases bind_eq_error.mp h with h | ⟨x, m₁, h₁, h₂⟩
  · rcases ha.error hframes h with hblames | ⟨rfl, hfew⟩
    · exact .operand hblames
    · exact .few (by omega)
  · have lighter := ha.ok h₁
    have hlater := hf x m₁ m' fault (lighter.frames ▸ hframes) h₂
    exact hlater.of_lighter lighter

theorem refuses_popMany {count : Nat} {f : Array Value → Exec β}
    (hf : ∀ vs, Refuses i 0 (f vs)) : Refuses i count (popMany count >>= f) := by
  have h := (takes_popMany count).before hf
  rwa [Nat.zero_add] at h

theorem Refuses.proceed {a : Exec Unit} (ha : Refuses i k a) : Refuses i k (proceed a) := by
  intro m m' fault hframes h
  rcases bind_eq_error.mp h with h | ⟨x, m₁, -, h⟩
  · exact ha m m' fault hframes h
  · cases h

theorem refuses_push (hpushes : i.pushes = 1) (v : Value) : Refuses i 0 (push v) := by
  intro m m' fault _ h
  unfold push at h
  split at h
  · cases h
  · cases h
    exact .full hpushes (by omega)

theorem refuses_jump (hjumps : i.opcode.jumps = true) : Refuses i 0 (jump i.first) := by
  intro m m' fault hframes h
  unfold jump at h
  split at h
  · contradiction
  · next frame callers hactive =>
    unfold Frame.jump at h
    by_cases htarget : frame.code.size < i.first
    · simp only [if_pos htarget] at h
      cases h
      exact .beyond hjumps hactive htarget
    · simp only [if_neg htarget] at h
      cases h

theorem refuses_binary (hpushes : i.pushes = 1) :
    Refuses i 2 (do
      let right ← pop
      let left ← pop
      push (← attempt fun heap => heap.binary i.opcode left right)) := by
  refine takes_pop.before fun right => takes_pop.before fun left => ?_
  exact (takes_attempt Heap.blames_binary).before (refuses_push hpushes)

theorem refuses_pure_binary (hpushes : i.pushes = 1) (f : Value → Value → Value) :
    Refuses i 2 (do
      let right ← pop
      let left ← pop
      push (f left right)) :=
  takes_pop.before fun _ => takes_pop.before fun _ => refuses_push hpushes _

theorem refuses_unary (hpushes : i.pushes = 1) :
    Refuses i 1 (do
      let operand ← pop
      push (← query fun _ => operand.unary i.opcode)) :=
  takes_pop.before fun _ => (takes_query Value.blames_unary).before (refuses_push hpushes)

theorem refuses_makeHash (hpushes : i.pushes = 1) :
    Refuses i i.first (do
      let items ← popMany i.first
      let entries ← query fun _ => hashOf (pairs items.toList)
      push (← create fun heap => heap.newHash entries)) := by
  refine refuses_popMany fun items => (takes_query blames_hashOf).before fun entries => ?_
  exact (takes_create _).before (refuses_push hpushes)

/-- **Why an instruction is refused that stays in its frame.** With an active frame, there is no other
reason than those of `Refusal`. -/
theorem refuses_execute (host : Host) (i : Instruction) (hop : i.opcode.transfers = false) :
    Refuses i i.pops (execute host i) := by
  obtain ⟨op, operands⟩ := i
  -- each case follows the actions of the instruction one by one, up to its last
  cases op with
  | loadConstant => exact .proceed ((takes_constant _).before (refuses_push rfl))
  | loadTrue | loadFalse | loadNull => exact .proceed (refuses_push rfl _)
  | loadBuiltin => exact .proceed ((takes_builtin _).before (refuses_push rfl))
  | assignGlobal =>
    refine .proceed ((takes_checkGlobal _).before fun _ => takes_pop.before fun v => ?_)
    exact (takes_setGlobal _ v).refuses
  | bindGlobal =>
    refine .proceed ((takes_checkGlobal _).before fun _ => takes_pop.before fun v => ?_)
    exact (takes_setGlobal _ v).before fun _ => refuses_push rfl v
  | loadGlobal => exact .proceed ((takes_global _).before (refuses_push rfl))
  | assignLocal =>
    refine .proceed ((takes_localSlot _).before fun place => takes_pop.before fun v => ?_)
    exact (takes_setSlot place v).refuses
  | bindLocal =>
    refine .proceed ((takes_localSlot _).before fun place => takes_pop.before fun v => ?_)
    exact (takes_setSlot place v).before fun _ => refuses_push rfl v
  | loadLocal =>
    refine .proceed ((takes_localSlot _).before fun place => ?_)
    exact (takes_slot place).before (refuses_push rfl)
  | loadFree =>
    refine .proceed (takes_frame.before fun frame => ?_)
    refine (takes_query fun {heap fault} h => ?_).before (refuses_push rfl)
    split at h
    · cases h
    · cases h
      rfl
  | setSelf =>
    refine .proceed (takes_frame.before fun frame => ?_)
    refine (takes_query fun {heap fault} h => ?_).before fun _ => (takes_create _).refuses
    split at h
    · cases h
    · cases h
      rfl
  | loadModule =>
    refine .proceed (takes_pop.before fun name => ?_)
    exact (takes_moduleNamed name).before (refuses_push rfl)
  | getItem =>
    refine .proceed (takes_pop.before fun index => takes_pop.before fun container => ?_)
    exact (takes_query Heap.blames_getItem).before (refuses_push rfl)
  | setItem =>
    refine .proceed (takes_pop.before fun v => takes_pop.before fun index => ?_)
    refine takes_pop.before fun container => (takes_query Heap.blames_locate).before fun place => ?_
    exact (takes_create _).refuses
  | makeArray =>
    refine .proceed (refuses_popMany fun elements => ?_)
    exact (takes_create _).before (refuses_push rfl)
  | makeHash =>
    refine .proceed ?_
    -- an odd operand is refused before anything is taken
    split
    · exact (takes_throw rfl).before fun _ => refuses_makeHash rfl
    · exact refuses_makeHash rfl
  | makeClosure =>
    refine .proceed ((takes_routine _).before fun routine => refuses_popMany fun captures => ?_)
    exact (takes_create _).before fun closure => refuses_push rfl _
  | pop => exact .proceed (takes_pop.before fun v => (takes_discard v).refuses)
  | noop => exact .proceed (takes_pure _).refuses
  | add | sub | mul | div | mod | bitwiseOr | bitwiseXor | bitwiseAnd | leftShift | rightShift
  | greaterThan | greaterThanEqual => exact .proceed (refuses_binary rfl)
  | equal => exact .proceed (refuses_pure_binary rfl fun l r => .boolean (l.equals r))
  | notEqual => exact .proceed (refuses_pure_binary rfl fun l r => .boolean !(l.equals r))
  | or => exact .proceed (refuses_pure_binary rfl fun l r => .boolean (l.isTruthy || r.isTruthy))
  | and => exact .proceed (refuses_pure_binary rfl fun l r => .boolean (l.isTruthy && r.isTruthy))
  | not | minus | bitwiseNot => exact .proceed (refuses_unary rfl)
  | jump => exact .proceed (refuses_jump rfl)
  | jumpIfFalse =>
    refine .proceed (takes_pop.before fun condition => ?_)
    split
    · exact refuses_jump rfl
    · exact (takes_pure _).refuses
  | call | bareReturn | returnValue => cases hop

end Exec

end ClosureMachine
