import ClosureMachine.Proofs.Machine.Operands

/-!
# What an instruction does

All instructions but the call and the two returns have one shape: they take a number of temporaries
that the instruction alone decides (`Instruction.pops`), and end with one write or push (`Commit`).
`execute_straight` says so of every such instruction at once; what it does, and where it can
fault, is read off that theorem and not off the 42 instructions again.

The two that bind a variable write before they push. They have just taken the value that they
put back, so there is room for it (`ends_pop_push`) and the write is not followed by a fault.
-/

namespace ClosureMachine

/-- Whether an operation passes control from frame to frame. -/
def Opcode.transfers : Opcode → Bool
  | call | bareReturn | returnValue => true
  | _ => false

namespace Instruction

/-- How many temporaries an instruction takes that stays in its frame. -/
def pops (i : Instruction) : Nat :=
  match i.opcode with
  | .setItem => 3
  | .getItem | .add | .sub | .mul | .div | .mod | .or | .and | .bitwiseOr | .bitwiseXor
  | .bitwiseAnd | .leftShift | .rightShift | .equal | .notEqual | .greaterThan
  | .greaterThanEqual => 2
  | .assignGlobal | .bindGlobal | .assignLocal | .bindLocal | .loadModule | .pop | .not | .minus
  | .bitwiseNot | .jumpIfFalse => 1
  | .makeArray | .makeHash => i.first
  | .makeClosure => i.second
  | _ => 0

/-- How many values an instruction pushes that stays in its frame. -/
def pushes (i : Instruction) : Nat :=
  match i.opcode with
  | .assignGlobal | .assignLocal | .setSelf | .setItem | .pop | .noop | .jump | .jumpIfFalse => 0
  | _ => 1

end Instruction

/-- The end of an instruction: `m'` comes of `m` by what is pushed or written when nothing can
fault any more. -/
inductive Commit (i : Instruction) (m : Machine) : Machine → Prop
  | nothing (hop : i.opcode = .noop ∨ i.opcode = .jumpIfFalse) : Commit i m m
  | push (v : Value) (hpushes : i.pushes = 1) (room : m.stack.size < m.limits.stackSize) :
      Commit i m { m with stack := m.stack.push v }
  | discard (v : Value) (hop : i.opcode = .pop) : Commit i m { m with lastPopped := v }
  | assignGlobal (v : Value) (hop : i.opcode = .assignGlobal) :
      Commit i m { m with globals := m.globals.setIfInBounds i.first v }
  | bindGlobal (v : Value) (hop : i.opcode = .bindGlobal)
      (room : m.stack.size < m.limits.stackSize) :
      Commit i m { m with
        globals := m.globals.setIfInBounds i.first v
        stack := m.stack.push v }
  | assignLocal (v : Value) {frame : Frame} {callers : List Frame} (hop : i.opcode = .assignLocal)
      (hframes : m.frames = frame :: callers) (hslot : i.first < frame.slots) :
      Commit i m { m with stack := m.stack.setIfInBounds (frame.base + i.first) v }
  | bindLocal (v : Value) {frame : Frame} {callers : List Frame} (hop : i.opcode = .bindLocal)
      (hframes : m.frames = frame :: callers) (hslot : i.first < frame.slots)
      (room : m.stack.size < m.limits.stackSize) :
      Commit i m { m with
        stack := (m.stack.setIfInBounds (frame.base + i.first) v).push v }
  | setSelf {frame : Frame} {callers : List Frame} (hop : i.opcode = .setSelf)
      (hframes : m.frames = frame :: callers) :
      Commit i m { m with
        heap := m.heap.setCapture frame.closure i.first (.closure frame.closure) }
  | setItem (place : Heap.Place) (v : Value) (hop : i.opcode = .setItem) :
      Commit i m { m with heap := m.heap.write place v }
  | jump {frame : Frame} {callers : List Frame} (hop : i.opcode = .jump ∨ i.opcode = .jumpIfFalse)
      (hframes : m.frames = frame :: callers) (htarget : i.first ≤ frame.code.size) :
      Commit i m { m with frames := { frame with ip := i.first } :: callers }

/-- The end of an instruction leaves the call stack alone, but for a jump of the active frame. -/
theorem Commit.frames_eq {i : Instruction} {m m' : Machine} {frame : Frame} {callers : List Frame}
    (hframes : m.frames = frame :: callers) (hcommit : Commit i m m') :
    ∃ ip, m'.frames = { frame with ip } :: callers
      ∧ (ip = frame.ip ∨ ip = i.first ∧ (i.opcode = .jump ∨ i.opcode = .jumpIfFalse)) := by
  cases hcommit with
  | jump hop hframes' =>
    obtain ⟨rfl, rfl⟩ := List.cons.inj (hframes.symm.trans hframes')
    exact ⟨i.first, rfl, Or.inr ⟨rfl, hop⟩⟩
  | _ => exact ⟨frame.ip, hframes, Or.inl rfl⟩

namespace Exec

variable {α : Type}

/-- The action takes `count` temporaries and ends with a step of `commit`. If it faults, it has done
no more than to take temporaries. -/
structure Ends (count : Nat) (commit : Machine → Machine → Prop) (a : Exec Unit) : Prop where
  ok : ∀ {m m'}, m.floor ≤ m.stack.size → m.stack.size ≤ m.limits.stackSize → a m = .ok () m' →
    ∃ m₁, Took count m m₁ ∧ commit m₁ m'
  error : ∀ {m e m'}, m.floor ≤ m.stack.size → m.stack.size ≤ m.limits.stackSize →
    a m = .error e m' → ∃ k ≤ count, Took k m m'

variable {commit : Machine → Machine → Prop}

theorem Gathers.ends {j k : Nat} {a : Exec α} {f : α → Exec Unit} (ha : Gathers j a)
    (hf : ∀ x, Ends k commit (f x)) : Ends (j + k) commit (a >>= f) where
  ok hfloor hsize h := by
    obtain ⟨x, m₁, h₁, h₂⟩ := bind_eq_ok.mp h
    have took := ha.ok hfloor h₁
    obtain ⟨m₂, took', hcommit⟩ := (hf x).ok took.floor_le (took.size_le hsize) h₂
    exact ⟨m₂, took.trans took', hcommit⟩
  error hfloor hsize h := by
    rcases bind_eq_error.mp h with h₁ | ⟨x, m₁, h₁, h₂⟩
    · obtain ⟨i, hi, took⟩ := ha.error hfloor h₁
      exact ⟨i, by omega, took⟩
    · have took := ha.ok hfloor h₁
      obtain ⟨i, hi, took'⟩ := (hf x).error took.floor_le (took.size_le hsize) h₂
      exact ⟨j + i, by omega, took.trans took'⟩

theorem Gathers.ends_same {count : Nat} {a : Exec α} {f : α → Exec Unit} (ha : Gathers 0 a)
    (hf : ∀ x, Ends count commit (f x)) : Ends count commit (a >>= f) := by
  have h := ha.ends hf
  rwa [Nat.zero_add] at h

theorem Reads.ends {count : Nat} {a : Exec α} {f : α → Exec Unit} (ha : Reads a)
    (hf : ∀ x, Ends count commit (f x)) : Ends count commit (a >>= f) :=
  ha.gathers.ends_same hf

theorem ends_pop {count : Nat} {f : Value → Exec Unit} (hf : ∀ v, Ends count commit (f v)) :
    Ends (count + 1) commit (pop >>= f) := by
  rw [Nat.add_comm]
  exact gathers_pop.ends hf

theorem ends_popMany {count : Nat} {f : Array Value → Exec Unit}
    (hf : ∀ vs, Ends 0 commit (f vs)) : Ends count commit (popMany count >>= f) :=
  (gathers_popMany count).ends hf

/-- An action that cannot fault and does as `commit` says. -/
theorem ends_of_ok {a : Exec Unit}
    (h : ∀ m, m.floor ≤ m.stack.size → ∃ m', a m = .ok () m' ∧ commit m m') : Ends 0 commit a where
  ok {m m'} hfloor _ ha := by
    obtain ⟨m₁, hok, hcommit⟩ := h m hfloor
    rw [hok] at ha
    cases ha
    exact ⟨m, .refl hfloor, hcommit⟩
  error {m e m'} hfloor _ ha := by
    obtain ⟨m₁, hok, -⟩ := h m hfloor
    rw [hok] at ha
    cases ha

/-- A temporary that there is can be taken. -/
theorem pop_of_lt {m : Machine} (henough : m.floor < m.stack.size) :
    ∃ v, m.stack.back? = some v ∧ pop m = .ok v { m with stack := m.stack.pop } := by
  refine ⟨m.stack.back (by omega), ?_, ?_⟩
  · rw [Array.back?_eq_getElem?, Array.back_eq_getElem (by omega)]
    exact Array.getElem?_eq_getElem (by omega)
  · unfold pop
    rw [dif_pos henough]

theorem pop_of_not_lt {m : Machine} (henough : ¬m.floor < m.stack.size) :
    pop m = .error .stackUnderflow m := by
  unfold pop
  rw [dif_neg henough]

theorem push_of_lt {m : Machine} (v : Value) (room : m.stack.size < m.limits.stackSize) :
    push v m = .ok () { m with stack := m.stack.push v } := by
  unfold push
  rw [if_pos room]

theorem push_eq_ok {m m' : Machine} {v : Value} (h : push v m = .ok () m') :
    m.stack.size < m.limits.stackSize ∧ m' = { m with stack := m.stack.push v } := by
  unfold push at h
  split at h
  · cases h
    exact ⟨by assumption, rfl⟩
  · cases h

theorem ends_push {i : Instruction} (hpushes : i.pushes = 1) (v : Value) :
    Ends 0 (Commit i) (push v) where
  ok hfloor _ h := by
    obtain ⟨room, rfl⟩ := push_eq_ok h
    exact ⟨_, .refl hfloor, .push v hpushes room⟩
  error hfloor _ h := by
    unfold push at h
    split at h
    · cases h
    · cases h
      exact ⟨0, Nat.le_refl 0, .refl hfloor⟩

/-! ## Instructions that write a variable

The value to be written is taken after the check of its place. The frames stay as they are
in between, so the place found by the check is still the one that is meant. -/

theorem localSlot_eq_ok {m m' : Machine} {index place : Nat}
    (h : localSlot index m = .ok place m') :
    ∃ frame callers, m.frames = frame :: callers ∧ index < frame.slots
      ∧ place = frame.base + index ∧ m' = m := by
  unfold localSlot at h
  obtain ⟨f, m₁, h₁, h₂⟩ := bind_eq_ok.mp h
  unfold Exec.frame at h₁
  split at h₁
  · cases h₁
  · next frame callers hframes =>
    cases h₁
    split at h₂
    · cases h₂
      exact ⟨_, _, hframes, by assumption, rfl, rfl⟩
    · cases h₂

/-- A write that cannot fault, after a value has been taken. -/
theorem ends_pop_write {f : Value → Exec Unit}
    (hf : ∀ m v, ∃ m', f v m = .ok () m' ∧ commit m m') : Ends 1 commit (pop >>= f) :=
  ends_pop fun v => ends_of_ok fun m _ => hf m v

/-- After a value has been taken there is room to put it back, so a write before that is not
followed by a fault. -/
theorem ends_pop_push {f : Value → Exec Unit}
    (hf : ∀ m v, m.stack.size < m.limits.stackSize → ∃ m', f v m = .ok () m' ∧ commit m m') :
    Ends 1 commit (pop >>= f) where
  ok {m m'} hfloor hsize h := by
    obtain ⟨v, m₁, h₁, h₂⟩ := bind_eq_ok.mp h
    have took := gathers_pop.ok hfloor h₁
    -- one value is gone, so the stack is below its limit
    have hroom : m₁.stack.size < m₁.limits.stackSize := by
      have := took.enough
      rw [took.size, took.limits]
      omega
    obtain ⟨m₂, hok, hcommit⟩ := hf m₁ v hroom
    rw [hok] at h₂
    cases h₂
    exact ⟨m₁, took, hcommit⟩
  error {m e m'} hfloor hsize h := by
    rcases bind_eq_error.mp h with h₁ | ⟨v, m₁, h₁, h₂⟩
    · exact gathers_pop.error hfloor h₁
    · have took := gathers_pop.ok hfloor h₁
      have hroom : m₁.stack.size < m₁.limits.stackSize := by
        have := took.enough
        rw [took.size, took.limits]
        omega
      obtain ⟨m₂, hok, -⟩ := hf m₁ v hroom
      rw [hok] at h₂
      cases h₂

/-- What an action has found out about the frames still holds when operands have been taken. -/
theorem Reads.ends_frames {count : Nat} {a : Exec α} {f : α → Exec Unit}
    {P : α → List Frame → Prop} (ha : Reads a)
    (hP : ∀ {m x m'}, a m = .ok x m' → P x m.frames)
    (hf : ∀ x, Ends count (fun m m' => P x m.frames → commit m m') (f x)) :
    Ends count commit (a >>= f) where
  ok {m m'} hfloor hsize h := by
    obtain ⟨x, m₁, h₁, h₂⟩ := bind_eq_ok.mp h
    have took := ha.gathers.ok hfloor h₁
    obtain ⟨m₂, took', hcommit⟩ := (hf x).ok took.floor_le (took.size_le hsize) h₂
    refine ⟨m₂, Nat.zero_add count ▸ took.trans took', hcommit ?_⟩
    rw [took'.frames, took.frames]
    exact hP h₁
  error {m e m'} hfloor hsize h := by
    rcases bind_eq_error.mp h with h₁ | ⟨x, m₁, h₁, h₂⟩
    · obtain ⟨k, hk, took⟩ := ha.gathers.error hfloor h₁
      exact ⟨k, by omega, took⟩
    · have took := ha.gathers.ok hfloor h₁
      obtain ⟨k, hk, took'⟩ := (hf x).error took.floor_le (took.size_le hsize) h₂
      exact ⟨k, hk, Nat.zero_add k ▸ took.trans took'⟩

def IsLocal (index place : Nat) (frames : List Frame) : Prop :=
  ∃ frame callers, frames = frame :: callers ∧ index < frame.slots ∧ place = frame.base + index

theorem ends_localSlot {count index : Nat} {f : Nat → Exec Unit}
    (hf : ∀ place, Ends count (fun m m' => IsLocal index place m.frames → commit m m') (f place)) :
    Ends count commit (localSlot index >>= f) := by
  refine (reads_localSlot index).ends_frames (fun {m place m'} h => ?_) hf
  obtain ⟨frame, callers, hframes, hslot, hplace, -⟩ := localSlot_eq_ok h
  exact ⟨frame, callers, hframes, hslot, hplace⟩

theorem ends_frame {count : Nat} {f : Frame → Exec Unit}
    (hf : ∀ active,
      Ends count (fun m m' => (∃ callers, m.frames = active :: callers) → commit m m') (f active)) :
    Ends count commit (frame >>= f) := by
  refine reads_frame.ends_frames (P := fun active frames => ∃ callers, frames = active :: callers)
    (fun {m active m'} h => ?_) hf
  unfold frame at h
  split at h
  · cases h
  · next callers hframes =>
    cases h
    exact ⟨callers, hframes⟩

/-! ## Instructions that jump -/

theorem jump_eq_ok {m m' : Machine} {target : Nat} (h : jump target m = .ok () m') :
    ∃ frame callers, m.frames = frame :: callers ∧ target ≤ frame.code.size
      ∧ m' = { m with frames := { frame with ip := target } :: callers } := by
  unfold jump at h
  split at h
  · cases h
  · next frame callers hframes =>
    unfold Frame.jump at h
    by_cases htarget : frame.code.size < target
    · simp only [if_pos htarget] at h
      cases h
    · simp only [if_neg htarget] at h
      cases h
      exact ⟨frame, callers, hframes, by omega, rfl⟩

theorem ends_jump {i : Instruction} (hop : i.opcode = .jump ∨ i.opcode = .jumpIfFalse) :
    Ends 0 (Commit i) (jump i.first) where
  ok {m m'} hfloor _ h := by
    obtain ⟨frame, callers, hframes, htarget, rfl⟩ := jump_eq_ok h
    exact ⟨m, .refl hfloor, .jump hop hframes htarget⟩
  error {m e m'} hfloor _ h := by
    unfold jump at h
    split at h
    · cases h
      exact ⟨0, Nat.le_refl 0, .refl hfloor⟩
    · split at h
      · cases h
      · cases h
        exact ⟨0, Nat.le_refl 0, .refl hfloor⟩

/-! ## All instructions that stay in their frame -/

/-- The operations on two values: both are taken, one comes back. -/
theorem ends_binary {i : Instruction} (hpushes : i.pushes = 1) :
    Ends 2 (Commit i) (do
      let right ← pop
      let left ← pop
      push (← attempt fun heap => heap.binary i.opcode left right)) := by
  refine ends_pop fun right => ends_pop fun left => ?_
  exact (gathers_attempt fun h => Heap.extends_of_binary h).ends_same (ends_push hpushes)

/-- The operations on two values that cannot fault once they have them. -/
theorem ends_pure_binary {i : Instruction} (hpushes : i.pushes = 1) (f : Value → Value → Value) :
    Ends 2 (Commit i) (do
      let right ← pop
      let left ← pop
      push (f left right)) :=
  ends_pop fun right => ends_pop fun left => ends_push hpushes (f left right)

theorem ends_unary {i : Instruction} (hpushes : i.pushes = 1) :
    Ends 1 (Commit i) (do
      let operand ← pop
      push (← query fun _ => operand.unary i.opcode)) :=
  ends_pop fun _ => (reads_query _).ends (ends_push hpushes)

theorem ends_makeHash {i : Instruction} (hpushes : i.pushes = 1) :
    Ends i.first (Commit i) (do
      let items ← popMany i.first
      let entries ← query fun _ => hashOf (pairs items.toList)
      push (← create fun heap => heap.newHash entries)) := by
  refine ends_popMany fun items => (reads_query _).ends fun entries => ?_
  exact (gathers_create fun heap => heap.extends_newHash entries).ends_same (ends_push hpushes)

/-- **What an instruction does that stays in its frame.** It takes `i.pops` temporaries and ends with
a commit; until then it only looks, so a fault undoes nothing. -/
theorem execute_straight (host : Host) (i : Instruction) (hi : i.opcode.transfers = false) :
    ∃ a, execute host i = proceed a ∧ Ends i.pops (Commit i) a := by
  obtain ⟨op, operands⟩ := i
  -- each case follows the actions of the instruction one by one, up to its last
  cases op with
  | loadConstant => exact ⟨_, rfl, (reads_constant _).ends (ends_push rfl)⟩
  | loadTrue => exact ⟨_, rfl, ends_push rfl _⟩
  | loadFalse => exact ⟨_, rfl, ends_push rfl _⟩
  | loadNull => exact ⟨_, rfl, ends_push rfl _⟩
  | loadBuiltin => exact ⟨_, rfl, (reads_builtin _).ends (ends_push rfl)⟩
  | assignGlobal =>
    refine ⟨_, rfl, (reads_checkGlobal _).ends fun _ => ?_⟩
    exact ends_pop_write fun m v => ⟨_, rfl, .assignGlobal v rfl⟩
  | bindGlobal =>
    refine ⟨_, rfl, (reads_checkGlobal _).ends fun _ => ?_⟩
    exact ends_pop_push fun m v room => ⟨_, push_of_lt v room, .bindGlobal v rfl room⟩
  | loadGlobal => exact ⟨_, rfl, (reads_global _).ends (ends_push rfl)⟩
  | assignLocal =>
    refine ⟨_, rfl, ends_localSlot fun place => ends_pop_write fun m v => ⟨_, rfl, ?_⟩⟩
    rintro ⟨frame, callers, hframes, hslot, rfl⟩
    exact .assignLocal v rfl hframes hslot
  | bindLocal =>
    refine ⟨_, rfl, ends_localSlot fun place => ends_pop_push fun m v room => ?_⟩
    refine ⟨_, push_of_lt v (by simpa using room), ?_⟩
    rintro ⟨frame, callers, hframes, hslot, rfl⟩
    exact .bindLocal v rfl hframes hslot room
  | loadLocal =>
    refine ⟨_, rfl, (reads_localSlot _).ends fun place => ?_⟩
    exact (reads_slot place).ends (ends_push rfl)
  | loadFree =>
    refine ⟨_, rfl, reads_frame.ends fun frame => ?_⟩
    exact (reads_query _).ends (ends_push rfl)
  | setSelf =>
    refine ⟨_, rfl, ends_frame fun frame => (reads_query _).ends fun _ => ?_⟩
    refine ends_of_ok fun m _ => ⟨_, rfl, ?_⟩
    rintro ⟨callers, hframes⟩
    exact .setSelf rfl hframes
  | loadModule =>
    refine ⟨_, rfl, ends_pop fun name => ?_⟩
    exact (reads_moduleNamed name).ends (ends_push rfl)
  | getItem =>
    refine ⟨_, rfl, ends_pop fun index => ends_pop fun container => ?_⟩
    exact (reads_query _).ends (ends_push rfl)
  | setItem =>
    refine ⟨_, rfl, ends_pop fun v => ends_pop fun index => ends_pop fun container => ?_⟩
    refine (reads_query _).ends fun place => ?_
    exact ends_of_ok fun m _ => ⟨_, rfl, .setItem place v rfl⟩
  | makeArray =>
    refine ⟨_, rfl, ends_popMany fun elements => ?_⟩
    exact (gathers_create fun heap => heap.extends_newArray _).ends_same (ends_push rfl)
  | makeHash =>
    refine ⟨_, rfl, ?_⟩
    -- an odd operand is refused before anything is taken
    split
    · exact (Reads.throw _).ends fun _ => ends_makeHash rfl
    · exact ends_makeHash rfl
  | makeClosure =>
    refine ⟨_, rfl, (reads_routine _).ends fun routine => ends_popMany fun captures => ?_⟩
    exact (gathers_create fun heap => heap.extends_newClosure _ _).ends_same
      fun closure => ends_push rfl _
  | pop => exact ⟨_, rfl, ends_pop_write fun m v => ⟨_, rfl, .discard v rfl⟩⟩
  | noop => exact ⟨_, rfl, ends_of_ok fun m _ => ⟨m, rfl, .nothing (Or.inl rfl)⟩⟩
  | add => exact ⟨_, rfl, ends_binary rfl⟩
  | sub => exact ⟨_, rfl, ends_binary rfl⟩
  | mul => exact ⟨_, rfl, ends_binary rfl⟩
  | div => exact ⟨_, rfl, ends_binary rfl⟩
  | mod => exact ⟨_, rfl, ends_binary rfl⟩
  | bitwiseOr => exact ⟨_, rfl, ends_binary rfl⟩
  | bitwiseXor => exact ⟨_, rfl, ends_binary rfl⟩
  | bitwiseAnd => exact ⟨_, rfl, ends_binary rfl⟩
  | leftShift => exact ⟨_, rfl, ends_binary rfl⟩
  | rightShift => exact ⟨_, rfl, ends_binary rfl⟩
  | greaterThan => exact ⟨_, rfl, ends_binary rfl⟩
  | greaterThanEqual => exact ⟨_, rfl, ends_binary rfl⟩
  | equal => exact ⟨_, rfl, ends_pure_binary rfl fun l r => .boolean (l.equals r)⟩
  | notEqual => exact ⟨_, rfl, ends_pure_binary rfl fun l r => .boolean !(l.equals r)⟩
  | or => exact ⟨_, rfl, ends_pure_binary rfl fun l r => .boolean (l.isTruthy || r.isTruthy)⟩
  | and => exact ⟨_, rfl, ends_pure_binary rfl fun l r => .boolean (l.isTruthy && r.isTruthy)⟩
  | not => exact ⟨_, rfl, ends_unary rfl⟩
  | minus => exact ⟨_, rfl, ends_unary rfl⟩
  | bitwiseNot => exact ⟨_, rfl, ends_unary rfl⟩
  | jump => exact ⟨_, rfl, ends_jump (Or.inl rfl)⟩
  | jumpIfFalse =>
    refine ⟨_, rfl, ends_pop fun condition => ?_⟩
    split
    · exact ends_jump (Or.inr rfl)
    · exact ends_of_ok fun m _ => ⟨m, rfl, .nothing (Or.inr rfl)⟩
  | call => cases hi
  | bareReturn => cases hi
  | returnValue => cases hi

end Exec

end ClosureMachine
