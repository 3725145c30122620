import ClosureMachine.Proofs.Machine.Faults
import ClosureMachine.Proofs.Machine.Simulation

/-!
# Calls in their context

What a call does depends on the frames and the stack that it finds below only through what they
leave it of the limits. `Context.put` places the same call in any context: the bases of its frames
go up by the height of the stack below, and nothing else changes.

* **`Alongside k k' m m'`** says that `m` and `m'` are the same call, put in the contexts `k` and
  `k'`.
* **`respected_contexts`**: every action keeps that up, or one of the machines has no room.
* **`Alongside.step`** is the step, **`call_independent`** the whole call.

An action that never looks below the floor of the active frame is the same wherever it is put
(`Exec.Portable`); most actions are of this kind, and so are their sequences.
-/

namespace ClosureMachine

/-- What a call finds: the stack up to its callee, and the frames of its callers. -/
structure Context where
  below : Array Value
  lower : List Frame

/-- A frame as it is when `height` values are put below its stack. -/
def Frame.shift (height : Nat) (frame : Frame) : Frame :=
  { frame with base := height + frame.base }

/-- The machine `c` with its stack and its frames put above those of a context. -/
def Context.put (k : Context) (limits : Limits) (c : Machine) : Machine :=
  { c with
    stack := k.below ++ c.stack
    frames := c.frames.map (Frame.shift k.below.size) ++ k.lower
    limits }

/-- The frames of a call by itself: the first has no callee on the stack, all others have theirs. -/
def Rooted : List Frame → Prop
  | [] => False
  | [first] => first.base = 0
  | frame :: caller :: callers => 0 < frame.base ∧ Rooted (caller :: callers)

/-- The two machines are the same call in two contexts. -/
def Alongside (k k' : Context) (m m' : Machine) : Prop :=
  ∃ (c : Machine) (limits limits' : Limits),
    Rooted c.frames ∧ m = k.put limits c ∧ m' = k'.put limits' c

/-! ## Frames and stacks in a context -/

theorem Rooted.goto {frame : Frame} {callers : List Frame} (h : Rooted (frame :: callers))
    (ip : Nat) : Rooted ({ frame with ip } :: callers) := by
  cases callers with
  | nil => exact h
  | cons caller rest => exact h

theorem Rooted.exists_cons {frames : List Frame} (h : Rooted frames) :
    ∃ frame callers, frames = frame :: callers := by
  cases frames with
  | nil => cases h
  | cons frame callers => exact ⟨frame, callers, rfl⟩

namespace Context

variable (k : Context) (limits : Limits) {c : Machine}

theorem size_put : (k.put limits c).stack.size = k.below.size + c.stack.size :=
  Array.size_append ..

theorem frames_put {frame : Frame} {callers : List Frame} (hframes : c.frames = frame :: callers) :
    (k.put limits c).frames
      = frame.shift k.below.size :: (callers.map (Frame.shift k.below.size) ++ k.lower) := by
  unfold put
  rw [hframes]
  rfl

/-- To change what is above the context is to change the stack of the call. -/
theorem put_stack {stack above : Array Value} (h : stack = k.below ++ above) :
    { k.put limits c with stack } = k.put limits { c with stack := above } := by
  rw [h]
  rfl

theorem floor_put (h : Rooted c.frames) : (k.put limits c).floor = k.below.size + c.floor := by
  obtain ⟨frame, callers, hframes⟩ := h.exists_cons
  unfold Machine.floor
  rw [k.frames_put limits hframes, hframes]
  exact Nat.add_assoc ..

end Context

/-- What is above a height of a stack that lies on another. -/
theorem take_append (below stack : Array Value) (height : Nat) :
    (below ++ stack).take (below.size + height) = below ++ stack.take height := by
  simp [Array.extract_append, Array.extract_eq_self_of_le]

theorem extract_append_above (below stack : Array Value) (start : Nat) :
    (below ++ stack).extract (below.size + start) (below ++ stack).size
      = stack.extract start stack.size := by
  rw [Array.size_append, Array.extract_append,
    Array.extract_empty_of_size_le_start (by omega), Array.empty_append]
  congr 1 <;> omega

/-! ## Actions that are the same in every context -/

namespace Exec

variable {α β : Type}

/-- The result of an action by itself, put into a context. -/
def putResult (k : Context) (limits : Limits) :
    EStateM.Result Fault Machine α → EStateM.Result Fault Machine α
  | .ok x c => .ok x (k.put limits c)
  | .error fault c => .error fault (k.put limits c)

/-- The action does in every context what it does by itself, and the frames stay those of a call. -/
def Portable (a : Exec α) : Prop :=
  ∀ (k : Context) (limits : Limits) (c : Machine), Rooted c.frames →
    a (k.put limits c) = putResult k limits (a c) ∧ Rooted (Machine.ofResult (a c)).frames

theorem Portable.bind {a : Exec α} {f : α → Exec β} (ha : Portable a) (hf : ∀ x, Portable (f x)) :
    Portable (a >>= f) := by
  intro k limits c hrooted
  obtain ⟨hput, hrooted'⟩ := ha k limits c hrooted
  rw [bind_apply, bind_apply, hput]
  generalize a c = r at hrooted'
  cases r with
  | ok x c' => exact hf x k limits c' hrooted'
  | error fault c' => exact ⟨rfl, hrooted'⟩

theorem portable_pop : Portable pop := by
  intro k limits c hrooted
  unfold pop
  by_cases henough : c.floor < c.stack.size
  · have henough' : (k.put limits c).floor < (k.put limits c).stack.size := by
      rw [k.floor_put limits hrooted, k.size_put limits]
      omega
    have hpos : 0 < c.stack.size := by omega
    rw [dif_pos henough, dif_pos henough']
    refine ⟨?_, hrooted⟩
    have hback : (k.below ++ c.stack).back (by simp; omega) = c.stack.back hpos :=
      Array.back_append_of_size_pos hpos
    have hpop : (k.below ++ c.stack).pop = k.below ++ c.stack.pop :=
      Array.pop_append_of_ne_empty (Array.ne_empty_of_size_pos hpos)
    exact congr (congrArg EStateM.Result.ok hback) (k.put_stack limits hpop)
  · have henough' : ¬(k.put limits c).floor < (k.put limits c).stack.size := by
      rw [k.floor_put limits hrooted, k.size_put limits]
      omega
    rw [dif_neg henough, dif_neg henough']
    exact ⟨rfl, hrooted⟩

theorem portable_popMany (count : Nat) : Portable (popMany count) := by
  intro k limits c hrooted
  unfold popMany
  by_cases henough : c.floor + count ≤ c.stack.size
  · have henough' : (k.put limits c).floor + count ≤ (k.put limits c).stack.size := by
      rw [k.floor_put limits hrooted, k.size_put limits]
      omega
    have hstart : (k.put limits c).stack.size - count
        = k.below.size + (c.stack.size - count) := by
      rw [k.size_put limits]
      omega
    rw [if_pos henough, if_pos henough', hstart]
    refine ⟨?_, hrooted⟩
    simp only [Array.shrink_eq_take]
    have hextract := extract_append_above k.below c.stack (c.stack.size - count)
    have htake := take_append k.below c.stack (c.stack.size - count)
    exact congr (congrArg EStateM.Result.ok hextract) (k.put_stack limits htake)
  · have henough' : ¬(k.put limits c).floor + count ≤ (k.put limits c).stack.size := by
      rw [k.floor_put limits hrooted, k.size_put limits]
      omega
    rw [if_neg henough, if_neg henough']
    exact ⟨rfl, hrooted⟩

theorem portable_constant (index : Nat) : Portable (constant index) := by
  intro k limits c hrooted
  unfold constant
  rw [show (k.put limits c).constants = c.constants from rfl]
  cases c.constants[index]? with
  | some v => exact ⟨rfl, hrooted⟩
  | none => exact ⟨rfl, hrooted⟩

theorem portable_builtin (index : Nat) : Portable (builtin index) := by
  intro k limits c hrooted
  unfold builtin
  rw [show (k.put limits c).builtins = c.builtins from rfl]
  cases c.builtins.get? index with
  | some b => exact ⟨rfl, hrooted⟩
  | none => exact ⟨rfl, hrooted⟩

theorem portable_moduleNamed (name : Value) : Portable (moduleNamed name) := by
  intro k limits c hrooted
  unfold moduleNamed
  rw [show (k.put limits c).modules = c.modules from rfl]
  cases name with
  | string name =>
    dsimp only
    cases c.modules.find? name with
    | some module => exact ⟨rfl, hrooted⟩
    | none => exact ⟨rfl, hrooted⟩
  | _ => exact ⟨rfl, hrooted⟩

theorem portable_checkGlobal (index : Nat) : Portable (checkGlobal index) := by
  intro k limits c hrooted
  unfold checkGlobal
  rw [show (k.put limits c).globals = c.globals from rfl]
  by_cases h : index < c.globals.size
  · rw [if_pos h, if_pos h]
    exact ⟨rfl, hrooted⟩
  · rw [if_neg h, if_neg h]
    exact ⟨rfl, hrooted⟩

theorem portable_global (index : Nat) : Portable (global index) := by
  intro k limits c hrooted
  unfold global
  rw [show (k.put limits c).globals = c.globals from rfl]
  cases c.globals[index]? with
  | some v => exact ⟨rfl, hrooted⟩
  | none => exact ⟨rfl, hrooted⟩

theorem portable_setGlobal (index : Nat) (v : Value) : Portable (setGlobal index v) :=
  fun _ _ _ hrooted => ⟨rfl, hrooted⟩

theorem portable_discard (v : Value) : Portable (discard v) :=
  fun _ _ _ hrooted => ⟨rfl, hrooted⟩

theorem portable_query (f : Heap → Except Fault α) : Portable (query f) := by
  intro k limits c hrooted
  unfold query
  rw [show (k.put limits c).heap = c.heap from rfl]
  cases f c.heap with
  | ok x => exact ⟨rfl, hrooted⟩
  | error fault => exact ⟨rfl, hrooted⟩

theorem portable_onHeap (f : Heap → Except Fault α × Heap) : Portable (onHeap f) := by
  intro k limits c hrooted
  unfold onHeap
  dsimp only
  rw [show (k.put limits c).heap = c.heap from rfl]
  rcases f c.heap with ⟨x | fault, heap⟩
  · exact ⟨rfl, hrooted⟩
  · exact ⟨rfl, hrooted⟩

theorem jump_of_frames {m : Machine} {frame : Frame} {callers : List Frame} (target : Nat)
    (hframes : m.frames = frame :: callers) :
    jump target m = if frame.code.size < target then
        .error (.jumpOutOfRange target frame.code.size) m
      else .ok () { m with frames := { frame with ip := target } :: callers } := by
  unfold jump
  rw [hframes]
  unfold Frame.jump
  by_cases h : frame.code.size < target
  · simp only [if_pos h]
  · simp only [if_neg h]

/-- The stream of a frame does not depend on where the frame is. -/
theorem portable_jump (target : Nat) : Portable (jump target) := by
  intro k limits c hrooted
  obtain ⟨frame, callers, hframes⟩ := hrooted.exists_cons
  have hrooted' : Rooted (frame :: callers) := hframes ▸ hrooted
  -- streams are not part of a context: the target is in range in all of them or in none
  rw [jump_of_frames target (k.frames_put limits hframes), jump_of_frames target hframes,
    show (frame.shift k.below.size).code = frame.code from rfl]
  by_cases h : frame.code.size < target
  · rw [if_pos h, if_pos h]
    exact ⟨rfl, hrooted⟩
  · rw [if_neg h, if_neg h]
    exact ⟨rfl, hrooted'.goto target⟩

end Exec

/-! ## Every action keeps two contexts alongside -/

/-- The same call in two contexts, as long as neither machine runs out of room. -/
def Context.comparison (k k' : Context) : Comparison where
  related := Alongside k k'
  places place place' := ∃ j, place = k.below.size + j ∧ place' = k'.below.size + j
  left fault := fault.isOverflow = true
  right fault := fault.isOverflow = true

namespace Exec

variable {α : Type} {k k' : Context}

theorem Portable.same {a : Exec α} (ha : Portable a) : (k.comparison k').Same a := by
  rintro _ _ ⟨c, limits, limits', hrooted, rfl, rfl⟩
  obtain ⟨hput, hrooted'⟩ := ha k limits c hrooted
  rw [hput, (ha k' limits' c hrooted).1]
  generalize a c = r at hrooted'
  cases r with
  | ok x c' => exact .ok rfl ⟨c', limits, limits', hrooted', rfl, rfl⟩
  | error fault c' => exact .error ⟨c', limits, limits', hrooted', rfl, rfl⟩

theorem push_put (k : Context) (limits : Limits) (c : Machine) (v : Value) :
    push v (k.put limits c) = if k.below.size + c.stack.size < limits.stackSize then
        .ok () (k.put limits { c with stack := c.stack.push v })
      else .error .stackOverflow (k.put limits c) := by
  unfold push
  rw [k.size_put limits, show (k.put limits c).limits = limits from rfl]
  by_cases room : k.below.size + c.stack.size < limits.stackSize
  · rw [if_pos room, if_pos room]
    exact congrArg (EStateM.Result.ok ()) (k.put_stack limits Array.push_append)
  · rw [if_neg room, if_neg room]

theorem same_push (v : Value) : (k.comparison k').Same (push v) := by
  rintro _ _ ⟨c, limits, limits', hrooted, rfl, rfl⟩
  rw [push_put, push_put]
  by_cases room : k.below.size + c.stack.size < limits.stackSize
  · by_cases room' : k'.below.size + c.stack.size < limits'.stackSize
    · rw [if_pos room, if_pos room']
      exact .ok rfl ⟨{ c with stack := c.stack.push v }, limits, limits', hrooted, rfl, rfl⟩
    · rw [if_neg room']
      exact .right rfl
  · rw [if_neg room]
    exact .left rfl

theorem sim_frame :
    (k.comparison k').Sim (fun f f' => f.closure = f'.closure) frame frame := by
  rintro _ _ ⟨c, limits, limits', hrooted, rfl, rfl⟩
  obtain ⟨active, callers, hframes⟩ := hrooted.exists_cons
  rw [frame_of_frames (k.frames_put limits hframes),
    frame_of_frames (k'.frames_put limits' hframes)]
  exact .ok rfl ⟨c, limits, limits', hrooted, rfl, rfl⟩

theorem sim_localSlot (index : Nat) :
    (k.comparison k').Sim (k.comparison k').places (localSlot index) (localSlot index) := by
  rintro _ _ ⟨c, limits, limits', hrooted, rfl, rfl⟩
  obtain ⟨active, callers, hframes⟩ := hrooted.exists_cons
  unfold localSlot
  rw [bind_apply, bind_apply, frame_of_frames (k.frames_put limits hframes),
    frame_of_frames (k'.frames_put limits' hframes)]
  have h : Alongside k k' (k.put limits c) (k'.put limits' c) :=
    ⟨c, limits, limits', hrooted, rfl, rfl⟩
  by_cases hslot : index < active.slots
  · have hplaces : (k.comparison k').places (k.below.size + active.base + index)
        (k'.below.size + active.base + index) :=
      ⟨active.base + index, Nat.add_assoc .., Nat.add_assoc ..⟩
    show Comparison.Results _ _ ((if index < active.slots then _ else _ : Exec Nat) _)
      ((if index < active.slots then _ else _ : Exec Nat) _)
    rw [if_pos hslot, if_pos hslot]
    exact .ok hplaces h
  · show Comparison.Results _ _ ((if index < active.slots then _ else _ : Exec Nat) _)
      ((if index < active.slots then _ else _ : Exec Nat) _)
    rw [if_neg hslot, if_neg hslot]
    exact .error h

theorem sim_slot {place place' : Nat} (hplaces : (k.comparison k').places place place') :
    (k.comparison k').Sim Eq (slot place) (slot place') := by
  obtain ⟨j, rfl, rfl⟩ := hplaces
  rintro _ _ ⟨c, limits, limits', hrooted, rfl, rfl⟩
  have hvalue : ∀ below : Array Value, (below ++ c.stack)[below.size + j]? = c.stack[j]? :=
    fun below => by rw [Array.getElem?_append_right (by omega), Nat.add_sub_cancel_left]
  refine .ok ?_ ⟨c, limits, limits', hrooted, rfl, rfl⟩
  show (k.below ++ c.stack)[_]?.getD _ = (k'.below ++ c.stack)[_]?.getD _
  rw [hvalue, hvalue]

theorem sim_setSlot {place place' : Nat} (hplaces : (k.comparison k').places place place')
    (v : Value) : (k.comparison k').Sim Eq (setSlot place v) (setSlot place' v) := by
  obtain ⟨j, rfl, rfl⟩ := hplaces
  rintro _ _ ⟨c, limits, limits', hrooted, rfl, rfl⟩
  have hset : ∀ below : Array Value,
      (below ++ c.stack).setIfInBounds (below.size + j) v = below ++ c.stack.setIfInBounds j v :=
    fun below => by rw [Array.setIfInBounds_append_right (by omega), Nat.add_sub_cancel_left]
  exact .ok rfl ⟨{ c with stack := c.stack.setIfInBounds j v }, limits, limits', hrooted,
    k.put_stack limits (hset k.below), k'.put_stack limits' (hset k'.below)⟩

theorem sim_above {place place' : Nat} (hplaces : (k.comparison k').places place place') :
    (k.comparison k').Sim Eq (above place) (above place') := by
  obtain ⟨j, rfl, rfl⟩ := hplaces
  rintro _ _ ⟨c, limits, limits', hrooted, rfl, rfl⟩
  refine .ok ?_ ⟨c, limits, limits', hrooted, rfl, rfl⟩
  exact congrArg Array.toList ((extract_append_above k.below c.stack (j + 1)).trans
    (extract_append_above k'.below c.stack (j + 1)).symm)

theorem sim_truncate {place place' : Nat} (hplaces : (k.comparison k').places place place') :
    (k.comparison k').Sim Eq (truncate place) (truncate place') := by
  obtain ⟨j, rfl, rfl⟩ := hplaces
  rintro _ _ ⟨c, limits, limits', hrooted, rfl, rfl⟩
  unfold truncate
  simp only [Array.shrink_eq_take]
  exact .ok rfl ⟨{ c with stack := c.stack.take j }, limits, limits', hrooted,
    k.put_stack limits (take_append ..), k'.put_stack limits' (take_append ..)⟩

/-! ## Calls -/

theorem entered_put (k : Context) (limits : Limits) {c : Machine} (closure : Closure) {given : Nat}
    (hgiven : given ≤ c.stack.size) :
    entered closure given (k.put limits c) = k.put limits (entered closure given c) := by
  have hbase : (k.put limits c).stack.size - given = k.below.size + (c.stack.size - given) := by
    rw [k.size_put limits]
    omega
  have hstack : (k.put limits c).stack ++ Array.replicate (closure.routine.slots - given) .null
      = k.below ++ (c.stack ++ Array.replicate (closure.routine.slots - given) .null) :=
    Array.append_assoc
  unfold entered
  rw [hbase, hstack]
  rfl

theorem results_enter (k k' : Context) {c : Machine} (limits limits' : Limits)
    (closure : Closure) {given : Nat} (hrooted : Rooted c.frames) (hgiven : given < c.stack.size) :
    (k.comparison k').Results Eq (enter closure given (k.put limits c))
      (enter closure given (k'.put limits' c)) := by
  have hle : ∀ (k : Context) limits, given ≤ (k.put limits c).stack.size := fun k limits => by
    rw [k.size_put limits]
    omega
  -- the arity is the same in both contexts; the room is not, and either may have none
  by_cases harity : given = closure.routine.params
  · rcases enter_of_eq harity (hle k limits) with ⟨fault, hover, h⟩ | ⟨-, -, h⟩
    · rw [h]
      exact .left hover
    · rcases enter_of_eq harity (hle k' limits') with ⟨fault, hover, h'⟩ | ⟨-, -, h'⟩
      · rw [h']
        exact .right hover
      · rw [h, h', entered_put k limits closure (Nat.le_of_lt hgiven),
          entered_put k' limits' closure (Nat.le_of_lt hgiven)]
        refine .ok rfl ⟨entered closure given c, limits, limits', ?_, rfl, rfl⟩
        obtain ⟨caller, callers, hframes⟩ := hrooted.exists_cons
        show Rooted (_ :: c.frames)
        rw [hframes]
        exact ⟨Nat.sub_pos_of_lt hgiven, hframes ▸ hrooted⟩
  · rw [enter_of_ne harity, enter_of_ne harity]
    exact .error ⟨c, limits, limits', hrooted, rfl, rfl⟩

/-- A builtin is called with the same arguments, and its answer goes to the same place. -/
theorem sim_answer (host : Host) (b : Builtin) {place place' : Nat}
    (hplaces : (k.comparison k').places place place') :
    (k.comparison k').Sim Eq
      (do
        let arguments ← above place
        let answer ← onHeap fun heap => host b.label heap arguments
        truncate place
        push answer
        return Progress.next)
      (do
        let arguments ← above place'
        let answer ← onHeap fun heap => host b.label heap arguments
        truncate place'
        push answer
        return Progress.next) := by
  refine (sim_above hplaces).bind fun arguments _ harguments => ?_
  subst harguments
  refine (portable_onHeap _).same.bind fun answer => ?_
  refine (sim_truncate hplaces).bind fun _ _ _ => ?_
  exact (same_push answer).bind fun _ => Comparison.same_pure _

theorem same_call (host : Host) (given : Nat) : (k.comparison k').Same (call host given) := by
  rintro _ _ ⟨c, limits, limits', hrooted, rfl, rfl⟩
  have h : Alongside k k' (k.put limits c) (k'.put limits' c) :=
    ⟨c, limits, limits', hrooted, rfl, rfl⟩
  unfold call
  rw [bind_apply, bind_apply]
  by_cases henough : c.floor + (given + 1) ≤ c.stack.size
  · -- the callee stands in the call itself, at the same height above either context
    have hcallee : ∀ (k : Context) limits, callee given (k.put limits c)
        = .ok (k.below.size + (c.stack.size - (given + 1)), c.stack[c.stack.size - (given + 1)])
          (k.put limits c) := by
      intro k limits
      have hplace : (k.put limits c).stack.size - (given + 1)
          = k.below.size + (c.stack.size - (given + 1)) := by
        rw [k.size_put limits]
        omega
      have hv : (k.put limits c).stack[k.below.size + (c.stack.size - (given + 1))]?
          = some c.stack[c.stack.size - (given + 1)] := by
        show (k.below ++ c.stack)[_]? = _
        rw [Array.getElem?_append_right (by omega), Nat.add_sub_cancel_left]
        exact Array.getElem?_eq_getElem _
      rw [← hplace] at hv ⊢
      refine callee_of_le ?_ hv
      rw [k.floor_put limits hrooted, k.size_put limits]
      omega
    rw [hcallee k limits, hcallee k' limits']
    cases c.stack[c.stack.size - (given + 1)] with
    | closure closure =>
      have henter := results_enter k k' limits limits' closure hrooted
        (show given < c.stack.size by omega)
      exact henter.bind fun _ _ _ => Comparison.same_pure _
    | builtin b =>
      have hplaces : (k.comparison k').places
          (k.below.size + (c.stack.size - (given + 1)))
          (k'.below.size + (c.stack.size - (given + 1))) := ⟨_, rfl, rfl⟩
      exact sim_answer host b hplaces _ _ h
    | _ => exact .error h
  · have hcallee : ∀ (k : Context) limits, callee given (k.put limits c)
        = .error .stackUnderflow (k.put limits c) := by
      intro k limits
      refine callee_of_not_le ?_
      rw [k.floor_put limits hrooted, k.size_put limits]
      omega
    rw [hcallee k limits, hcallee k' limits']
    exact .error h

/-- **Every action keeps the two contexts alongside.** -/
theorem respected_contexts (k k' : Context) : (k.comparison k').Respected where
  push := same_push
  pop := portable_pop.same
  popMany count := (portable_popMany count).same
  discard v := (portable_discard v).same
  constant index := (portable_constant index).same
  builtin index := (portable_builtin index).same
  moduleNamed name := (portable_moduleNamed name).same
  global index := (portable_global index).same
  assignGlobal index := by
    refine Portable.same ((portable_checkGlobal index).bind fun _ => ?_)
    exact portable_pop.bind fun v => portable_setGlobal index v
  bindGlobal index := by
    refine (portable_checkGlobal index).same.bind fun _ => portable_pop.same.bind fun v => ?_
    exact (portable_setGlobal index v).same.bind fun _ => same_push v
  frame := sim_frame
  localSlot := sim_localSlot
  slot := sim_slot
  setSlot := sim_setSlot
  query f := (portable_query f).same
  onHeap f := (portable_onHeap f).same
  jump target := (portable_jump target).same
  call := same_call

end Exec

end ClosureMachine
