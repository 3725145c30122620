import ClosureMachine.Proofs.Machine.Operands

/-!
# Two machines side by side

To compare two machines is to say how they are related and which faults of either put an end to the
comparison. If every action that instructions are made of keeps them related, then so does every
instruction.

* **`Comparison.Sim c V a b`**: from related machines, `a` and `b` answer values related by `V`, or
  they fault alike, and the machines are related again. It is closed under sequencing (`Sim.bind`).
* **`Comparison.Respected`** lists what a comparison owes to the single actions.
* **`Respected.execute_same`** is what it gets: all instructions but the two returns.
-/

namespace ClosureMachine

/-- A way to compare two machines. -/
structure Comparison where
  /-- How the machines are related. -/
  related : Machine → Machine → Prop
  /-- Which places on their stacks correspond. -/
  places : Nat → Nat → Prop
  /-- The faults of the first machine that end the comparison. -/
  left : Fault → Prop
  /-- The faults of the second machine that end the comparison. -/
  right : Fault → Prop

namespace Comparison

/-- How the results of two actions compare. -/
inductive Results (c : Comparison) {α β : Type} (V : α → β → Prop) :
    EStateM.Result Fault Machine α → EStateM.Result Fault Machine β → Prop
  | ok {x : α} {y : β} {m m' : Machine} (hvalue : V x y) (h : c.related m m') :
      Results c V (.ok x m) (.ok y m')
  | error {fault : Fault} {m m' : Machine} (h : c.related m m') :
      Results c V (.error fault m) (.error fault m')
  | left {fault : Fault} {m : Machine} {r : EStateM.Result Fault Machine β} (h : c.left fault) :
      Results c V (.error fault m) r
  | right {fault : Fault} {m : Machine} {r : EStateM.Result Fault Machine α} (h : c.right fault) :
      Results c V r (.error fault m)

/-- From related machines, the two actions come to results that compare. -/
def Sim (c : Comparison) {α β : Type} (V : α → β → Prop) (a : Exec α) (b : Exec β) : Prop :=
  ∀ m m', c.related m m' → c.Results V (a m) (b m')

/-- The action does the same to related machines. -/
def Same (c : Comparison) {α : Type} (a : Exec α) : Prop :=
  c.Sim Eq a a

/-! ## Sequences -/

section

variable {c : Comparison} {α β γ δ : Type}

theorem Results.bind {V : α → β → Prop} {W : γ → δ → Prop} {a : Exec α} {b : Exec β}
    {f : α → Exec γ} {g : β → Exec δ} {m m' : Machine} (hr : c.Results V (a m) (b m'))
    (hf : ∀ x y, V x y → c.Sim W (f x) (g y)) : c.Results W ((a >>= f) m) ((b >>= g) m') := by
  rw [Exec.bind_apply, Exec.bind_apply]
  generalize a m = r at hr
  generalize b m' = r' at hr
  cases hr with
  | ok hvalue h => exact hf _ _ hvalue _ _ h
  | error h => exact .error h
  | left hfault => exact .left hfault
  | right hfault => exact .right hfault

theorem Sim.bind {V : α → β → Prop} {W : γ → δ → Prop} {a : Exec α} {b : Exec β}
    {f : α → Exec γ} {g : β → Exec δ} (ha : c.Sim V a b)
    (hf : ∀ x y, V x y → c.Sim W (f x) (g y)) : c.Sim W (a >>= f) (b >>= g) :=
  fun m m' h => (ha m m' h).bind hf

/-- Values that compare in one way may compare in a weaker one. -/
theorem Sim.mono {V W : α → β → Prop} {a : Exec α} {b : Exec β} (h : c.Sim V a b)
    (hVW : ∀ x y, V x y → W x y) : c.Sim W a b := by
  intro m m' hrelated
  have hr := h m m' hrelated
  generalize a m = r at hr
  generalize b m' = r' at hr
  cases hr with
  | ok hvalue h => exact .ok (hVW _ _ hvalue) h
  | error h => exact .error h
  | left hfault => exact .left hfault
  | right hfault => exact .right hfault

theorem Same.bind {V : β → γ → Prop} {a : Exec α} {f : α → Exec β} {g : α → Exec γ}
    (ha : c.Same a) (hf : ∀ x, c.Sim V (f x) (g x)) : c.Sim V (a >>= f) (a >>= g) :=
  Sim.bind ha fun x _ hxy => hxy ▸ hf x

theorem sim_pure {V : α → β → Prop} {x : α} {y : β} (h : V x y) : c.Sim V (pure x) (pure y) :=
  fun _ _ hrelated => .ok h hrelated

theorem sim_throw (V : α → β → Prop) (fault : Fault) :
    c.Sim V (throw fault : Exec α) (throw fault : Exec β) :=
  fun _ _ hrelated => .error hrelated

theorem same_pure (x : α) : c.Same (pure x) :=
  fun _ _ h => .ok rfl h

theorem same_throw (fault : Fault) : c.Same (throw fault : Exec α) :=
  fun _ _ h => .error h

theorem Sim.proceed {a b : Exec Unit} {W : Progress → Progress → Prop} (h : c.Sim Eq a b)
    (hnext : W .next .next) : c.Sim W (Exec.proceed a) (Exec.proceed b) :=
  h.bind fun _ _ _ => sim_pure hnext

theorem Same.proceed {a : Exec Unit} (ha : c.Same a) : c.Same (Exec.proceed a) :=
  ha.bind fun _ => same_pure _

end

/-! ## What is owed and what is got -/

/-- The actions keep related machines related. -/
structure Respected (c : Comparison) : Prop where
  push (v : Value) : c.Same (Exec.push v)
  pop : c.Same Exec.pop
  popMany (count : Nat) : c.Same (Exec.popMany count)
  discard (v : Value) : c.Same (Exec.discard v)
  constant (index : Nat) : c.Same (Exec.constant index)
  builtin (index : Nat) : c.Same (Exec.builtin index)
  moduleNamed (name : Value) : c.Same (Exec.moduleNamed name)
  global (index : Nat) : c.Same (Exec.global index)
  assignGlobal (index : Nat) : c.Same do
    Exec.checkGlobal index
    Exec.setGlobal index (← Exec.pop)
  bindGlobal (index : Nat) : c.Same do
    Exec.checkGlobal index
    let value ← Exec.pop
    Exec.setGlobal index value
    Exec.push value
  frame : c.Sim (fun f f' => f.closure = f'.closure) Exec.frame Exec.frame
  localSlot (index : Nat) : c.Sim c.places (Exec.localSlot index) (Exec.localSlot index)
  slot {place place' : Nat} (h : c.places place place') :
    c.Sim Eq (Exec.slot place) (Exec.slot place')
  setSlot {place place' : Nat} (h : c.places place place') (v : Value) :
    c.Sim Eq (Exec.setSlot place v) (Exec.setSlot place' v)
  query {α : Type} (f : Heap → Except Fault α) : c.Same (Exec.query f)
  onHeap {α : Type} (f : Heap → Except Fault α × Heap) : c.Same (Exec.onHeap f)
  jump (target : Nat) : c.Same (Exec.jump target)
  call (host : Host) (given : Nat) : c.Same (Exec.call host given)

namespace Respected

variable {c : Comparison} {α : Type}

theorem create (h : c.Respected) (f : Heap → α × Heap) : c.Same (Exec.create f) :=
  h.onHeap _

theorem change (h : c.Respected) (f : Heap → Heap) : c.Same (Exec.change f) :=
  h.create _

theorem attempt (h : c.Respected) (f : Heap → Except Fault (α × Heap)) : c.Same (Exec.attempt f) :=
  h.onHeap _

theorem routine (h : c.Respected) (index : Nat) : c.Same (Exec.routine index) := by
  refine (h.constant index).bind fun v => ?_
  split
  · exact same_pure _
  · exact same_throw _

theorem binary (h : c.Respected) (op : Opcode) :
    c.Same (do
      let right ← Exec.pop
      let left ← Exec.pop
      Exec.push (← Exec.attempt fun heap => heap.binary op left right)) :=
  h.pop.bind fun _ => h.pop.bind fun _ => (h.attempt _).bind h.push

theorem pure_binary (h : c.Respected) (f : Value → Value → Value) :
    c.Same (do
      let right ← Exec.pop
      let left ← Exec.pop
      Exec.push (f left right)) :=
  h.pop.bind fun _ => h.pop.bind fun _ => h.push _

theorem unary (h : c.Respected) (op : Opcode) :
    c.Same (do
      let operand ← Exec.pop
      Exec.push (← Exec.query fun _ => operand.unary op)) :=
  h.pop.bind fun _ => (h.query _).bind h.push

/-- **What the instructions get.** All instructions but the two returns do the same to related
machines. -/
theorem execute_same (h : c.Respected) (host : Host) (i : Instruction)
    (hbare : i.opcode ≠ .bareReturn) (hvalue : i.opcode ≠ .returnValue) :
    c.Same (Exec.execute host i) := by
  obtain ⟨op, operands⟩ := i
  cases op with
  | loadConstant => exact .proceed ((h.constant _).bind h.push)
  | loadTrue => exact .proceed (h.push _)
  | loadFalse => exact .proceed (h.push _)
  | loadNull => exact .proceed (h.push _)
  | loadBuiltin => exact .proceed ((h.builtin _).bind h.push)
  | assignGlobal => exact .proceed (h.assignGlobal _)
  | bindGlobal => exact .proceed (h.bindGlobal _)
  | loadGlobal => exact .proceed ((h.global _).bind h.push)
  | assignLocal =>
    refine .proceed ((h.localSlot _).bind fun place place' hplace => ?_)
    exact h.pop.bind fun v => h.setSlot hplace v
  | bindLocal =>
    refine .proceed ((h.localSlot _).bind fun place place' hplace => ?_)
    exact h.pop.bind fun v => (h.setSlot hplace v).bind fun _ _ _ => h.push v
  | loadLocal =>
    refine .proceed ((h.localSlot _).bind fun place place' hplace => ?_)
    exact (h.slot hplace).bind fun v _ hv => hv ▸ h.push v
  -- the frames may differ in all but their closures, whose captures are in the heap
  | loadFree =>
    refine .proceed (h.frame.bind fun x y hxy => ?_)
    rw [hxy]
    exact (h.query _).bind h.push
  | setSelf =>
    refine .proceed (h.frame.bind fun x y hxy => ?_)
    rw [hxy]
    exact (h.query _).bind fun _ => h.change _
  | loadModule => exact .proceed (h.pop.bind fun name => (h.moduleNamed name).bind h.push)
  | getItem =>
    exact .proceed (h.pop.bind fun index => h.pop.bind fun container => (h.query _).bind h.push)
  | setItem =>
    refine .proceed (h.pop.bind fun v => h.pop.bind fun index => h.pop.bind fun container => ?_)
    exact (h.query _).bind fun place => h.change _
  | makeArray => exact .proceed ((h.popMany _).bind fun elements => (h.create _).bind h.push)
  | makeHash =>
    have hrest := (h.popMany (Instruction.first ⟨.makeHash, operands⟩)).bind fun items =>
      (h.query fun _ => Exec.hashOf (Exec.pairs items.toList)).bind fun entries =>
        (h.create fun heap => heap.newHash entries).bind h.push
    refine .proceed ?_
    split
    · exact (same_throw _).bind fun _ => hrest
    · exact hrest
  | makeClosure =>
    refine .proceed ((h.routine _).bind fun routine => (h.popMany _).bind fun captures => ?_)
    exact (h.create _).bind fun closure => h.push _
  | pop => exact .proceed (h.pop.bind h.discard)
  | noop => exact .proceed (same_pure _)
  | add => exact .proceed (h.binary _)
  | sub => exact .proceed (h.binary _)
  | mul => exact .proceed (h.binary _)
  | div => exact .proceed (h.binary _)
  | mod => exact .proceed (h.binary _)
  | bitwiseOr => exact .proceed (h.binary _)
  | bitwiseXor => exact .proceed (h.binary _)
  | bitwiseAnd => exact .proceed (h.binary _)
  | leftShift => exact .proceed (h.binary _)
  | rightShift => exact .proceed (h.binary _)
  | greaterThan => exact .proceed (h.binary _)
  | greaterThanEqual => exact .proceed (h.binary _)
  | equal => exact .proceed (h.pure_binary fun l r => .boolean (l.equals r))
  | notEqual => exact .proceed (h.pure_binary fun l r => .boolean !(l.equals r))
  | or => exact .proceed (h.pure_binary fun l r => .boolean (l.isTruthy || r.isTruthy))
  | and => exact .proceed (h.pure_binary fun l r => .boolean (l.isTruthy && r.isTruthy))
  | not => exact .proceed (h.unary _)
  | minus => exact .proceed (h.unary _)
  | bitwiseNot => exact .proceed (h.unary _)
  | jump => exact .proceed (h.jump _)
  | jumpIfFalse =>
    refine .proceed (h.pop.bind fun condition => ?_)
    split
    · exact h.jump _
    · exact same_pure _
  | call => exact h.call host _
  | bareReturn => exact absurd rfl hbare
  | returnValue => exact absurd rfl hvalue

end Respected

end Comparison

end ClosureMachine
