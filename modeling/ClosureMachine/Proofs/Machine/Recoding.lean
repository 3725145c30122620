import ClosureMachine.Proofs.Machine.Effect
import ClosureMachine.Proofs.Machine.Simulation
import Mathlib.Data.List.Forall2

/-!
# Machines with other code

Values, heaps and machines that are the same but for the code of their functions. Operations on values
do not look at code: functions and closures are told apart by their identity.

* **`Value.Recoded R`**, **`Heap.Recoded R`** and **`Machine.Recoded R`** relate what is the same but
  for routines, and these are related by `R`.
* **`Host.Respects R`** says of a host that it does not look at what `R` does not tell apart.
* **`Program.Recoded.load`**: programs with the same main stream and related functions are loaded into
  related machines.
-/

namespace ClosureMachine

/-! ## Arrays and dictionaries, place by place -/

/-- The arrays have equally many elements, and those at the same place are related. -/
def Pointwise {α β : Type} (R : α → β → Prop) (xs : Array α) (ys : Array β) : Prop :=
  ∀ place : Nat, Option.Rel R xs[place]? ys[place]?

namespace Pointwise

variable {α β : Type} {R : α → β → Prop} {xs xs' : Array α} {ys ys' : Array β}

theorem size_eq (h : Pointwise R xs ys) : ys.size = xs.size := by
  have hxs := h xs.size
  have hys := h ys.size
  rw [Array.getElem?_eq_none (Nat.le_refl _)] at hxs hys
  have hle : ys.size ≤ xs.size := by
    generalize hy : ys[xs.size]? = y at hxs
    cases hxs
    exact Array.getElem?_eq_none_iff.mp hy
  have hge : xs.size ≤ ys.size := by
    generalize hx : xs[ys.size]? = x at hys
    cases hys
    exact Array.getElem?_eq_none_iff.mp hx
  omega

theorem get (h : Pointwise R xs ys) {place : Nat} (hx : place < xs.size) (hy : place < ys.size) :
    R xs[place] ys[place] := by
  have hplace := h place
  rw [Array.getElem?_eq_getElem hx, Array.getElem?_eq_getElem hy] at hplace
  cases hplace
  assumption

theorem getD (h : Pointwise R xs ys) (place : Nat) {x : α} {y : β} (hdefault : R x y) :
    R (xs[place]?.getD x) (ys[place]?.getD y) := by
  have hplace := h place
  generalize xs[place]? = v at hplace
  generalize ys[place]? = w at hplace
  cases hplace with
  | some hvw => exact hvw
  | none => exact hdefault

theorem empty : Pointwise R #[] #[] := by
  intro place
  simp

theorem refl {R : α → α → Prop} (hR : ∀ x, R x x) (xs : Array α) : Pointwise R xs xs := by
  intro place
  cases xs[place]? with
  | some x => exact .some (hR x)
  | none => exact .none

theorem push (h : Pointwise R xs ys) {x : α} {y : β} (hxy : R x y) :
    Pointwise R (xs.push x) (ys.push y) := by
  intro place
  rw [Array.getElem?_push, Array.getElem?_push, h.size_eq]
  split
  · exact .some hxy
  · exact h place

theorem extract (h : Pointwise R xs ys) (start stop : Nat) :
    Pointwise R (xs.extract start stop) (ys.extract start stop) := by
  intro place
  rw [Array.getElem?_extract, Array.getElem?_extract, h.size_eq]
  split
  · exact h (start + place)
  · exact .none

theorem append (h : Pointwise R xs ys) (h' : Pointwise R xs' ys') :
    Pointwise R (xs ++ xs') (ys ++ ys') := by
  intro place
  rw [Array.getElem?_append, Array.getElem?_append, h.size_eq]
  split
  · exact h place
  · exact h' _

theorem setIfInBounds (h : Pointwise R xs ys) (place : Nat) {x : α} {y : β} (hxy : R x y) :
    Pointwise R (xs.setIfInBounds place x) (ys.setIfInBounds place y) := by
  intro place'
  rw [Array.getElem?_setIfInBounds, Array.getElem?_setIfInBounds, h.size_eq]
  split
  · split
    · exact .some hxy
    · exact .none
  · exact h place'

theorem modify (h : Pointwise R xs ys) (place : Nat) {f : α → α} {g : β → β}
    (hfg : ∀ x y, R x y → R (f x) (g y)) :
    Pointwise R (xs.modify place f) (ys.modify place g) := by
  intro place'
  have hplace := h place'
  rw [Array.getElem?_modify, Array.getElem?_modify]
  split
  · generalize xs[place']? = v at hplace
    generalize ys[place']? = w at hplace
    cases hplace with
    | some hvw => exact .some (hfg _ _ hvw)
    | none => exact .none
  · exact hplace

theorem pop (h : Pointwise R xs ys) : Pointwise R xs.pop ys.pop := by
  rw [← Array.extract_eq_pop rfl, ← Array.extract_eq_pop rfl, h.size_eq]
  exact h.extract 0 (xs.size - 1)

theorem back (h : Pointwise R xs ys) (hx : 0 < xs.size) (hy : 0 < ys.size) :
    R (xs.back hx) (ys.back hy) := by
  have hplace := h (xs.size - 1)
  have hxback : xs[xs.size - 1]? = some (xs.back hx) := by
    rw [Array.back_eq_getElem]
    exact Array.getElem?_eq_getElem (by omega)
  have hyback : ys[xs.size - 1]? = some (ys.back hy) := by
    rw [Array.back_eq_getElem, ← h.size_eq]
    exact Array.getElem?_eq_getElem (by omega)
  rw [hxback, hyback] at hplace
  cases hplace
  assumption

theorem shrink (h : Pointwise R xs ys) (size : Nat) :
    Pointwise R (xs.shrink size) (ys.shrink size) := by
  rw [Array.shrink_eq_take, Array.shrink_eq_take]
  exact h.extract 0 size

theorem toList (h : Pointwise R xs ys) : List.Forall₂ R xs.toList ys.toList := by
  refine List.forall₂_iff_get.mpr ⟨by simp [h.size_eq], fun place hx hy => ?_⟩
  rw [Array.length_toList] at hx hy
  exact h.get hx hy

end Pointwise

/-- The dictionaries have the same keys in the same order, and the values under them are related. -/
def Dict.Pointwise {κ α β : Type} (R : α → β → Prop) (dict : Dict κ α) (dict' : Dict κ β) : Prop :=
  List.Forall₂ (fun entry entry' => entry.1 = entry'.1 ∧ R entry.2 entry'.2) dict.entries
    dict'.entries

namespace Dict.Pointwise

variable {κ α β : Type} {R : α → β → Prop} {dict : Dict κ α} {dict' : Dict κ β}

theorem refl {R : α → α → Prop} (hR : ∀ x, R x x) (dict : Dict κ α) : dict.Pointwise R dict :=
  List.forall₂_same.mpr fun entry _ => ⟨rfl, hR entry.2⟩

variable [DecidableEq κ]

theorem find? (h : dict.Pointwise R dict') (key : κ) :
    Option.Rel R (dict.find? key) (dict'.find? key) := by
  unfold Dict.find?
  unfold Dict.Pointwise at h
  generalize dict.entries = entries at h
  generalize dict'.entries = entries' at h
  induction h with
  | nil => exact .none
  | cons hentry _ ih =>
    unfold lookup
    rw [hentry.1]
    split
    · exact .some hentry.2
    · exact ih

theorem insert (h : dict.Pointwise R dict') (key : κ) {x : α} {y : β} (hxy : R x y) :
    (dict.insert key x).Pointwise R (dict'.insert key y) := by
  unfold Dict.Pointwise at h ⊢
  show List.Forall₂ _ (put key x dict.entries) (put key y dict'.entries)
  generalize dict.entries = entries at h
  generalize dict'.entries = entries' at h
  induction h with
  | nil => exact .cons ⟨rfl, hxy⟩ .nil
  | cons hentry hrest ih =>
    unfold put
    rw [hentry.1]
    split
    · exact .cons ⟨rfl, hxy⟩ hrest
    · exact .cons hentry ih

end Dict.Pointwise

/-! ## Values, heaps and machines -/

/-- A relation on routines that differ in their code at most. -/
structure Recodes (R : Routine → Routine → Prop) : Prop where
  refl (routine : Routine) : R routine routine
  params {routine routine' : Routine} (h : R routine routine') : routine'.params = routine.params
  slots {routine routine' : Routine} (h : R routine routine') : routine'.slots = routine.slots

/-- The same value, but for the routine if it is a function or a closure. -/
inductive Value.Recoded (R : Routine → Routine → Prop) : Value → Value → Prop
  | integer (n : Int64) : Recoded R (.integer n) (.integer n)
  | boolean (b : Bool) : Recoded R (.boolean b) (.boolean b)
  | null : Recoded R .null .null
  | string (text : String) : Recoded R (.string text) (.string text)
  | array (id : Nat) : Recoded R (.array id) (.array id)
  | hash (id : Nat) : Recoded R (.hash id) (.hash id)
  | function (id : Nat) {routine routine' : Routine} (h : R routine routine') :
      Recoded R (.function id routine) (.function id routine')
  | closure (id : Nat) {routine routine' : Routine} (h : R routine routine') :
      Recoded R (.closure ⟨id, routine⟩) (.closure ⟨id, routine'⟩)
  | builtin (b : Builtin) : Recoded R (.builtin b) (.builtin b)
  | module (id : Nat) : Recoded R (.module id) (.module id)

structure Closure.Recoded (R : Routine → Routine → Prop) (closure closure' : Closure) : Prop where
  id : closure'.id = closure.id
  routine : R closure.routine closure'.routine

structure Module.Recoded (R : Routine → Routine → Prop) (module module' : Module) : Prop where
  name : module'.name = module.name
  members : module.members.Pointwise (Value.Recoded R) module'.members

structure Heap.Recoded (R : Routine → Routine → Prop) (heap heap' : Heap) : Prop where
  arrays : Pointwise (Pointwise (Value.Recoded R)) heap.arrays heap'.arrays
  hashes : Pointwise (Dict.Pointwise (Value.Recoded R)) heap.hashes heap'.hashes
  captures : Pointwise (Pointwise (Value.Recoded R)) heap.captures heap'.captures
  modules : Pointwise (Module.Recoded R) heap.modules heap'.modules
  identities : heap'.identities = heap.identities

/-- The frames are at the same offset and have their slots at the same place. -/
structure Frame.Recoded (R : Routine → Routine → Prop) (frame frame' : Frame) : Prop where
  closure : frame.closure.Recoded R frame'.closure
  ip : frame'.ip = frame.ip
  base : frame'.base = frame.base

/-- The same machine, but for the code of its routines. -/
structure Machine.Recoded (R : Routine → Routine → Prop) (m m' : Machine) : Prop where
  constants : Pointwise (Value.Recoded R) m.constants m'.constants
  builtins : m'.builtins = m.builtins
  modules : m.modules.Pointwise (Value.Recoded R) m'.modules
  globals : Pointwise (Value.Recoded R) m.globals m'.globals
  stack : Pointwise (Value.Recoded R) m.stack m'.stack
  frames : List.Forall₂ (Frame.Recoded R) m.frames m'.frames
  limits : m'.limits = m.limits
  lastPopped : m.lastPopped.Recoded R m'.lastPopped
  heap : m.heap.Recoded R m'.heap

/-- Both fault, and alike, or both answer, and the answers are related. -/
inductive Answers {α β : Type} (V : α → β → Prop) : Except Fault α → Except Fault β → Prop
  | ok {x : α} {y : β} (h : V x y) : Answers V (.ok x) (.ok y)
  | error (fault : Fault) : Answers V (.error fault) (.error fault)

/-- The functions of the host do not see what `R` does not tell apart: they answer the same, and
change the heap in the same way. -/
def Host.Respects (R : Routine → Routine → Prop) (host : Host) : Prop :=
  ∀ (label : String) (heap heap' : Heap) (arguments arguments' : List Value),
    heap.Recoded R heap' → List.Forall₂ (Value.Recoded R) arguments arguments' →
      Answers (Value.Recoded R) (host label heap arguments).1 (host label heap' arguments').1
        ∧ (host label heap arguments).2.Recoded R (host label heap' arguments').2

section

variable {R : Routine → Routine → Prop}

namespace Value.Recoded

variable {v v' w w' : Value}

theorem refl (hR : Recodes R) (v : Value) : v.Recoded R v := by
  cases v with
  | function id routine => exact .function id (hR.refl routine)
  | closure closure => exact .closure closure.id (hR.refl closure.routine)
  | integer n => exact .integer n
  | boolean b => exact .boolean b
  | null => exact .null
  | string text => exact .string text
  | array id => exact .array id
  | hash id => exact .hash id
  | builtin b => exact .builtin b
  | module id => exact .module id

theorem isTruthy_eq (h : v.Recoded R v') : v'.isTruthy = v.isTruthy := by
  cases h <;> rfl

theorem hashKey_eq (h : v.Recoded R v') : v'.hashKey = v.hashKey := by
  cases h <;> rfl

/-- Functions and closures are told apart by their identity. -/
theorem equals_eq (h : v.Recoded R v') (h' : w.Recoded R w') : v'.equals w' = v.equals w := by
  cases h <;> cases h' <;> rfl

end Value.Recoded

namespace Heap.Recoded

variable {heap heap' : Heap}

theorem array (h : heap.Recoded R heap') (id : Nat) :
    Pointwise (Value.Recoded R) (heap.array id) (heap'.array id) :=
  h.arrays.getD id .empty

theorem hash (h : heap.Recoded R heap') (id : Nat) :
    (heap.hash id).Pointwise (Value.Recoded R) (heap'.hash id) :=
  h.hashes.getD id .nil

theorem captured (h : heap.Recoded R heap') {closure closure' : Closure}
    (hclosure : closure.Recoded R closure') :
    Pointwise (Value.Recoded R) (heap.captured closure) (heap'.captured closure') := by
  unfold Heap.captured
  rw [hclosure.id]
  exact h.captures.getD closure.id .empty

theorem module (h : heap.Recoded R heap') (id : Nat) :
    (heap.module id).Recoded R (heap'.module id) :=
  h.modules.getD id ⟨rfl, .nil⟩

theorem newArray (h : heap.Recoded R heap') {elements elements' : Array Value}
    (helements : Pointwise (Value.Recoded R) elements elements') :
    (heap.newArray elements).1.Recoded R (heap'.newArray elements').1
      ∧ (heap.newArray elements).2.Recoded R (heap'.newArray elements').2 := by
  constructor
  · show Value.Recoded R (.array heap.arrays.size) (.array heap'.arrays.size)
    rw [h.arrays.size_eq]
    exact .array _
  · exact { h with arrays := h.arrays.push helements }

theorem newHash (h : heap.Recoded R heap') {dict dict' : Dict Key Value}
    (hdict : dict.Pointwise (Value.Recoded R) dict') :
    (heap.newHash dict).1.Recoded R (heap'.newHash dict').1
      ∧ (heap.newHash dict).2.Recoded R (heap'.newHash dict').2 := by
  constructor
  · show Value.Recoded R (.hash heap.hashes.size) (.hash heap'.hashes.size)
    rw [h.hashes.size_eq]
    exact .hash _
  · exact { h with hashes := h.hashes.push hdict }

theorem newClosure (h : heap.Recoded R heap') {routine routine' : Routine}
    (hroutine : R routine routine') {captured captured' : Array Value}
    (hcaptured : Pointwise (Value.Recoded R) captured captured') :
    (heap.newClosure routine captured).1.Recoded R (heap'.newClosure routine' captured').1
      ∧ (heap.newClosure routine captured).2.Recoded R (heap'.newClosure routine' captured').2 :=
  ⟨⟨h.captures.size_eq, hroutine⟩, { h with captures := h.captures.push hcaptured }⟩

theorem write (h : heap.Recoded R heap') (place : Heap.Place) {v v' : Value}
    (hv : v.Recoded R v') : (heap.write place v).Recoded R (heap'.write place v') := by
  cases place with
  | element id slot =>
    exact { h with arrays := h.arrays.modify id fun _ _ hxy => hxy.setIfInBounds slot hv }
  | entry id key =>
    exact { h with hashes := h.hashes.modify id fun _ _ hxy => hxy.insert key hv }

theorem setCapture (h : heap.Recoded R heap') {closure closure' : Closure}
    (hclosure : closure.Recoded R closure') (slot : Nat) {v v' : Value} (hv : v.Recoded R v') :
    (heap.setCapture closure slot v).Recoded R (heap'.setCapture closure' slot v') := by
  unfold Heap.setCapture
  rw [hclosure.id]
  exact { h with captures := h.captures.modify closure.id fun _ _ hxy => hxy.setIfInBounds slot hv }

end Heap.Recoded

theorem Closure.Recoded.value {closure closure' : Closure} (h : closure.Recoded R closure') :
    (Value.closure closure).Recoded R (.closure closure') := by
  obtain ⟨id, routine⟩ := closure
  obtain ⟨id', routine'⟩ := closure'
  obtain rfl : id' = id := h.id
  exact .closure id' h.routine

theorem Frame.Recoded.slots_eq (hR : Recodes R) {frame frame' : Frame}
    (h : frame.Recoded R frame') : frame'.slots = frame.slots :=
  hR.slots h.closure.routine

/-! ### Operations on values -/

theorem recoded_getItem {heap heap' : Heap} (h : heap.Recoded R heap')
    {container container' index index' : Value} (hcontainer : container.Recoded R container')
    (hindex : index.Recoded R index') :
    Answers (Value.Recoded R) (heap.getItem container index) (heap'.getItem container' index') := by
  cases hcontainer with
  | array id =>
    cases hindex with
    | integer n =>
      refine .ok ?_
      cases place? n with
      | none => exact .null
      | some place => exact (h.array id).getD place .null
    | _ => exact .error _
  | string text =>
    cases hindex with
    | integer n =>
      refine .ok ?_
      cases (place? n).bind fun i => text.toList[i]? with
      | none => exact .null
      | some c => exact .string _
    | _ => exact .error _
  | hash id =>
    have hkey := hindex.hashKey_eq
    show Answers _ (index.hashKey >>= _) (index'.hashKey >>= _)
    rw [hkey]
    cases index.hashKey with
    | error fault => exact .error fault
    | ok key =>
      refine .ok ?_
      have hfind := (h.hash id).find? key
      generalize (heap.hash id).find? key = v at hfind
      generalize (heap'.hash id).find? key = v' at hfind
      cases hfind with
      | some hv => exact hv
      | none => exact .null
  | module id =>
    cases hindex with
    | string name =>
      refine .ok ?_
      have hfind := (h.module id).members.find? name
      generalize (heap.module id).members.find? name = v at hfind
      generalize (heap'.module id).members.find? name = v' at hfind
      cases hfind with
      | some hv => exact hv
      | none => exact .null
    | _ => exact .error _
  | _ => cases hindex <;> exact .error _

/-- The same place is found. -/
theorem recoded_locate {heap heap' : Heap} (h : heap.Recoded R heap')
    {container container' index index' : Value} (hcontainer : container.Recoded R container')
    (hindex : index.Recoded R index') :
    heap'.locate container' index' = heap.locate container index := by
  cases hcontainer with
  | array id =>
    cases hindex with
    | integer n =>
      unfold Heap.locate
      dsimp only
      rw [(h.array id).size_eq]
    | _ => rfl
  | hash id =>
    show Heap.Place.entry id <$> index'.hashKey = Heap.Place.entry id <$> index.hashKey
    rw [hindex.hashKey_eq]
  | _ => cases hindex <;> rfl

/-- A value that an operation gives together with the heap. -/
def PairRecoded (R : Routine → Routine → Prop) (made made' : Value × Heap) : Prop :=
  made.1.Recoded R made'.1 ∧ made.2.Recoded R made'.2

theorem recoded_map_heap (hR : Recodes R) {heap heap' : Heap} (h : heap.Recoded R heap')
    (result : Except Fault Value) :
    Answers (PairRecoded R) ((·, heap) <$> result) ((·, heap') <$> result) := by
  cases result with
  | ok v => exact .ok ⟨.refl hR v, h⟩
  | error fault => exact .error fault

theorem recoded_binary (hR : Recodes R) {heap heap' : Heap} (h : heap.Recoded R heap')
    (op : Opcode) {left left' right right' : Value} (hleft : left.Recoded R left')
    (hright : right.Recoded R right') :
    Answers (PairRecoded R) (heap.binary op left right) (heap'.binary op left' right') := by
  cases hleft with
  | integer l =>
    cases hright with
    | integer r => exact recoded_map_heap hR h _
    | _ => exact .error _
  | string l =>
    cases hright with
    | string r => exact recoded_map_heap hR h _
    | _ => exact .error _
  | array l =>
    cases hright with
    | array r =>
      unfold Heap.binary
      dsimp only
      split
      · exact .ok (h.newArray ((h.array l).append (h.array r)))
      · exact .error _
    | _ => exact .error _
  | _ => cases hright <;> exact .error _

theorem recoded_unary (hR : Recodes R) (op : Opcode) {operand operand' : Value}
    (h : operand.Recoded R operand') :
    Answers (Value.Recoded R) (operand.unary op) (operand'.unary op) := by
  have hsame : operand'.unary op = operand.unary op := by
    cases h with
    | function | closure => cases op <;> rfl
    | _ => rfl
  rw [hsame]
  cases operand.unary op with
  | ok v => exact .ok (.refl hR v)
  | error fault => exact .error fault

theorem recoded_pairs : ∀ {values values' : List Value},
    List.Forall₂ (Value.Recoded R) values values' →
      List.Forall₂ (fun entry entry' => entry.1.Recoded R entry'.1 ∧ entry.2.Recoded R entry'.2)
        (Exec.pairs values) (Exec.pairs values')
  | _, _, .nil => .nil
  | _, _, .cons _ .nil => .nil
  | _, _, .cons hkey (.cons hvalue hrest) => .cons ⟨hkey, hvalue⟩ (recoded_pairs hrest)

theorem recoded_hashOf {entries entries' : List (Value × Value)}
    (h : List.Forall₂ (fun entry entry' => entry.1.Recoded R entry'.1 ∧ entry.2.Recoded R entry'.2)
      entries entries') :
    Answers (Dict.Pointwise (Value.Recoded R)) (Exec.hashOf entries) (Exec.hashOf entries') := by
  -- from dictionaries that are related so far, the rest of the entries leads to related ones
  have hrest : ∀ before before' : Dict Key Value, before.Pointwise (Value.Recoded R) before' →
      Answers (Dict.Pointwise (Value.Recoded R))
        (entries.foldlM (fun dict (entry : Value × Value) =>
          (dict.insert · entry.2) <$> entry.1.hashKey) before)
        (entries'.foldlM (fun dict (entry : Value × Value) =>
          (dict.insert · entry.2) <$> entry.1.hashKey) before') := by
    induction h with
    | nil =>
      intro before before' hbefore
      exact .ok hbefore
    | @cons entry entry' _ _ hentry _ ih =>
      intro before before' hbefore
      rw [List.foldlM_cons, List.foldlM_cons, hentry.1.hashKey_eq]
      cases entry.1.hashKey with
      | error fault => exact .error fault
      | ok key => exact ih _ _ (hbefore.insert key hentry.2)
  exact hrest .empty .empty .nil

/-! ## Programs -/

/-- The same constant, but for the code if it is a function. -/
inductive Constant.Recoded (R : Routine → Routine → Prop) : Constant → Constant → Prop
  | integer (n : Int64) : Recoded R (.integer n) (.integer n)
  | string (text : String) : Recoded R (.string text) (.string text)
  | function {routine routine' : Routine} (h : R routine routine') :
      Recoded R (.function routine) (.function routine')

/-- The same main stream, and constants that differ in code at most. -/
structure Program.Recoded (R : Routine → Routine → Prop) (program program' : Program) : Prop where
  main : program'.main = program.main
  constants : List.Forall₂ (Constant.Recoded R) program.constants.toList program'.constants.toList

theorem Heap.Recoded.refl (hR : Recodes R) (heap : Heap) : heap.Recoded R heap where
  arrays := .refl (.refl (.refl hR)) heap.arrays
  hashes := .refl (.refl (.refl hR)) heap.hashes
  captures := .refl (.refl (.refl hR)) heap.captures
  modules := .refl (fun module => ⟨rfl, .refl (.refl hR) module.members⟩) heap.modules
  identities := rfl

theorem Heap.Recoded.newConstant {heap heap' : Heap} (h : heap.Recoded R heap')
    {constant constant' : Constant} (hconstant : constant.Recoded R constant') :
    PairRecoded R (heap.newConstant constant) (heap'.newConstant constant') := by
  cases hconstant with
  | integer n => exact ⟨.integer n, h⟩
  | string text => exact ⟨.string text, h⟩
  | function hroutine =>
    have hidentities := h.identities
    constructor
    · show Value.Recoded R (.function heap.identities _) (.function heap'.identities _)
      rw [hidentities]
      exact .function _ hroutine
    · exact { h with identities := congrArg (· + 1) hidentities }

/-- What is made of one more constant. -/
def addConstant (made : Array Value × Heap) (constant : Constant) : Array Value × Heap :=
  (made.1.push (made.2.newConstant constant).1, (made.2.newConstant constant).2)

theorem newConstants_eq (heap : Heap) (constants : Array Constant) :
    heap.newConstants constants = constants.toList.foldl addConstant (#[], heap) := by
  unfold Heap.newConstants
  rw [← Array.foldl_toList]
  rfl

theorem Heap.Recoded.newConstants {heap heap' : Heap} (h : heap.Recoded R heap')
    {constants constants' : Array Constant}
    (hconstants : List.Forall₂ (Constant.Recoded R) constants.toList constants'.toList) :
    Pointwise (Value.Recoded R) (heap.newConstants constants).1 (heap'.newConstants constants').1
      ∧ (heap.newConstants constants).2.Recoded R (heap'.newConstants constants').2 := by
  rw [newConstants_eq, newConstants_eq]
  generalize constants.toList = list at hconstants ⊢
  generalize constants'.toList = list' at hconstants ⊢
  -- from what has been made alike so far, the rest of the constants leads to what is alike
  have hrest : ∀ made made' : Array Value × Heap,
      Pointwise (Value.Recoded R) made.1 made'.1 → made.2.Recoded R made'.2 →
        Pointwise (Value.Recoded R) (list.foldl addConstant made).1
            (list'.foldl addConstant made').1
          ∧ (list.foldl addConstant made).2.Recoded R (list'.foldl addConstant made').2 := by
    induction hconstants with
    | nil =>
      intro made made' hvalues hheap
      exact ⟨hvalues, hheap⟩
    | cons hconstant _ ih =>
      intro made made' hvalues hheap
      obtain ⟨hvalue, hheap'⟩ := hheap.newConstant hconstant
      exact ih _ _ (hvalues.push hvalue) hheap'
  exact hrest _ _ .empty h

/-- A machine that has been given the one program is like the one that has been given the other. -/
theorem Program.Recoded.load (hR : Recodes R) {program program' : Program}
    (h : program.Recoded R program') (session : Session) (limits : Limits) :
    (Machine.load session limits program).Recoded R (Machine.load session limits program') := by
  obtain ⟨hconstants, hheap⟩ := (Heap.Recoded.refl hR session.heap).newConstants h.constants
  obtain ⟨hclosure, hheap'⟩ := hheap.newClosure (hR.refl { code := program.main })
    (Pointwise.empty (R := Value.Recoded R))
  have hmain := h.main
  unfold Machine.load Machine.start
  dsimp only
  rw [hmain]
  exact
    { constants := hconstants
      builtins := rfl
      modules := .nil
      globals := .refl (.refl hR) _
      stack := .empty
      frames := .cons ⟨hclosure, rfl, rfl⟩ .nil
      limits := rfl
      lastPopped := .null
      heap := hheap' }

end

end ClosureMachine
