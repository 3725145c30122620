import ClosureMachine.Host.Sample
import ClosureMachine.Proofs.Machine.Cells
import ClosureMachine.Proofs.Machine.Reachable
import ClosureMachine.Proofs.Machine.Transition

/-!
# What a machine can get hold of

A realm is a set of routines and of cells of the heap. No instruction makes a routine, and none gets
hold of a cell but through a value that it has or by taking a new one. So if all that the machine has
lies within a realm, and all that the cells of the realm hold does, that is how it stays.

* **`Machine.Within R m`** says that all that the machine has, wherever it lies, is within the realm.
* **`Exec.Keeps R V a`** says that the action `a` stays within `R`, and that what it answers has `V`.
  There is one lemma for each action, and `keeps_execute` puts them together.
* **`Exec.kept_step`** is the step, if what a host function answers in it is within the realm.
-/

namespace ClosureMachine

/-! ## Realms -/

/-- A set of routines and a set of cells. -/
structure Realm where
  routine : Routine → Prop
  cell : Heap.Cell → Prop

/-- The routine that the value has and the cell that it refers to are in the realm. -/
def Value.Within (R : Realm) : Value → Prop
  | .array id => R.cell (.array id)
  | .hash id => R.cell (.hash id)
  | .function _ routine => R.routine routine
  | .closure c => R.routine c.routine ∧ R.cell (.captures c.id)
  | .module id => R.cell (.module id)
  | _ => True

/-- What the cells of the realm hold is within it. A cell that has not been given out belongs to it
beforehand. -/
structure Heap.Within (R : Realm) (heap : Heap) : Prop where
  contents : ∀ cell, R.cell cell → ∀ v ∈ heap.contents cell, v.Within R
  isNew : ∀ cell, heap.IsNew cell → R.cell cell

/-- Whatever the machine has is within the realm. -/
structure Machine.Within (R : Realm) (m : Machine) : Prop where
  constants : ∀ v ∈ m.constants, v.Within R
  modules : ∀ entry ∈ m.modules.entries, entry.2.Within R
  globals : ∀ v ∈ m.globals, v.Within R
  stack : ∀ v ∈ m.stack, v.Within R
  frames : ∀ frame ∈ m.frames, (Value.closure frame.closure).Within R
  lastPopped : m.lastPopped.Within R
  heap : m.heap.Within R

/-- What a host function hands back is within the realm, be it a value or a fault. -/
structure Answer.Within (R : Realm) (answer : Except Fault Value × Heap) : Prop where
  value : ∀ v, answer.1 = .ok v → v.Within R
  heap : answer.2.Within R

theorem mem_of_mem_extract {α : Type} {values : Array α} {v : α} {start stop : Nat}
    (h : v ∈ values.extract start stop) : v ∈ values := by
  obtain ⟨i, hi⟩ := Array.mem_iff_getElem?.mp h
  rw [Array.getElem?_extract] at hi
  split at hi
  · exact Array.mem_of_getElem? hi
  · cases hi

theorem mem_of_mem_shrink {α : Type} {values : Array α} {v : α} {size : Nat}
    (h : v ∈ values.shrink size) : v ∈ values := by
  rw [Array.shrink_eq_take] at h
  exact mem_of_mem_extract h

/-- What holds of all elements, and of what stands in for them, holds at every place. -/
theorem forall_mem_iff_getD {α : Type} {values : Array α} {d : α} {P : α → Prop} (hd : P d) :
    (∀ value ∈ values, P value) ↔ ∀ place : Nat, P (values[place]?.getD d) := by
  constructor
  · intro h place
    cases hplace : values[place]? with
    | none => exact hd
    | some value => exact h value (Array.mem_of_getElem? hplace)
  · intro h value hvalue
    obtain ⟨place, hplace⟩ := Array.mem_iff_getElem?.mp hvalue
    have hat := h place
    rwa [hplace] at hat

variable {R : Realm}

theorem within_setIfInBounds {values : Array Value} {v : Value} (h : ∀ v ∈ values, v.Within R)
    (place : Nat) (hv : v.Within R) : ∀ w ∈ values.setIfInBounds place v, w.Within R := by
  intro w hw
  rcases Array.mem_or_eq_of_mem_setIfInBounds hw with hw | rfl
  · exact h w hw
  · exact hv

theorem within_insert {α : Type} [DecidableEq α] {dict : Dict α Value}
    (h : ∀ entry ∈ dict.entries, entry.2.Within R) (key : α) {v : Value} (hv : v.Within R) :
    ∀ entry ∈ (dict.insert key v).entries, entry.2.Within R := by
  intro entry hentry
  rcases Dict.mem_put hentry with rfl | hentry
  · exact hv
  · exact h entry hentry

/-! ### Heaps -/

namespace Heap.Within

variable {heap heap' : Heap}

/-- A heap that gains nothing but what is within the realm stays within it. -/
theorem gains (h : heap.Within R) {S : Value → Prop} (hgains : heap.Gains heap' S)
    (hS : ∀ v, S v → v.Within R) : heap'.Within R where
  contents cell hcell v hv := by
    rcases hgains.contents cell v hv with hv | hv
    · exact h.contents cell hcell v hv
    · exact hS v hv
  isNew cell hnew := h.isNew cell (hgains.isNew cell hnew)

theorem array (h : heap.Within R) {id : Nat} (hid : R.cell (.array id)) :
    ∀ v ∈ heap.array id, v.Within R :=
  fun v hv => h.contents (.array id) hid v (Array.mem_toList_iff.mpr hv)

theorem hash (h : heap.Within R) {id : Nat} (hid : R.cell (.hash id)) :
    ∀ entry ∈ (heap.hash id).entries, entry.2.Within R :=
  fun _ hentry => h.contents (.hash id) hid _ (List.mem_map_of_mem hentry)

theorem captured (h : heap.Within R) {closure : Closure} (hid : R.cell (.captures closure.id)) :
    ∀ v ∈ heap.captured closure, v.Within R :=
  fun v hv => h.contents (.captures closure.id) hid v (Array.mem_toList_iff.mpr hv)

theorem module (h : heap.Within R) {id : Nat} (hid : R.cell (.module id)) :
    ∀ entry ∈ (heap.module id).members.entries, entry.2.Within R :=
  fun _ hentry => h.contents (.module id) hid _ (List.mem_map_of_mem hentry)

theorem newArray (h : heap.Within R) {elements : Array Value}
    (helements : ∀ v ∈ elements, v.Within R) :
    (heap.newArray elements).1.Within R ∧ (heap.newArray elements).2.Within R :=
  ⟨h.isNew (.array heap.arrays.size) (Nat.le_refl _),
    h.gains (heap.gains_newArray elements) helements⟩

theorem newHash (h : heap.Within R) {dict : Dict Key Value}
    (hdict : ∀ entry ∈ dict.entries, entry.2.Within R) :
    (heap.newHash dict).1.Within R ∧ (heap.newHash dict).2.Within R := by
  refine ⟨h.isNew (.hash heap.hashes.size) (Nat.le_refl _),
    h.gains (heap.gains_newHash dict) fun v hv => ?_⟩
  obtain ⟨entry, hentry, rfl⟩ := List.mem_map.mp hv
  exact hdict entry hentry

theorem newClosure (h : heap.Within R) {routine : Routine} (hroutine : R.routine routine)
    {captured : Array Value} (hcaptured : ∀ v ∈ captured, v.Within R) :
    (Value.closure (heap.newClosure routine captured).1).Within R
      ∧ (heap.newClosure routine captured).2.Within R :=
  ⟨⟨hroutine, h.isNew (.captures heap.captures.size) (Nat.le_refl _)⟩,
    h.gains (heap.gains_newClosure routine captured) hcaptured⟩

theorem setCapture (h : heap.Within R) (closure : Closure) (slot : Nat) {v : Value}
    (hv : v.Within R) : (heap.setCapture closure slot v).Within R :=
  h.gains (heap.gains_setCapture closure slot v) fun _ hw => hw ▸ hv

theorem write (h : heap.Within R) (place : Heap.Place) {v : Value} (hv : v.Within R) :
    (heap.write place v).Within R :=
  h.gains (heap.gains_write place v) fun _ hw => hw ▸ hv

end Heap.Within

/-- Wherever in its stream the active frame goes on, it runs what it ran. -/
theorem Machine.Within.goto {m : Machine} {frame : Frame} {callers : List Frame} (h : m.Within R)
    (hframes : m.frames = frame :: callers) (ip : Nat) :
    ∀ f ∈ { frame with ip } :: callers, (Value.closure f.closure).Within R := by
  have hall := h.frames
  rw [hframes] at hall
  obtain ⟨hframe, hcallers⟩ := List.forall_mem_cons.mp hall
  exact List.forall_mem_cons.mpr ⟨hframe, hcallers⟩

/-! ### Operations on values -/

/-- What is read from a container within the realm is within it. -/
theorem within_getItem {heap : Heap} (h : heap.Within R) {container index v : Value}
    (hcontainer : container.Within R) (hv : heap.getItem container index = .ok v) :
    v.Within R := by
  unfold Heap.getItem at hv
  split at hv
  · next id n =>
    cases hv
    cases place? n with
    | none => trivial
    | some place => exact (forall_mem_iff_getD trivial).mp (h.array hcontainer) place
  · next text n =>
    cases hv
    cases (place? n).bind fun i => text.toList[i]? with
    | none => trivial
    | some c => trivial
  · next id =>
    obtain ⟨key, -, rfl⟩ := map_eq_ok_iff.mp hv
    cases hkey : (heap.hash id).find? key with
    | none => trivial
    | some w => exact h.hash hcontainer _ (Dict.mem_of_lookup hkey)
  · next id name =>
    cases hv
    cases hname : (heap.module id).members.find? name with
    | none => trivial
    | some w => exact h.module hcontainer _ (Dict.mem_of_lookup hname)
  · cases hv

/-- Numbers, texts and truth values refer to nothing. -/
def Value.IsScalar : Value → Prop
  | .integer _ | .boolean _ | .string _ => True
  | _ => False

theorem Value.IsScalar.within {v : Value} (h : v.IsScalar) : v.Within R := by
  cases v with
  | integer | boolean | string => trivial
  | _ => cases h

theorem isScalar_integerOperation {op : Opcode} {l r : Int64} {v : Value}
    (hv : integerOperation op l r = .ok v) : v.IsScalar := by
  cases op with
  | div | mod =>
    unfold integerOperation at hv
    dsimp only at hv
    split at hv
    · cases hv
    · cases hv
      trivial
  | leftShift | rightShift =>
    obtain ⟨n, -, rfl⟩ := map_eq_ok_iff.mp hv
    trivial
  | add | sub | mul | bitwiseOr | bitwiseXor | bitwiseAnd | greaterThan | greaterThanEqual =>
    cases hv
    trivial
  | _ => cases hv

theorem isScalar_stringOperation {op : Opcode} {l r : String} {v : Value}
    (hv : stringOperation op l r = .ok v) : v.IsScalar := by
  cases op with
  | add | greaterThan | greaterThanEqual =>
    cases hv
    trivial
  | _ => cases hv

/-- An operation on two values gives a scalar, or a new array of what was in two others. -/
theorem within_binary {heap heap' : Heap} (h : heap.Within R) {op : Opcode} {left right v : Value}
    (hleft : left.Within R) (hright : right.Within R)
    (hv : heap.binary op left right = .ok (v, heap')) : v.Within R ∧ heap'.Within R := by
  unfold Heap.binary at hv
  split at hv
  · obtain ⟨w, hw, hpair⟩ := map_eq_ok_iff.mp hv
    cases hpair
    exact ⟨(isScalar_integerOperation hw).within, h⟩
  · obtain ⟨w, hw, hpair⟩ := map_eq_ok_iff.mp hv
    cases hpair
    exact ⟨(isScalar_stringOperation hw).within, h⟩
  · split at hv
    · cases hv
      exact h.newArray (Array.forall_mem_append.mpr ⟨h.array hleft, h.array hright⟩)
    · cases hv
  · cases hv

theorem isScalar_unary {op : Opcode} {operand v : Value} (hv : operand.unary op = .ok v) :
    v.IsScalar := by
  unfold Value.unary at hv
  split at hv
  · cases hv
    trivial
  · cases hv
    trivial
  · cases hv
    trivial
  · cases hv

theorem within_pairs {values : List Value} (h : ∀ v ∈ values, v.Within R) :
    ∀ entry ∈ Exec.pairs values, entry.2.Within R := by
  intro entry hentry
  fun_induction Exec.pairs values with
  | case1 key value rest ih =>
    rcases List.mem_cons.mp hentry with rfl | hentry
    · exact h value (by simp)
    · exact ih (fun v hv => h v (by simp [hv])) hentry
  | case2 => cases hentry

/-- The hash of some entries holds no other values than these. -/
theorem within_hashOf {entries : List (Value × Value)} (h : ∀ entry ∈ entries, entry.2.Within R)
    {dict : Dict Key Value} (hdict : Exec.hashOf entries = .ok dict) :
    ∀ entry ∈ dict.entries, entry.2.Within R := by
  -- from any dictionary that is right so far, the rest of the entries leads to one that is right
  have hrest : ∀ (entries : List (Value × Value)) (before after : Dict Key Value),
      (∀ entry ∈ entries, entry.2.Within R) → (∀ entry ∈ before.entries, entry.2.Within R) →
        entries.foldlM (fun dict (entry : Value × Value) =>
          (dict.insert · entry.2) <$> entry.1.hashKey) before = .ok after →
            ∀ entry ∈ after.entries, entry.2.Within R := by
    intro entries
    induction entries with
    | nil =>
      intro before after _ hbefore hfold
      cases hfold
      exact hbefore
    | cons first rest ih =>
      intro before after hentries hbefore hfold
      rw [List.foldlM_cons] at hfold
      cases hkey : first.1.hashKey with
      | error fault =>
        rw [hkey] at hfold
        cases hfold
      | ok key =>
        rw [hkey] at hfold
        refine ih _ after (fun entry hentry => hentries entry (List.mem_cons_of_mem _ hentry)) ?_
          hfold
        exact within_insert hbefore key (hentries first List.mem_cons_self)
  exact hrest entries .empty dict h (by simp) hdict

/-! ### What a host answers -/

theorem Answer.within_ok {v : Value} (hv : v.Within R) {heap : Heap} (hheap : heap.Within R) :
    Answer.Within R (.ok v, heap) where
  value w hw := by
    cases hw
    exact hv
  heap := hheap

theorem Answer.within_error (fault : Fault) {heap : Heap} (hheap : heap.Within R) :
    Answer.Within R (.error fault, heap) where
  value w hw := by cases hw
  heap := hheap

/-- The sample host answers with what it has been given, or with something new. -/
theorem Host.within_sample (label : String) {heap : Heap} (hheap : heap.Within R)
    {arguments : List Value} (harguments : ∀ v ∈ arguments, v.Within R) :
    Answer.Within R (sample label heap arguments) := by
  have hargument : (Sample.argument arguments).Within R := by
    cases arguments with
    | nil => trivial
    | cons first rest => exact harguments first List.mem_cons_self
  unfold sample
  dsimp only
  split
  · exact Answer.within_ok hargument hheap
  · obtain ⟨hv, hheap'⟩ := hheap.newArray fun v hv => harguments v (List.mem_toArray.mp hv)
    exact Answer.within_ok hv hheap'
  · exact Answer.within_error _ hheap
  · exact Answer.within_error _ hheap
  · exact Answer.within_ok (v := .string _) trivial hheap
  · exact Answer.within_ok (v := .string _) trivial hheap
  · refine ⟨fun v hv => ?_, hheap⟩
    obtain ⟨n, -, rfl⟩ := map_eq_ok_iff.mp hv
    trivial
  · unfold Sample.append
    split
    · next id hid =>
      refine Answer.within_ok (hid ▸ hargument) (hheap.gains (heap.gains_appendTo _ _) ?_)
      exact fun v hv => harguments v (List.mem_of_mem_tail (List.mem_toArray.mp hv))
    · exact Answer.within_error _ hheap
  · exact Answer.within_error _ hheap

/-! ## Actions -/

namespace Exec

/-- The machine is within the realm, whether there was a fault or not, and an answer has `V`. -/
inductive Kept (R : Realm) {α : Type} (V : α → Prop) :
    EStateM.Result Fault Machine α → Prop
  | ok {x : α} {m : Machine} (answer : V x) (machine : m.Within R) : Kept R V (.ok x m)
  | error {fault : Fault} {m : Machine} (machine : m.Within R) : Kept R V (.error fault m)

theorem Kept.machine {α : Type} {V : α → Prop} {r : EStateM.Result Fault Machine α}
    (h : Kept R V r) : (Machine.ofResult r).Within R := by
  cases h with
  | ok _ hm => exact hm
  | error hm => exact hm

/-- The action stays within the realm, and what it answers has `V`. -/
def Keeps (R : Realm) {α : Type} (V : α → Prop) (a : Exec α) : Prop :=
  ∀ m, m.Within R → Kept R V (a m)

variable {α β : Type} {V : α → Prop} {W : β → Prop}

theorem Kept.bind {a : Exec α} {f : α → Exec β} {m : Machine} (ha : Kept R V (a m))
    (hf : ∀ x, V x → Keeps R W (f x)) : Kept R W ((a >>= f) m) := by
  rw [bind_apply]
  generalize a m = r at ha
  cases ha with
  | ok hx hm => exact hf _ hx _ hm
  | error hm => exact .error hm

theorem Keeps.bind {a : Exec α} {f : α → Exec β} (ha : Keeps R V a)
    (hf : ∀ x, V x → Keeps R W (f x)) : Keeps R W (a >>= f) :=
  fun m hm => (ha m hm).bind hf

/-- What only looks at the machine keeps it as it is. -/
theorem Reads.keeps {a : Exec α} (ha : Reads a)
    (hV : ∀ {m x}, m.Within R → a m = .ok x m → V x) : Keeps R V a := by
  intro m hm
  rcases ha m with ⟨x, h⟩ | ⟨e, h⟩
  · rw [h]
    exact .ok (hV hm h) hm
  · rw [h]
    exact .error hm

theorem keeps_pure {x : α} (hx : V x) : Keeps R V (pure x) :=
  fun _ hm => .ok hx hm

theorem keeps_throw (fault : Fault) : Keeps R V (throw fault : Exec α) :=
  fun _ hm => .error hm

/-! ### The operand stack -/

theorem keeps_push {v : Value} (hv : v.Within R) : Keeps R (fun _ => True) (push v) := by
  intro m hm
  unfold push
  split
  · exact .ok trivial { hm with stack := Array.forall_mem_push.mpr ⟨hv, hm.stack⟩ }
  · exact .error hm

theorem keeps_pop : Keeps R (Value.Within R) pop := by
  intro m hm
  unfold pop
  split
  · refine .ok (hm.stack _ ?_) { hm with stack := fun v hv => hm.stack v ?_ }
    · exact Array.back_mem _
    · rw [← Array.extract_eq_pop rfl] at hv
      exact mem_of_mem_extract hv
  · exact .error hm

theorem keeps_popMany (count : Nat) :
    Keeps R (fun values => ∀ v ∈ values, v.Within R) (popMany count) := by
  intro m hm
  unfold popMany
  split
  · exact .ok (fun v hv => hm.stack v (mem_of_mem_extract hv))
      { hm with stack := fun v hv => hm.stack v (mem_of_mem_shrink hv) }
  · exact .error hm

theorem keeps_truncate (height : Nat) : Keeps R (fun _ => True) (truncate height) :=
  fun _ hm => .ok trivial { hm with stack := fun v hv => hm.stack v (mem_of_mem_shrink hv) }

theorem keeps_discard {v : Value} (hv : v.Within R) : Keeps R (fun _ => True) (discard v) :=
  fun _ hm => .ok trivial { hm with lastPopped := hv }

theorem keeps_callee (given : Nat) : Keeps R (fun found => found.2.Within R) (callee given) := by
  intro m hm
  unfold callee
  split
  · exact .ok (hm.stack _ (Array.getElem_mem _)) hm
  · exact .error hm

/-! ### Constants, builtins and modules -/

theorem keeps_constant (index : Nat) : Keeps R (Value.Within R) (constant index) := by
  intro m hm
  unfold constant
  split
  · next v hv => exact .ok (hm.constants v (Array.mem_of_getElem? hv)) hm
  · exact .error hm

theorem keeps_routine (index : Nat) : Keeps R R.routine (routine index) := by
  refine (keeps_constant index).bind fun v hv => ?_
  split
  · exact keeps_pure hv
  · exact keeps_throw _

theorem keeps_builtin (index : Nat) : Keeps R (Value.Within R) (builtin index) := by
  intro m hm
  unfold builtin
  split
  · exact .ok trivial hm
  · exact .error hm

theorem keeps_moduleNamed (name : Value) : Keeps R (Value.Within R) (moduleNamed name) := by
  intro m hm
  unfold moduleNamed
  split
  · split
    · next module hmodule => exact .ok (hm.modules _ (Dict.mem_of_lookup hmodule)) hm
    · exact .error hm
  · exact .error hm

/-! ### Variables -/

theorem keeps_checkGlobal (index : Nat) : Keeps R (fun _ => True) (checkGlobal index) :=
  (reads_checkGlobal index).keeps fun _ _ => trivial

theorem keeps_global (index : Nat) : Keeps R (Value.Within R) (global index) := by
  intro m hm
  unfold global
  split
  · next v hv => exact .ok (hm.globals v (Array.mem_of_getElem? hv)) hm
  · exact .error hm

theorem keeps_setGlobal (index : Nat) {v : Value} (hv : v.Within R) :
    Keeps R (fun _ => True) (setGlobal index v) :=
  fun _ hm => .ok trivial { hm with globals := within_setIfInBounds hm.globals index hv }

theorem keeps_frame : Keeps R (fun frame => (Value.closure frame.closure).Within R) frame := by
  intro m hm
  unfold frame
  split
  · exact .error hm
  · next frame callers hframes => exact .ok (hm.frames frame (hframes ▸ List.mem_cons_self)) hm

theorem keeps_localSlot (index : Nat) : Keeps R (fun _ => True) (localSlot index) :=
  (reads_localSlot index).keeps fun _ _ => trivial

theorem keeps_slot (place : Nat) : Keeps R (Value.Within R) (slot place) :=
  fun _ hm => .ok ((forall_mem_iff_getD trivial).mp hm.stack place) hm

theorem keeps_setSlot (place : Nat) {v : Value} (hv : v.Within R) :
    Keeps R (fun _ => True) (setSlot place v) :=
  fun _ hm => .ok trivial { hm with stack := within_setIfInBounds hm.stack place hv }

/-! ### The heap -/

theorem keeps_query {f : Heap → Except Fault α}
    (hf : ∀ {heap x}, heap.Within R → f heap = .ok x → V x) : Keeps R V (query f) := by
  intro m hm
  unfold query
  split
  · next x hx => exact .ok (hf hm.heap hx) hm
  · exact .error hm

/-- The heap that `f` leaves behind is what counts, not the one that it was given. -/
theorem kept_onHeap {f : Heap → Except Fault α × Heap} {m : Machine}
    (hm : Machine.Within R { m with heap := (f m.heap).2 })
    (hf : ∀ x, (f m.heap).1 = .ok x → V x) : Kept R V (onHeap f m) := by
  unfold onHeap
  dsimp only
  split
  · next x heap hx =>
    rw [hx] at hm hf
    exact .ok (hf x rfl) hm
  · next fault heap hfault =>
    rw [hfault] at hm
    exact .error hm

theorem keeps_onHeap {f : Heap → Except Fault α × Heap}
    (hf : ∀ heap, heap.Within R → (∀ x, (f heap).1 = .ok x → V x) ∧ (f heap).2.Within R) :
    Keeps R V (onHeap f) :=
  fun m hm => kept_onHeap { hm with heap := (hf m.heap hm.heap).2 } (hf m.heap hm.heap).1

theorem keeps_create {f : Heap → α × Heap}
    (hf : ∀ heap, heap.Within R → V (f heap).1 ∧ (f heap).2.Within R) : Keeps R V (create f) := by
  refine keeps_onHeap fun heap hheap => ⟨fun x hx => ?_, (hf heap hheap).2⟩
  cases hx
  exact (hf heap hheap).1

theorem keeps_change {f : Heap → Heap} (hf : ∀ heap, heap.Within R → (f heap).Within R) :
    Keeps R (fun _ => True) (change f) :=
  keeps_create fun heap hheap => ⟨trivial, hf heap hheap⟩

theorem keeps_attempt {f : Heap → Except Fault (α × Heap)}
    (hf : ∀ {heap x heap'}, heap.Within R → f heap = .ok (x, heap') → V x ∧ heap'.Within R) :
    Keeps R V (attempt f) := by
  refine keeps_onHeap fun heap hheap => ?_
  cases hresult : f heap with
  | error fault =>
    refine ⟨fun x hx => ?_, hheap⟩
    cases hx
  | ok result =>
    obtain ⟨hx, hheap'⟩ := hf hheap hresult
    refine ⟨fun x hx' => ?_, hheap'⟩
    cases hx'
    exact hx

/-! ### Frames -/

theorem keeps_fetch : Keeps R (fun _ => True) fetch := by
  intro m hm
  unfold fetch
  split
  · exact .error hm
  · next frame callers hframes =>
    split
    · next i frame' hfetch =>
      obtain ⟨i', -, hpair⟩ := map_eq_ok_iff.mp hfetch
      cases hpair
      exact .ok trivial { hm with frames := hm.goto hframes _ }
    · exact .error hm

theorem keeps_jump (target : Nat) : Keeps R (fun _ => True) (jump target) := by
  intro m hm
  unfold jump
  split
  · exact .error hm
  · next frame callers hframes =>
    unfold Frame.jump
    split
    · next frame' hjump =>
      split at hjump
      · cases hjump
      · cases hjump
        exact .ok trivial { hm with frames := hm.goto hframes _ }
    · exact .error hm

theorem keeps_enter {closure : Closure} (hclosure : (Value.closure closure).Within R) (given : Nat) :
    Keeps R (fun _ => True) (enter closure given) := by
  intro m hm
  unfold enter
  dsimp only
  split
  · exact .error hm
  split
  · exact .error hm
  split
  · exact .error hm
  · refine .ok trivial { hm with
      stack := Array.forall_mem_append.mpr
        ⟨hm.stack, Array.forall_mem_replicate.mpr (Or.inr trivial)⟩
      frames := fun f hf => ?_ }
    rcases List.mem_cons.mp hf with rfl | hf
    · exact hclosure
    · exact hm.frames f hf

theorem keeps_leave : Keeps R (fun _ => True) leave := by
  intro m hm
  unfold leave
  split
  · exact .error hm
  · next frame callers hframes =>
    exact .ok trivial { hm with
      stack := fun v hv => hm.stack v (mem_of_mem_shrink hv)
      frames := fun f hf => hm.frames f (hframes ▸ List.mem_cons_of_mem _ hf) }

/-! ### Instructions and steps -/

/-- A value that is left behind is within the realm. -/
def Leaving (R : Realm) : Progress → Prop
  | .left v => v.Within R
  | _ => True

variable {host : Host} {m : Machine}

theorem Keeps.proceed {a : Exec Unit} (ha : Keeps R (fun _ => True) a) :
    Keeps R (Leaving R) (proceed a) :=
  ha.bind fun _ _ => keeps_pure trivial

theorem keeps_leaveWith {v : Value} (hv : v.Within R) : Keeps R (Leaving R) (leaveWith v) :=
  keeps_leave.bind fun _ _ => keeps_pure hv

theorem keeps_binary (op : Opcode) :
    Keeps R (fun _ => True) (do
      let right ← pop
      let left ← pop
      push (← attempt fun heap => heap.binary op left right)) := by
  refine keeps_pop.bind fun right hright => keeps_pop.bind fun left hleft => ?_
  refine Keeps.bind (V := Value.Within R) ?_ fun v hv => keeps_push hv
  exact keeps_attempt fun hheap hv => within_binary hheap hleft hright hv

theorem keeps_pure_binary {f : Value → Value → Value} (hf : ∀ left right, (f left right).Within R) :
    Keeps R (fun _ => True) (do
      let right ← pop
      let left ← pop
      push (f left right)) :=
  keeps_pop.bind fun right _ => keeps_pop.bind fun left _ => keeps_push (hf left right)

theorem keeps_unary (op : Opcode) :
    Keeps R (fun _ => True) (do
      let operand ← pop
      push (← query fun _ => operand.unary op)) := by
  refine keeps_pop.bind fun operand _ => ?_
  exact (keeps_query fun _ hv => (isScalar_unary hv).within).bind fun v hv => keeps_push hv

/-- **No instruction leaves the realm**, calls aside. -/
theorem keeps_execute (i : Instruction) (hop : i.opcode ≠ .call) :
    Keeps R (Leaving R) (execute host i) := by
  obtain ⟨op, operands⟩ := i
  cases op with
  | loadConstant => exact .proceed ((keeps_constant _).bind fun _ hv => keeps_push hv)
  | loadTrue => exact .proceed (keeps_push trivial)
  | loadFalse => exact .proceed (keeps_push trivial)
  | loadNull => exact .proceed (keeps_push trivial)
  | loadBuiltin => exact .proceed ((keeps_builtin _).bind fun _ hv => keeps_push hv)
  | assignGlobal =>
    refine .proceed ((keeps_checkGlobal _).bind fun _ _ => ?_)
    exact keeps_pop.bind fun _ hv => keeps_setGlobal _ hv
  | bindGlobal =>
    refine .proceed ((keeps_checkGlobal _).bind fun _ _ => keeps_pop.bind fun _ hv => ?_)
    exact (keeps_setGlobal _ hv).bind fun _ _ => keeps_push hv
  | loadGlobal => exact .proceed ((keeps_global _).bind fun _ hv => keeps_push hv)
  | assignLocal =>
    refine .proceed ((keeps_localSlot _).bind fun place _ => ?_)
    exact keeps_pop.bind fun _ hv => keeps_setSlot place hv
  | bindLocal =>
    refine .proceed ((keeps_localSlot _).bind fun place _ => keeps_pop.bind fun _ hv => ?_)
    exact (keeps_setSlot place hv).bind fun _ _ => keeps_push hv
  | loadLocal =>
    refine .proceed ((keeps_localSlot _).bind fun place _ => ?_)
    exact (keeps_slot place).bind fun _ hv => keeps_push hv
  | loadFree =>
    refine .proceed (keeps_frame.bind fun frame hframe => Keeps.bind (V := Value.Within R) ?_ ?_)
    · refine keeps_query fun {heap v} hheap hv => ?_
      split at hv
      · next w hw =>
        cases hv
        exact hheap.captured hframe.2 v (Array.mem_of_getElem? hw)
      · cases hv
    · exact fun _ hv => keeps_push hv
  -- the one value that an instruction puts into a closure is the closure itself
  | setSelf =>
    refine .proceed (keeps_frame.bind fun frame hframe => ?_)
    refine Keeps.bind (V := fun _ => True) (keeps_query fun _ _ => trivial) fun _ _ => ?_
    exact keeps_change fun heap hheap => hheap.setCapture frame.closure _ hframe
  | loadModule =>
    refine .proceed (keeps_pop.bind fun name _ => ?_)
    exact (keeps_moduleNamed name).bind fun _ hv => keeps_push hv
  | getItem =>
    refine .proceed (keeps_pop.bind fun index _ => keeps_pop.bind fun container hcontainer => ?_)
    refine Keeps.bind (V := Value.Within R) ?_ fun _ hv => keeps_push hv
    exact keeps_query fun hheap hv => within_getItem hheap hcontainer hv
  | setItem =>
    refine .proceed (keeps_pop.bind fun v hv => keeps_pop.bind fun index _ => ?_)
    refine keeps_pop.bind fun container _ => ?_
    refine Keeps.bind (V := fun _ => True) (keeps_query fun _ _ => trivial) fun place _ => ?_
    exact keeps_change fun heap hheap => hheap.write place hv
  | makeArray =>
    refine .proceed ((keeps_popMany _).bind fun elements helements => ?_)
    refine Keeps.bind (V := Value.Within R) ?_ fun _ hv => keeps_push hv
    exact keeps_create fun heap hheap => hheap.newArray helements
  | makeHash =>
    have hrest : Keeps R (fun _ => True) (do
        let items ← popMany (Instruction.first ⟨.makeHash, operands⟩)
        let entries ← query fun _ => hashOf (pairs items.toList)
        push (← create fun heap => heap.newHash entries)) := by
      refine (keeps_popMany _).bind fun items hitems => ?_
      have hpairs := within_pairs fun v hv => hitems v (Array.mem_toList_iff.mp hv)
      refine (keeps_query fun _ hdict => within_hashOf hpairs hdict).bind fun dict hdict => ?_
      refine Keeps.bind (V := Value.Within R) ?_ fun _ hv => keeps_push hv
      exact keeps_create fun heap hheap => hheap.newHash hdict
    refine .proceed ?_
    split
    · exact Keeps.bind (V := fun _ => True) (keeps_throw _) fun _ _ => hrest
    · exact hrest
  | makeClosure =>
    refine .proceed ((keeps_routine _).bind fun routine hroutine => ?_)
    refine (keeps_popMany _).bind fun captures hcaptures => ?_
    refine Keeps.bind (V := fun closure => (Value.closure closure).Within R) ?_ fun _ hv => ?_
    · exact keeps_create fun heap hheap => hheap.newClosure hroutine hcaptures
    · exact keeps_push hv
  | pop => exact .proceed (keeps_pop.bind fun _ hv => keeps_discard hv)
  | noop => exact .proceed (keeps_pure trivial)
  | add => exact .proceed (keeps_binary _)
  | sub => exact .proceed (keeps_binary _)
  | mul => exact .proceed (keeps_binary _)
  | div => exact .proceed (keeps_binary _)
  | mod => exact .proceed (keeps_binary _)
  | bitwiseOr => exact .proceed (keeps_binary _)
  | bitwiseXor => exact .proceed (keeps_binary _)
  | bitwiseAnd => exact .proceed (keeps_binary _)
  | leftShift => exact .proceed (keeps_binary _)
  | rightShift => exact .proceed (keeps_binary _)
  | greaterThan => exact .proceed (keeps_binary _)
  | greaterThanEqual => exact .proceed (keeps_binary _)
  | equal => exact .proceed (keeps_pure_binary fun _ _ => trivial)
  | notEqual => exact .proceed (keeps_pure_binary fun _ _ => trivial)
  | or => exact .proceed (keeps_pure_binary fun _ _ => trivial)
  | and => exact .proceed (keeps_pure_binary fun _ _ => trivial)
  | not => exact .proceed (keeps_unary _)
  | minus => exact .proceed (keeps_unary _)
  | bitwiseNot => exact .proceed (keeps_unary _)
  | jump => exact .proceed (keeps_jump _)
  | jumpIfFalse =>
    refine .proceed (keeps_pop.bind fun condition _ => ?_)
    split
    · exact keeps_jump _
    · exact keeps_pure trivial
  | call => exact absurd rfl hop
  | returnValue => exact keeps_pop.bind fun _ hv => keeps_leaveWith hv
  | bareReturn => exact keeps_leaveWith trivial

theorem eq_of_callee {given place : Nat} {v : Value} {m' : Machine}
    (h : callee given m = .ok (place, v) m') :
    m' = m ∧ m.floor + (given + 1) ≤ m.stack.size ∧ place = m.stack.size - (given + 1)
      ∧ m.stack[place]? = some v := by
  unfold callee at h
  split at h
  · next henough =>
    cases h
    exact ⟨rfl, henough, rfl, Array.getElem?_eq_getElem (by omega)⟩
  · cases h

/-- A call that comes to a closure stays within the realm, and so does one that comes to a function
of the host if the answer does. -/
theorem kept_call (hm : m.Within R) (given : Nat)
    (hanswer : ∀ place b, callee given m = .ok (place, .builtin b) m →
      Answer.Within R
        (host b.label m.heap (m.stack.extract (place + 1) m.stack.size).toList)) :
    Kept R (Leaving R) (call host given m) := by
  have hkept := keeps_callee (R := R) given m hm
  unfold call
  rw [bind_apply]
  cases hcallee : callee given m with
  | error fault m' =>
    rw [hcallee] at hkept
    cases hkept with
    | error hm' => exact .error hm'
  | ok found m' =>
    obtain ⟨place, v⟩ := found
    rw [hcallee] at hkept
    cases hkept with
    | ok hv hm' =>
      obtain ⟨rfl, -⟩ := eq_of_callee hcallee
      cases v with
      | closure closure =>
        exact (keeps_enter hv given m' hm').bind fun _ _ => keeps_pure trivial
      | builtin b =>
        have hhost := hanswer place b hcallee
        show Kept R (Leaving R) ((do
          let answer ← onHeap fun heap =>
            host b.label heap (m'.stack.extract (place + 1) m'.stack.size).toList
          truncate place
          push answer
          return Progress.next : Exec Progress) m')
        refine (kept_onHeap { hm' with heap := hhost.heap } hhost.value).bind fun _ hv => ?_
        refine (keeps_truncate place).bind fun _ _ => ?_
        exact (keeps_push hv).bind fun _ _ => keeps_pure trivial
      | _ => exact .error hm'

/-- If the step calls a function of the host, what that answers is within the realm. -/
def Answered (R : Realm) (host : Host) (m : Machine) : Prop :=
  ∀ frame callers i place b, m.frames = frame :: callers → Calls m frame i place (.builtin b) →
    Answer.Within R (host b.label m.heap (m.stack.extract (place + 1) m.stack.size).toList)

theorem kept_dispatch (hm : m.Within R) (hanswer : Answered R host m) :
    Kept R (Leaving R) (dispatch host m) := by
  cases hframes : m.frames with
  | nil =>
    have hframe : frame m = .error .stackUnderflow m := by
      unfold frame
      rw [hframes]
    unfold dispatch
    rw [bind_apply, hframe]
    exact .error hm
  | cons frame callers =>
    cases hend : frame.isFinished with
    | true =>
      rw [dispatch_of_frames hframes, if_pos hend]
      split
      · exact .ok trivial { hm with frames := List.forall_mem_nil _ }
      · exact keeps_leaveWith (v := .null) trivial m hm
    | false =>
      cases hnext : frame.next with
      | error e =>
        rw [dispatch_of_error hframes hend hnext]
        exact .error hm
      | ok i =>
        rw [dispatch_of_next hframes hnext]
        have hpast : Machine.Within R { m with frames := frame.past i :: callers } :=
          { hm with frames := hm.goto hframes _ }
        by_cases hop : i.opcode = .call
        · rw [show execute host i = call host i.first from by unfold execute; rw [hop]]
          refine kept_call hpast i.first fun place b hcallee => ?_
          obtain ⟨-, henough, hplace, hcallee⟩ := eq_of_callee hcallee
          rw [floor_past hframes] at henough
          exact hanswer frame callers i place b hframes
            ⟨hnext, hop, henough, hplace, hcallee⟩
        · exact keeps_execute i hop _ hpast

/-- **A step stays within the realm**, if what a host function answers in it does. -/
theorem kept_step (hm : m.Within R) (hanswer : Answered R host m) :
    Kept R (fun _ => True) (step host m) := by
  refine (kept_dispatch hm hanswer).bind fun progress hprogress => ?_
  cases progress with
  | left v => exact keeps_push hprogress
  | _ => exact keeps_pure trivial

end Exec

end ClosureMachine
