import ClosureMachine.Value.Item

/-!
# The cells of the heap

The heap seen as cells, one for each array, hash, closure and module: a value refers to at most one
of them, and each holds some values.

**`Heap.Gains heap heap' S`** says that what the cells of `heap'` hold they held in `heap`, or it has
`S`. There is one lemma for each change of the heap.
-/

namespace ClosureMachine

/-- What has contents in the heap. The cell of a closure holds its captures. -/
inductive Heap.Cell where
  | array (id : Nat)
  | hash (id : Nat)
  | captures (id : Nat)
  | module (id : Nat)
  deriving DecidableEq

/-- The cell that a value refers to. -/
def Value.cell? : Value → Option Heap.Cell
  | .array id => some (.array id)
  | .hash id => some (.hash id)
  | .closure c => some (.captures c.id)
  | .module id => some (.module id)
  | _ => none

namespace Heap

def contents (heap : Heap) : Cell → List Value
  | .array id => (heap.array id).toList
  | .hash id => (heap.hash id).entries.map Prod.snd
  | .captures id => (heap.captures[id]?.getD #[]).toList
  | .module id => (heap.module id).members.entries.map Prod.snd

/-- The cell has not been given out yet. -/
def IsNew (heap : Heap) : Cell → Prop
  | .array id => heap.arrays.size ≤ id
  | .hash id => heap.hashes.size ≤ id
  | .captures id => heap.captures.size ≤ id
  | .module id => heap.modules.size ≤ id

theorem contents_of_isNew {heap : Heap} {cell : Cell} (h : heap.IsNew cell) :
    heap.contents cell = [] := by
  cases cell with
  | array id => simp [contents, array, Array.getElem?_eq_none h]
  | hash id => simp [contents, hash, Array.getElem?_eq_none h]
  | captures id => simp [contents, Array.getElem?_eq_none h]
  | module id => simp [contents, module, Array.getElem?_eq_none h]

/-! ## Changes -/

/-- What the cells of `heap'` hold they held in `heap`, or it has `S`; and no cell is taken back. -/
structure Gains (heap heap' : Heap) (S : Value → Prop) : Prop where
  contents : ∀ cell, ∀ v ∈ heap'.contents cell, v ∈ heap.contents cell ∨ S v
  isNew : ∀ cell, heap'.IsNew cell → heap.IsNew cell

/-- What lies at a place of an array that has one more element. -/
theorem getD_push {α : Type} {values : Array α} {value default : α} {place : Nat} {P : α → Prop}
    (h : P ((values.push value)[place]?.getD default)) :
    P (values[place]?.getD default) ∨ P value := by
  rw [Array.getElem?_push] at h
  split at h
  · exact Or.inr h
  · exact Or.inl h

theorem getD_modify {α : Type} {values : Array α} {f : α → α} {default : α} {place place' : Nat}
    {P : α → Prop} (h : P ((values.modify place f)[place']?.getD default)) :
    P (values[place']?.getD default) ∨ P (f (values[place']?.getD default)) := by
  rw [Array.getElem?_modify] at h
  split at h
  · cases hvalue : values[place']? with
    | none =>
      rw [hvalue] at h
      exact Or.inl h
    | some value =>
      rw [hvalue] at h
      exact Or.inr h
  · exact Or.inl h

theorem mem_insert {α : Type} [DecidableEq α] {dict : Dict α Value} {key : α} {v w : Value}
    (h : w ∈ (dict.insert key v).entries.map Prod.snd) : w ∈ dict.entries.map Prod.snd ∨ w = v := by
  obtain ⟨entry, hentry, rfl⟩ := List.mem_map.mp h
  rcases Dict.mem_put hentry with rfl | hentry
  · exact Or.inr rfl
  · exact Or.inl (List.mem_map_of_mem hentry)

theorem mem_setIfInBounds {values : Array Value} {slot : Nat} {v w : Value}
    (h : w ∈ (values.setIfInBounds slot v).toList) : w ∈ values.toList ∨ w = v := by
  rw [Array.mem_toList_iff] at h ⊢
  exact Array.mem_or_eq_of_mem_setIfInBounds h

variable (heap : Heap)

theorem gains_newArray (elements : Array Value) :
    heap.Gains (heap.newArray elements).2 (· ∈ elements) where
  contents cell v hv := by
    cases cell with
    | array id =>
      rcases getD_push (P := (v ∈ Array.toList ·)) hv with hv | hv
      · exact Or.inl hv
      · exact Or.inr (Array.mem_toList_iff.mp hv)
    | _ => exact Or.inl hv
  isNew cell h := by
    cases cell with
    | array id => exact Nat.le_of_succ_le (by simpa [IsNew, newArray] using h)
    | _ => exact h

theorem gains_newHash (dict : Dict Key Value) :
    heap.Gains (heap.newHash dict).2 (· ∈ dict.entries.map Prod.snd) where
  contents cell v hv := by
    cases cell with
    | hash id => exact getD_push (P := fun dict : Dict Key Value => v ∈ dict.entries.map Prod.snd) hv
    | _ => exact Or.inl hv
  isNew cell h := by
    cases cell with
    | hash id => exact Nat.le_of_succ_le (by simpa [IsNew, newHash] using h)
    | _ => exact h

theorem gains_newClosure (routine : Routine) (captured : Array Value) :
    heap.Gains (heap.newClosure routine captured).2 (· ∈ captured) where
  contents cell v hv := by
    cases cell with
    | captures id =>
      rcases getD_push (P := (v ∈ Array.toList ·)) hv with hv | hv
      · exact Or.inl hv
      · exact Or.inr (Array.mem_toList_iff.mp hv)
    | _ => exact Or.inl hv
  isNew cell h := by
    cases cell with
    | captures id => exact Nat.le_of_succ_le (by simpa [IsNew, newClosure] using h)
    | _ => exact h

theorem gains_setElement (id slot : Nat) (v : Value) :
    heap.Gains (heap.setElement id slot v) (· = v) where
  contents cell w hw := by
    cases cell with
    | array id' =>
      rcases getD_modify (P := (w ∈ Array.toList ·)) hw with hw | hw
      · exact Or.inl hw
      · exact mem_setIfInBounds hw
    | _ => exact Or.inl hw
  isNew cell h := by
    cases cell with
    | array id' => simpa [IsNew, setElement] using h
    | _ => exact h

theorem gains_appendTo (id : Nat) (elements : Array Value) :
    heap.Gains (heap.appendTo id elements) (· ∈ elements) where
  contents cell v hv := by
    cases cell with
    | array id' =>
      rcases getD_modify (P := (v ∈ Array.toList ·)) hv with hv | hv
      · exact Or.inl hv
      · simpa [contents, array] using hv
    | _ => exact Or.inl hv
  isNew cell h := by
    cases cell with
    | array id' => simpa [IsNew, appendTo] using h
    | _ => exact h

theorem gains_setEntry (id : Nat) (key : Key) (v : Value) :
    heap.Gains (heap.setEntry id key v) (· = v) where
  contents cell w hw := by
    cases cell with
    | hash id' =>
      rcases getD_modify (P := fun dict : Dict Key Value => w ∈ dict.entries.map Prod.snd) hw with
        hw | hw
      · exact Or.inl hw
      · exact mem_insert hw
    | _ => exact Or.inl hw
  isNew cell h := by
    cases cell with
    | hash id' => simpa [IsNew, setEntry] using h
    | _ => exact h

theorem gains_setCapture (closure : Closure) (slot : Nat) (v : Value) :
    heap.Gains (heap.setCapture closure slot v) (· = v) where
  contents cell w hw := by
    cases cell with
    | captures id =>
      rcases getD_modify (P := (w ∈ Array.toList ·)) hw with hw | hw
      · exact Or.inl hw
      · exact mem_setIfInBounds hw
    | _ => exact Or.inl hw
  isNew cell h := by
    cases cell with
    | captures id => simpa [IsNew, setCapture] using h
    | _ => exact h

theorem gains_write (place : Heap.Place) (v : Value) : heap.Gains (heap.write place v) (· = v) := by
  cases place with
  | element id slot => exact heap.gains_setElement id slot v
  | entry id key => exact heap.gains_setEntry id key v

end Heap

end ClosureMachine
