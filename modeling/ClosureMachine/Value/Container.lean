import ClosureMachine.Heap

/-!
# Walking through containers

Arrays and hashes can hold themselves, so a walk through them remembers the containers that it is
in. Each container that it enters is one of finitely many and a new one, so the number of those
left goes down (`left_cons_lt`) and the walk ends.
-/

namespace ClosureMachine

inductive Container where
  | array (id : Nat)
  | hash (id : Nat)
  deriving DecidableEq

def Heap.containers (heap : Heap) : List Container :=
  (List.range heap.arrays.size).map .array ++ (List.range heap.hashes.size).map .hash

def Heap.containerPairs (heap : Heap) : List (Container × Container) :=
  heap.containers.flatMap fun a => heap.containers.map fun b => (a, b)

/-- How many of `all` are not among those seen. -/
def left {α : Type} [DecidableEq α] (all seen : List α) : Nat :=
  all.countP (· ∉ seen)

/-- Seeing one more of `all` leaves fewer of them. -/
theorem left_cons_lt {α : Type} [DecidableEq α] {all seen : List α} {a : α} (ha : a ∈ all)
    (hnew : a ∉ seen) : left all (a :: seen) < left all seen := by
  induction all with
  | nil => simp at ha
  | cons b rest ih =>
    have hle : left rest (a :: seen) ≤ left rest seen :=
      List.countP_mono_left fun c _ hc => by simp_all
    unfold left at hle ih ⊢
    by_cases hab : b = a
    · subst hab
      rw [List.countP_cons_of_neg (by simp), List.countP_cons_of_pos (by simpa using hnew)]
      omega
    · have hrest := ih (by simpa [Ne.symm hab] using ha)
      by_cases hb : b ∈ seen
      · rw [List.countP_cons_of_neg (by simp [hb]), List.countP_cons_of_neg (by simp [hb])]
        exact hrest
      · rw [List.countP_cons_of_pos (by simp [hb, hab]), List.countP_cons_of_pos (by simp [hb])]
        omega

namespace Heap

theorem array_mem_containers {heap : Heap} {id : Nat} (h : heap.array id ≠ #[]) :
    Container.array id ∈ heap.containers := by
  have hlt : id < heap.arrays.size := by
    apply Decidable.byContradiction
    intro hge
    exact h (by simp [array, Array.getElem?_eq_none (Nat.le_of_not_lt hge)])
  simp [containers, hlt]

theorem hash_mem_containers {heap : Heap} {id : Nat} (h : (heap.hash id).entries ≠ []) :
    Container.hash id ∈ heap.containers := by
  have hlt : id < heap.hashes.size := by
    apply Decidable.byContradiction
    intro hge
    exact h (by simp [hash, Array.getElem?_eq_none (Nat.le_of_not_lt hge)])
  simp [containers, hlt]

theorem mem_containerPairs {heap : Heap} {a b : Container} (ha : a ∈ heap.containers)
    (hb : b ∈ heap.containers) : (a, b) ∈ heap.containerPairs :=
  List.mem_flatMap.2 ⟨a, ha, List.mem_map.2 ⟨b, hb, rfl⟩⟩

end Heap

end ClosureMachine
