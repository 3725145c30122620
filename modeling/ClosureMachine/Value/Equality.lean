import ClosureMachine.Value.Container

/-!
# Structural equality

Two arrays are the same if their elements are, place by place; two hashes, if they have the same
keys with the same values, in whatever order. Everything else is compared as programs compare it.
A pair of containers that is met again while it is being compared is taken to be the same, so the
comparison of containers that hold themselves ends.
-/

namespace ClosureMachine

namespace Heap

/-- Whether two values are the same, given pairs of containers that are being compared. -/
def sameWhile (heap : Heap) (comparing : List (Container × Container)) (x y : Value) : Bool :=
  match x, y with
  | .array a, .array b =>
    if a = b ∨ (.array a, .array b) ∈ comparing then
      true
    else
      (heap.array a).size == (heap.array b).size
        && ((heap.array a).toList.zip (heap.array b).toList).attach.all fun ⟨(x, y), _⟩ =>
          heap.sameWhile ((.array a, .array b) :: comparing) x y
  | .hash a, .hash b =>
    if a = b ∨ (.hash a, .hash b) ∈ comparing then
      true
    else
      (heap.hash a).size == (heap.hash b).size
        && (heap.hash a).entries.attach.all fun ⟨(key, x), _⟩ =>
          match _ : (heap.hash b).find? key with
          | some y => heap.sameWhile ((.hash a, .hash b) :: comparing) x y
          | none => false
  | x, y => x.equals y
  termination_by left heap.containerPairs comparing
  decreasing_by
    · next hnew hxy =>
      have hx : heap.array a ≠ #[] := fun h => by simp [h] at hxy
      have hy : heap.array b ≠ #[] := fun h => by simp [h] at hxy
      exact left_cons_lt (mem_containerPairs (array_mem_containers hx) (array_mem_containers hy))
        fun h => hnew (.inr h)
    · next hnew hx hkey =>
      have hx : (heap.hash a).entries ≠ [] := fun h => by simp [h] at hx
      have hy : (heap.hash b).entries ≠ [] := fun h => by
        rw [Dict.find?, h] at hkey
        cases hkey
      exact left_cons_lt (mem_containerPairs (hash_mem_containers hx) (hash_mem_containers hy))
        fun h => hnew (.inr h)

def same (heap : Heap) (x y : Value) : Bool :=
  heap.sameWhile [] x y

/-! ### Containers compare item by item -/

theorem sameWhile_array (heap : Heap) (comparing : List (Container × Container)) (a b : Nat) :
    heap.sameWhile comparing (.array a) (.array b) =
      if a = b ∨ (.array a, .array b) ∈ comparing then true
      else
        (heap.array a).size == (heap.array b).size
          && ((heap.array a).toList.zip (heap.array b).toList).all fun (x, y) =>
            heap.sameWhile ((.array a, .array b) :: comparing) x y := by
  rw [sameWhile]
  simp only [List.all_subtype, List.unattach_attach]

theorem sameWhile_hash (heap : Heap) (comparing : List (Container × Container)) (a b : Nat) :
    heap.sameWhile comparing (.hash a) (.hash b) =
      if a = b ∨ (.hash a, .hash b) ∈ comparing then true
      else
        (heap.hash a).size == (heap.hash b).size
          && (heap.hash a).entries.all fun (key, x) =>
            match (heap.hash b).find? key with
            | some y => heap.sameWhile ((.hash a, .hash b) :: comparing) x y
            | none => false := by
  rw [sameWhile]
  simp only [List.all_subtype, List.unattach_attach]
  refine ite_congr rfl (fun _ => rfl) fun _ => ?_
  refine congrArg _ (congrArg (List.all _) (funext fun entry => ?_))
  split <;> simp_all

end Heap

end ClosureMachine
