import ClosureMachine.Value.Container
import ClosureMachine.Text.Quoted

/-!
# The text of a value

Inside a container strings are quoted; on their own they stand as they are. A container that turns
up inside itself is shown as `[...]` or `{...}` instead of its items.
-/

namespace ClosureMachine

/-- The text of a key, strings quoted. -/
def Key.text : Key → List Char
  | integer n => Decimal.ofInt n.toInt
  | boolean b => (if b then "true" else "false").toList
  | string text => Quoted.quote text.toList

namespace Heap

def separated (items : List (List Char)) : List Char :=
  [',', ' '].intercalate items

/-- The text of a value that stands inside the containers `inside`. -/
def render (heap : Heap) (inside : List Container) : Value → List Char
  | .integer n => (Key.integer n).text
  | .boolean b => (Key.boolean b).text
  | .null => "null".toList
  | .string text => (Key.string text).text
  | .array id =>
    if Container.array id ∈ inside then
      "[...]".toList
    else
      let items := (heap.array id).toList.attach.map fun ⟨v, _⟩ =>
        heap.render (.array id :: inside) v
      '[' :: separated items ++ [']']
  | .hash id =>
    if Container.hash id ∈ inside then
      "\x7b...\x7d".toList
    else
      let items := (heap.hash id).entries.attach.map fun ⟨(key, v), _⟩ =>
        key.text ++ ": ".toList ++ heap.render (.hash id :: inside) v
      '\x7b' :: separated items ++ ['\x7d']
  | .function _ routine => "fn/".toList ++ Decimal.ofNat routine.params
  | .closure closure => "closure/".toList ++ Decimal.ofNat closure.routine.params
  | .builtin builtin => "builtin ".toList ++ builtin.name.toList
  | .module id => "module ".toList ++ (heap.module id).name.toList
  termination_by left heap.containers inside
  decreasing_by
    · next hnew hv => exact left_cons_lt (array_mem_containers fun h => by simp [h] at hv) hnew
    · next hnew hv => exact left_cons_lt (hash_mem_containers fun h => by simp [h] at hv) hnew

def display (heap : Heap) : Value → String
  | .string text => text
  | v => String.ofList (heap.render [] v)

/-! ### Containers show their items -/

theorem render_array (heap : Heap) (inside : List Container) (id : Nat) :
    heap.render inside (.array id) =
      if Container.array id ∈ inside then "[...]".toList
      else
        '[' :: separated ((heap.array id).toList.map (heap.render (.array id :: inside)))
          ++ [']'] := by
  rw [render]
  simp

theorem render_hash (heap : Heap) (inside : List Container) (id : Nat) :
    heap.render inside (.hash id) =
      if Container.hash id ∈ inside then "\x7b...\x7d".toList
      else
        '\x7b' :: separated ((heap.hash id).entries.map fun (key, v) =>
          key.text ++ ": ".toList ++ heap.render (.hash id :: inside) v) ++ ['\x7d'] := by
  rw [render]
  simp only [List.map_attach_eq_pmap, List.pmap_eq_map]

/-- A key shows as the value that it is. -/
theorem render_key (heap : Heap) (inside : List Container) (key : Key) :
    heap.render inside key.toValue = key.text := by
  cases key <;> simp only [Key.toValue, render]

end Heap

end ClosureMachine
