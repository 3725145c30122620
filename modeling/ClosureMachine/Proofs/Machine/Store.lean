import ClosureMachine.Proofs.Machine.Cells
import ClosureMachine.Proofs.Machine.Exchange
import ClosureMachine.Proofs.Machine.Footprint

/-!
# The laws of the store

Containers are shared, and a container may well hold itself. What is assigned to an item of one is
read back through whatever refers to that container, and all other items are read as before.

* **`Heap.Assignable`** says which items can be assigned to, and `setItem_isOk_iff` that there are
  no others.
* **`Heap.Stores`** is all that an assignment makes of the heap. `stores_setElement` and
  `stores_setEntry` are the two kinds of assignment there are, `stores_of_setItem` covers both.
* **`Heap.store_laws`** puts this together, with what becomes of the machine if there is a fault.
-/

namespace ClosureMachine

/-! ## Indices -/

/-- Only one integer denotes a given place. -/
theorem place?_inj {n n' : Int64} {slot : Nat} (h : place? n = some slot)
    (h' : place? n' = some slot) : n = n' := by
  unfold place? at h h'
  split at h
  · cases h
  · split at h'
    · cases h'
    · next hnonneg hnonneg' =>
      have hn : 0 ≤ n.toInt := Int.not_lt.mp fun hlt => hnonneg (Int64.lt_iff_toInt_lt.mpr hlt)
      have hn' : 0 ≤ n'.toInt := Int.not_lt.mp fun hlt => hnonneg' (Int64.lt_iff_toInt_lt.mpr hlt)
      have hslot := Option.some.inj (h.trans h'.symm)
      exact Int64.toInt_inj.mp (by omega)

/-- The place of an integer is within a length just if the integer is. -/
theorem exists_place?_iff {n : Int64} {length : Nat} :
    (∃ slot, place? n = some slot ∧ slot < length) ↔ 0 ≤ n.toInt ∧ n.toInt < length := by
  unfold place?
  by_cases hneg : n < 0
  · have hlt : n.toInt < 0 := Int64.lt_iff_toInt_lt.mp hneg
    simp only [if_pos hneg, reduceCtorEq, false_and, exists_false, false_iff]
    omega
  · have hle : 0 ≤ n.toInt := Int.not_lt.mp fun hlt => hneg (Int64.lt_iff_toInt_lt.mpr hlt)
    simp only [if_neg hneg, Option.some.injEq, exists_eq_left']
    omega

namespace Value

/-- Values that can be keys are equal if they are the same key. -/
theorem equals_iff_of_key? {x y : Value} {key key' : Key} (hx : x.key? = some key)
    (hy : y.key? = some key') : x.equals y = true ↔ key = key' := by
  cases x <;> cases y <;> simp_all [key?, equals] <;> subst hx hy <;> simp

/-- What equals a value that can be a key can be that key. -/
theorem key?_of_equals {x y : Value} {key : Key} (hy : y.key? = some key) (h : x.equals y = true) :
    x.key? = some key := by
  cases x <;> cases y <;> simp_all [key?, equals]

theorem eq_toValue_of_key? {v : Value} {key : Key} (h : v.key? = some key) : v = key.toValue := by
  cases v <;> simp_all [key?] <;> subst h <;> rfl

theorem isSome_key?_iff (v : Value) :
    v.key?.isSome ↔ v.kind ∈ [Kind.integer, .boolean, .string] := by
  cases v <;> simp [key?, kind]

theorem hashKey_eq_ok_iff {v : Value} {key : Key} : v.hashKey = .ok key ↔ v.key? = some key := by
  unfold hashKey
  cases v.key? <;> simp

end Value

namespace Heap

/-! ## Keys -/

/-- The keys of a hash, in the order in which they came in. -/
def keys (heap : Heap) (id : Nat) : List Value :=
  (heap.hash id).keys.map Key.toValue

/-- No two keys of a hash are equal. -/
theorem pairwise_keys (heap : Heap) (id : Nat) :
    (heap.keys id).Pairwise fun k k' => k.equals k' = false := by
  refine List.pairwise_map.mpr ((heap.hash id).nodup.imp fun {key key'} hne => ?_)
  have hiff := Value.equals_iff_of_key? (Value.key?_toValue key) (Value.key?_toValue key')
  exact Bool.eq_false_iff.mpr fun h => hne (hiff.mp h)

theorem any_toValue_equals {keys : List Key} {index : Value} {key : Key}
    (hkey : index.key? = some key) :
    (keys.map Key.toValue).any (·.equals index) = decide (key ∈ keys) := by
  rw [Bool.eq_iff_iff, decide_eq_true_iff, List.any_map, List.any_eq_true]
  constructor
  · rintro ⟨key', hmem, h⟩
    rwa [← (Value.equals_iff_of_key? (Value.key?_toValue key') hkey).mp h]
  · exact fun hmem => ⟨key, hmem, (Value.equals_iff_of_key? (Value.key?_toValue key) hkey).mpr rfl⟩

/-! ## Assignments -/

/-- There is an item at `container[index]` that can be assigned to, or can come to be. -/
def Assignable (heap : Heap) (container index : Value) : Prop :=
  (∃ id n, container = .array id ∧ index = .integer n ∧ 0 ≤ n.toInt
      ∧ n.toInt < (heap.array id).size)
    ∨ ∃ id, container = .hash id ∧ index.kind ∈ [Kind.integer, .boolean, .string]

/-- Nothing but `container[index]` has changed, and what is there now is `v`, whatever the container
and the index are called. -/
structure Stores (heap : Heap) (container index v : Value) (heap' : Heap) : Prop where
  reads : ∀ container' index', heap'.getItem container' index'
    = if container'.equals container = true ∧ index'.equals index = true then .ok v
      else heap.getItem container' index'
  length : ∀ id, (heap'.array id).size = (heap.array id).size
  /-- The keys keep their order, and a new one comes last. -/
  keys : ∀ id, container = .hash id →
    heap'.keys id = heap.keys id ++ if (heap.keys id).any (·.equals index) then [] else [index]
  distinct : ∀ id, (heap'.keys id).Pairwise fun k k' => k.equals k' = false
  array : ∀ id, container ≠ .array id → heap'.array id = heap.array id
  hash : ∀ id, container ≠ .hash id → heap'.hash id = heap.hash id
  captures : heap'.captures = heap.captures
  modules : heap'.modules = heap.modules
  identities : heap'.identities = heap.identities
  isNew : ∀ cell, heap'.IsNew cell ↔ heap.IsNew cell

/-- What a value refers to, if anything, has been given a place in the heap. -/
def Knows (heap : Heap) (v : Value) : Prop :=
  ∀ cell, v.cell? = some cell → ¬heap.IsNew cell

section

variable {heap : Heap} {v : Value}

theorem locate_element_iff {id slot : Nat} {n : Int64} :
    heap.locate (.array id) (.integer n) = .ok (.element id slot)
      ↔ place? n = some slot ∧ slot < (heap.array id).size := by
  have hfilter : (place? n).filter (· < (heap.array id).size) = some slot
      ↔ place? n = some slot ∧ slot < (heap.array id).size := by
    rw [Option.filter_eq_some_iff, decide_eq_true_iff]
  rw [← hfilter]
  unfold locate
  dsimp only
  cases (place? n).filter (· < (heap.array id).size) <;> simp

theorem locate_entry_iff {id : Nat} {index : Value} {key : Key} :
    heap.locate (.hash id) index = .ok (.entry id key) ↔ index.key? = some key := by
  refine ⟨fun h => (locate_eq_entry h).2, fun hkey => ?_⟩
  exact map_eq_ok_iff.mpr ⟨key, Value.hashKey_eq_ok_iff.mpr hkey, rfl⟩

theorem setItem_isOk_iff {container index : Value} :
    (∃ heap', heap.setItem container index v = .ok heap') ↔ heap.Assignable container index := by
  have hplace : (∃ heap', heap.setItem container index v = .ok heap')
      ↔ ∃ place, heap.locate container index = .ok place := by
    simp only [setItem, map_eq_ok_iff]
    exact ⟨fun ⟨_, place, h, _⟩ => ⟨place, h⟩, fun ⟨place, h⟩ => ⟨_, place, h, rfl⟩⟩
  rw [hplace]
  constructor
  · rintro ⟨place, h⟩
    cases place with
    | element id slot =>
      obtain ⟨rfl, n, rfl, -⟩ := locate_eq_element h
      exact Or.inl ⟨id, n, rfl, rfl, exists_place?_iff.mp ⟨slot, locate_element_iff.mp h⟩⟩
    | entry id key =>
      obtain ⟨rfl, hkey⟩ := locate_eq_entry h
      exact Or.inr ⟨id, rfl, index.isSome_key?_iff.mp (Option.isSome_of_eq_some hkey)⟩
  · rintro (⟨id, n, rfl, rfl, hrange⟩ | ⟨id, rfl, hkind⟩)
    · obtain ⟨slot, hslot⟩ := exists_place?_iff.mpr hrange
      exact ⟨.element id slot, locate_element_iff.mpr hslot⟩
    · obtain ⟨key, hkey⟩ := Option.isSome_iff_exists.mp (index.isSome_key?_iff.mpr hkind)
      exact ⟨.entry id key, locate_entry_iff.mpr hkey⟩

/-- Two heaps read alike in a container that is the same in both. -/
theorem getItem_congr {heap' : Heap} {container : Value}
    (harray : ∀ id, container = .array id → heap'.array id = heap.array id)
    (hhash : ∀ id, container = .hash id → heap'.hash id = heap.hash id)
    (hmodules : heap'.modules = heap.modules) (index : Value) :
    heap'.getItem container index = heap.getItem container index := by
  have hmodule : ∀ id, heap'.module id = heap.module id := by
    intro id
    unfold module
    rw [hmodules]
  cases container with
  | array id => cases index <;> simp only [getItem, harray id rfl]
  | hash id => simp only [getItem, hhash id rfl]
  | module id => cases index <;> simp only [getItem, hmodule]
  | _ => cases index <;> rfl

/-- What is read in all containers, if nothing has changed but what is read in one of them. -/
theorem getItem_of_changed {heap' : Heap} {container index : Value}
    (hequals : ∀ other, other.equals container = true → other = container)
    (hself : ∀ index', heap'.getItem container index'
      = if index'.equals index = true then .ok v else heap.getItem container index')
    (harray : ∀ id, container ≠ .array id → heap'.array id = heap.array id)
    (hhash : ∀ id, container ≠ .hash id → heap'.hash id = heap.hash id)
    (hmodules : heap'.modules = heap.modules) (container' index' : Value) :
    heap'.getItem container' index'
      = if container'.equals container = true ∧ index'.equals index = true then .ok v
        else heap.getItem container' index' := by
  by_cases h : container'.equals container = true
  · rw [hequals container' h, hself]
    simp only [Value.equals_refl, true_and]
  · have hne : ∀ other, container' = other → container ≠ other := by
      rintro other rfl rfl
      exact h (Value.equals_refl container)
    rw [if_neg fun both => h both.1]
    exact getItem_congr (fun id heq => harray id (hne _ heq)) (fun id heq => hhash id (hne _ heq))
      hmodules index'

/-- What is read from an array after an assignment to one of its elements. -/
theorem getItem_setElement {id slot : Nat} {n : Int64} (hplace : place? n = some slot)
    (hslot : slot < (heap.array id).size)
    (harray : (heap.setElement id slot v).array id = (heap.array id).setIfInBounds slot v)
    (index : Value) :
    (heap.setElement id slot v).getItem (.array id) index
      = if index.equals (.integer n) = true then .ok v else heap.getItem (.array id) index := by
  cases index with
  | integer n' =>
    simp only [getItem, harray]
    by_cases hn : n' = n
    · rw [if_pos (by simp [Value.equals, hn]), hn, hplace]
      simp [hslot]
    · rw [if_neg (by simp [Value.equals, hn])]
      -- another integer denotes another place, if it does denote one
      cases hplace' : place? n' with
      | none => rfl
      | some slot' =>
        have hne : slot ≠ slot' := fun h => hn (place?_inj hplace' (h ▸ hplace))
        simp [Array.getElem?_setIfInBounds_ne hne]
  | _ => rfl

/-- What is read from a hash after an assignment to one of its entries. -/
theorem getItem_setEntry {id : Nat} {key : Key} {index : Value} (hkey : index.key? = some key)
    (hhash : (heap.setEntry id key v).hash id = (heap.hash id).insert key v) (index' : Value) :
    (heap.setEntry id key v).getItem (.hash id) index'
      = if index'.equals index = true then .ok v else heap.getItem (.hash id) index' := by
  simp only [getItem, hhash]
  unfold Value.hashKey
  cases hkey' : index'.key? with
  | none =>
    have hne : ¬index'.equals index = true := fun h => by
      rw [Value.key?_of_equals hkey h] at hkey'
      cases hkey'
    rw [if_neg hne]
    rfl
  | some key' =>
    show Except.ok _ = _
    rw [Dict.find?_insert, if_congr (Value.equals_iff_of_key? hkey' hkey) rfl rfl]
    by_cases hkeys : key = key'
    · rw [if_pos hkeys, if_pos hkeys.symm]
      rfl
    · rw [if_neg hkeys, if_neg (Ne.symm hkeys)]
      rfl

theorem stores_setElement {id slot : Nat} {n : Int64} (hplace : place? n = some slot)
    (hslot : slot < (heap.array id).size) :
    heap.Stores (.array id) (.integer n) v (heap.setElement id slot v) := by
  have hid : id < heap.arrays.size := by
    refine Nat.lt_of_not_le fun hle => ?_
    rw [array, Array.getElem?_eq_none hle] at hslot
    exact Nat.not_lt_zero _ hslot
  have hself : (heap.setElement id slot v).array id = (heap.array id).setIfInBounds slot v :=
    getD_modify_self hid _ _
  have hother : ∀ id', Value.array id ≠ .array id' →
      (heap.setElement id slot v).array id' = heap.array id' := fun id' hne =>
    getD_modify_ne heap.arrays (fun h => hne (congrArg Value.array h)) _ _
  constructor
  case reads =>
    refine getItem_of_changed (fun other h => ?_) (getItem_setElement hplace hslot hself) hother
      (fun _ _ => rfl) rfl
    cases other <;> simp_all [Value.equals]
  case length =>
    intro id'
    by_cases hid' : id = id'
    · rw [← hid', hself, Array.size_setIfInBounds]
    · rw [hother id' fun h => hid' (Value.array.inj h)]
  case keys =>
    intro id' h
    cases h
  case distinct => exact pairwise_keys _
  case array => exact hother
  case hash => exact fun _ _ => rfl
  case captures => rfl
  case modules => rfl
  case identities => rfl
  case isNew =>
    intro cell
    cases cell <;> simp [IsNew, setElement]

theorem stores_setEntry {id : Nat} {key : Key} {index : Value} (hid : id < heap.hashes.size)
    (hkey : index.key? = some key) :
    heap.Stores (.hash id) index v (heap.setEntry id key v) := by
  have hself : (heap.setEntry id key v).hash id = (heap.hash id).insert key v :=
    getD_modify_self hid _ _
  have hother : ∀ id', Value.hash id ≠ .hash id' →
      (heap.setEntry id key v).hash id' = heap.hash id' := fun id' hne =>
    getD_modify_ne heap.hashes (fun h => hne (congrArg Value.hash h)) _ _
  constructor
  case reads =>
    refine getItem_of_changed (fun other h => ?_) (getItem_setEntry hkey hself) (fun _ _ => rfl)
      hother rfl
    cases other <;> simp_all [Value.equals]
  case length => exact fun _ => rfl
  case keys =>
    rintro id' hid'
    obtain rfl := Value.hash.inj hid'
    rw [Heap.keys, hself, Dict.keys_insert, Heap.keys, any_toValue_equals hkey]
    by_cases hmem : key ∈ (heap.hash id).keys
    · simp [hmem]
    · simp [hmem, Value.eq_toValue_of_key? hkey]
  case distinct => exact pairwise_keys _
  case array => exact fun _ _ => rfl
  case hash => exact hother
  case captures => rfl
  case modules => rfl
  case identities => rfl
  case isNew =>
    intro cell
    cases cell <;> simp [IsNew, setEntry]

theorem stores_of_setItem {container index : Value} {heap' : Heap} (hknows : heap.Knows container)
    (h : heap.setItem container index v = .ok heap') : heap.Stores container index v heap' := by
  obtain ⟨place, hplace, rfl⟩ := map_eq_ok_iff.mp h
  cases place with
  | element id slot =>
    obtain ⟨rfl, n, rfl, -⟩ := locate_eq_element hplace
    obtain ⟨hslot, hlt⟩ := locate_element_iff.mp hplace
    exact stores_setElement hslot hlt
  | entry id key =>
    obtain ⟨rfl, hkey⟩ := locate_eq_entry hplace
    exact stores_setEntry (Nat.lt_of_not_le (hknows (.hash id) rfl)) hkey

end

/-! ## The laws -/

/-- An assignment to an item succeeds for the items that can be assigned to, and for no others. It
is seen through whatever refers to the container and changes nothing else; and if there is a fault,
the machine has lost the operands of the assignment and has the heap that it had. -/
theorem store_laws {heap : Heap} {container : Value} (hknows : heap.Knows container)
    (index v : Value) :
    ((∃ heap', heap.setItem container index v = .ok heap') ↔ heap.Assignable container index)
    ∧ (∀ heap', heap.setItem container index v = .ok heap' → heap.Stores container index v heap')
    ∧ ∀ (host : Host) (m : Machine) (rest : Array Value), m.heap = heap →
      m.Offers rest [container, index, v] →
      Exec.execute host ⟨.setItem, []⟩ m =
        match heap.setItem container index v with
        | .ok heap' => .ok .next { m with stack := rest, heap := heap' }
        | .error fault => .error fault { m with stack := rest } := by
  refine ⟨setItem_isOk_iff, fun heap' h => stores_of_setItem hknows h, ?_⟩
  rintro host m rest rfl hoffers
  exact Exec.execute_setItem hoffers

/-- A hash comes to hold itself under a truth value. The text of it is another key. -/
theorem store_laws_self :
    let heap : Heap := { hashes := #[.ofList [(.integer 1, .null), (.string "true", .null)]] }
    let hash : Value := .hash 0
    heap.Knows hash ∧ ∃ heap', heap.setItem hash (.boolean true) hash = .ok heap'
      ∧ heap'.getItem hash (.boolean true) = .ok hash
      ∧ heap'.getItem hash (.string "true") = .ok .null
      ∧ heap'.keys 0 = [.integer 1, .string "true", .boolean true] := by
  intro heap hash
  have hknows : heap.Knows hash := by
    rintro cell hcell
    cases hcell
    exact Nat.not_le.mpr (by decide)
  obtain ⟨hok, hstores, -⟩ := store_laws hknows (.boolean true) hash
  obtain ⟨heap', heq⟩ := hok.mpr (Or.inr ⟨0, rfl, by decide⟩)
  have hself := hstores heap' heq
  exact ⟨hknows, heap', heq, hself.reads _ _, hself.reads _ _, hself.keys 0 rfl⟩

end Heap

end ClosureMachine
