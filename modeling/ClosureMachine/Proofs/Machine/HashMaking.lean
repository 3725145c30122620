import ClosureMachine.Proofs.Machine.Invariant
import ClosureMachine.Proofs.Machine.Store

/-!
# Hashes made at once and item by item

A hash is made of a block of operands, keys and values by turns, or it is made empty and its items
are assigned one after the other. Both ways lead to the same hash, and stop at the same key.

* **`Heap.setItems`** is the second way. `Heap.setItems_newHash` ties it to the first, and so
  `Exec.execute_makeHash_eq_filled` tells what the instruction does.
* **`Heap.Collects`** is what it comes to: a key that is repeated keeps its place and takes the last
  of its values. `Heap.collects` reads it off the laws of the store, one item at a time.
* **`Exec.makeHash_fills`** is about all states that a machine can be in.
-/

namespace ClosureMachine

section

variable {α : Type} (r : α → α → Bool)

theorem eraseDupsBy_loop_append (values values' seen : List α) :
    List.eraseDupsBy.loop r (values ++ values') seen
      = List.eraseDupsBy.loop r values' (List.eraseDupsBy.loop r values seen).reverse := by
  induction values generalizing seen with
  | nil => rw [List.nil_append, List.eraseDupsBy.loop, List.reverse_reverse]
  | cons value rest ih =>
    rw [List.cons_append, List.eraseDupsBy.loop, List.eraseDupsBy.loop]
    cases seen.any (r value) <;> exact ih _

/-- One more value comes last, unless there has been one like it. -/
theorem eraseDupsBy_concat (values : List α) (value : α) :
    (values ++ [value]).eraseDupsBy r
      = values.eraseDupsBy r
        ++ if (values.eraseDupsBy r).any (r value) then [] else [value] := by
  unfold List.eraseDupsBy
  rw [eraseDupsBy_loop_append, List.eraseDupsBy.loop, List.any_reverse]
  cases (List.eraseDupsBy.loop r values []).any (r value) <;> simp [List.eraseDupsBy.loop]

end

namespace Heap

/-! ## One item after the other -/

/-- Assigns to the items of a container one after the other. -/
def setItems (heap : Heap) (container : Value) (entries : List (Value × Value)) :
    Except Fault Heap :=
  entries.foldlM (fun heap (index, value) => heap.setItem container index value) heap

/-- Takes a new hash and assigns to its items. -/
def filled (heap : Heap) (entries : List (Value × Value)) : Except Fault Heap :=
  (heap.newHash .empty).2.setItems (heap.newHash .empty).1 entries

/-- What it comes to when entries are assigned to the items of a new hash one after the other. -/
structure Collects (heap : Heap) (entries : List (Value × Value)) : Prop where
  /-- It is the first key that cannot be one that is blamed. -/
  faults : ∀ fault, heap.filled entries = .error fault ↔
    ∃ key, (entries.map Prod.fst).find? (·.key?.isNone) = some key
      ∧ fault = .unhashableKey key.kind
  /-- Every key has the place of its first entry. -/
  keys : ∀ heap', heap.filled entries = .ok heap' →
    heap'.keys heap.hashes.size = (entries.map Prod.fst).eraseDupsBy Value.equals
  /-- There are as many entries as there are different keys. -/
  size : ∀ heap', heap.filled entries = .ok heap' →
    (heap'.hash heap.hashes.size).size
      = ((entries.map Prod.fst).eraseDupsBy Value.equals).length
  /-- Every key has the value of its last entry, and all else is read as from an empty hash. -/
  reads : ∀ heap', heap.filled entries = .ok heap' → ∀ index,
    heap'.getItem (heap.newHash .empty).1 index
      = (entries.reverse.find? fun entry => index.equals entry.1).elim
          ((heap.newHash .empty).2.getItem (heap.newHash .empty).1 index) fun entry => .ok entry.2

section

variable {heap heap' : Heap} {id : Nat} {entries : List (Value × Value)}

theorem setItem_hash (id : Nat) (index v : Value) :
    heap.setItem (.hash id) index v = (fun key => heap.setEntry id key v) <$> index.hashKey := by
  show _ <$> (Place.entry id <$> index.hashKey) = _
  cases index.hashKey <;> rfl

/-- The first assignment comes before all the others. -/
theorem setItems_cons (heap : Heap) (container index v : Value) (rest : List (Value × Value)) :
    heap.setItems container ((index, v) :: rest)
      = heap.setItem container index v >>= fun heap => heap.setItems container rest :=
  List.foldlM_cons

/-- The last assignment comes after all the others. -/
theorem setItems_concat_eq_ok {container index v : Value}
    (h : heap.setItems container (entries ++ [(index, v)]) = .ok heap') :
    ∃ before, heap.setItems container entries = .ok before
      ∧ before.setItem container index v = .ok heap' := by
  unfold setItems at h ⊢
  rw [List.foldlM_append] at h
  cases hbefore : entries.foldlM (fun heap (index, v) => heap.setItem container index v) heap with
  | ok before =>
    rw [hbefore] at h
    refine ⟨before, rfl, ?_⟩
    rwa [← bind_pure (before.setItem container index v)]
  | error fault =>
    rw [hbefore] at h
    cases h

theorem Stores.knows {container index v : Value} (h : heap.Stores container index v heap')
    {w : Value} (hknows : heap.Knows w) : heap'.Knows w :=
  fun cell hcell hnew => hknows cell hcell ((h.isNew cell).mp hnew)

theorem knows_setItems (hknows : heap.Knows (.hash id))
    (h : heap.setItems (.hash id) entries = .ok heap') : heap'.Knows (.hash id) := by
  induction entries using List.reverseRecOn generalizing heap' with
  | nil =>
    cases h
    exact hknows
  | append_singleton entries entry ih =>
    obtain ⟨before, hbefore, hlast⟩ := setItems_concat_eq_ok h
    exact (stores_of_setItem (ih hbefore) hlast).knows (ih hbefore)

theorem stores_last {index v : Value} (hknows : heap.Knows (.hash id))
    (h : heap.setItems (.hash id) (entries ++ [(index, v)]) = .ok heap') :
    ∃ before, heap.setItems (.hash id) entries = .ok before
      ∧ before.Stores (.hash id) index v heap' := by
  obtain ⟨before, hbefore, hlast⟩ := setItems_concat_eq_ok h
  exact ⟨before, hbefore, stores_of_setItem (knows_setItems hknows hbefore) hlast⟩

theorem keys_setItems (hknows : heap.Knows (.hash id)) (hempty : heap.keys id = [])
    (h : heap.setItems (.hash id) entries = .ok heap') :
    heap'.keys id = (entries.map Prod.fst).eraseDupsBy Value.equals := by
  -- from the last entry back: where its key goes depends on the keys of those before it
  induction entries using List.reverseRecOn generalizing heap' with
  | nil =>
    cases h
    exact hempty
  | append_singleton entries entry ih =>
    obtain ⟨before, hbefore, hlast⟩ := stores_last hknows h
    have hcomm : Value.equals entry.1 = fun key => key.equals entry.1 :=
      funext (Value.equals_comm entry.1)
    rw [hlast.keys id rfl, ih hbefore, List.map_append, List.map_singleton, eraseDupsBy_concat,
      hcomm]

theorem getItem_setItems (hknows : heap.Knows (.hash id))
    (h : heap.setItems (.hash id) entries = .ok heap') (index : Value) :
    heap'.getItem (.hash id) index
      = (entries.reverse.find? fun entry => index.equals entry.1).elim
          (heap.getItem (.hash id) index) fun entry => .ok entry.2 := by
  -- from the last entry back as well, for it hides those before it
  induction entries using List.reverseRecOn generalizing heap' with
  | nil =>
    cases h
    rfl
  | append_singleton entries entry ih =>
    obtain ⟨before, hbefore, hlast⟩ := stores_last hknows h
    rw [hlast.reads, ih hbefore, List.reverse_concat, List.find?_cons]
    cases hindex : index.equals entry.1 <;> simp [Value.equals_refl]

/-- Assignments to a hash stop at the first key that cannot be one. -/
theorem setItems_eq_error_iff {fault : Fault} :
    heap.setItems (.hash id) entries = .error fault
      ↔ ∃ key, (entries.map Prod.fst).find? (·.key?.isNone) = some key
        ∧ fault = .unhashableKey key.kind := by
  induction entries generalizing heap with
  | nil =>
    constructor
    · intro h
      cases h
    · rintro ⟨key, hkey, -⟩
      cases hkey
  | cons entry rest ih =>
    obtain ⟨index, v⟩ := entry
    rw [setItems_cons, setItem_hash, List.map_cons, List.find?_cons]
    unfold Value.hashKey
    cases hkey : index.key? with
    | some key => exact ih
    | none =>
      simp only [Functor.map, Except.map, Option.isNone_none, Option.some.injEq, exists_eq_left']
      constructor
      · intro h
        cases h
        rfl
      · rintro rfl
        rfl

/-- To assign to an item of a new hash is as if the hash had been made with that entry. -/
theorem setItem_newHash (heap : Heap) (dict : Dict Key Value) (index v : Value) :
    (heap.newHash dict).2.setItem (heap.newHash dict).1 index v
      = (fun key => (heap.newHash (dict.insert key v)).2) <$> index.hashKey := by
  have hentry : ∀ key, (heap.newHash dict).2.setEntry heap.hashes.size key v
      = (heap.newHash (dict.insert key v)).2 := by
    intro key
    have hhashes : (heap.hashes.push dict).modify heap.hashes.size (·.insert key v)
        = heap.hashes.push (dict.insert key v) := by
      refine Array.ext_getElem? fun place => ?_
      rw [Array.getElem?_modify, Array.getElem?_push, Array.getElem?_push]
      by_cases hplace : heap.hashes.size = place
      · simp [hplace]
      · simp [hplace, Ne.symm hplace]
    unfold setEntry newHash
    rw [hhashes]
  show (heap.newHash dict).2.setItem (.hash heap.hashes.size) index v = _
  rw [setItem_hash]
  simp only [hentry]

/-- To put entries into a hash that is yet to be made comes to the same as to assign them to the
items of one that has been made. -/
theorem setItems_newHash (heap : Heap) (dict : Dict Key Value) (entries : List (Value × Value)) :
    (heap.newHash dict).2.setItems (heap.newHash dict).1 entries
      = (fun dict => (heap.newHash dict).2) <$>
          entries.foldlM (fun dict (key, v) => (dict.insert · v) <$> key.hashKey) dict := by
  induction entries generalizing dict with
  | nil => rfl
  | cons entry rest ih =>
    obtain ⟨index, v⟩ := entry
    rw [setItems_cons, setItem_newHash, List.foldlM_cons]
    dsimp only
    cases index.hashKey with
    | ok key => exact ih (dict.insert key v)
    | error fault => rfl

/-- What becomes of a new hash that is filled one item at a time. -/
theorem collects (heap : Heap) (entries : List (Value × Value)) : heap.Collects entries := by
  have hknows : (heap.newHash .empty).2.Knows (.hash heap.hashes.size) := by
    rintro cell hcell
    cases hcell
    simp [IsNew, newHash]
  have hempty : (heap.newHash .empty).2.keys heap.hashes.size = [] := by
    simp [keys, hash, newHash, Dict.keys]
  constructor
  case faults => exact fun fault => setItems_eq_error_iff
  case keys => exact fun heap' h => keys_setItems hknows hempty h
  case size =>
    intro heap' h
    rw [← keys_setItems hknows hempty h]
    simp [keys, Dict.keys, Dict.size]
  case reads => exact fun heap' h => getItem_setItems hknows h

end

end Heap

namespace Exec

/-! ## All at once -/

/-- Keys and values by turns are what pairs of them come to. -/
theorem flatMap_pairs : ∀ {operands : List Value}, operands.length % 2 = 0 →
    (pairs operands).flatMap (fun entry => [entry.1, entry.2]) = operands
      ∧ 2 * (pairs operands).length = operands.length
  | [], _ => ⟨rfl, rfl⟩
  | [_], heven => nomatch heven
  | key :: v :: rest, heven => by
    have hpairs : pairs (key :: v :: rest) = (key, v) :: pairs rest := rfl
    rw [List.length_cons, List.length_cons] at heven
    obtain ⟨hrest, hlength⟩ := @flatMap_pairs rest (by omega)
    rw [hpairs, List.flatMap_cons, hrest]
    refine ⟨rfl, ?_⟩
    simp only [List.length_cons]
    omega

/-- The operands are gone. In their place is `v`, and the heap is the one given, unless there is a
fault instead. -/
def exchanged {α : Type} (x : α) (m : Machine) (rest : Array Value) (v : Value) :
    Except Fault Heap → EStateM.Result Fault Machine α
  | .ok heap => .ok x { m with stack := rest.push v, heap }
  | .error fault => .error fault { m with stack := rest }

/-- Making a hash of `entries`, which are on top of the stack as keys and values by turns. -/
structure MakesHash (host : Host) (i : Instruction) (m : Machine) (rest : Array Value)
    (entries : List (Value × Value)) : Prop where
  stack : m.stack = rest ++ (entries.flatMap fun entry => [entry.1, entry.2]).toArray
  count : 2 * entries.length = i.first
  /-- The hash could as well have been filled one item at a time. -/
  executes : execute host i m
    = exchanged .next m rest (m.heap.newHash .empty).1 (m.heap.filled entries)
  steps : ∀ frame callers, m.frames = frame :: callers → frame.next = .ok i →
    step host m = exchanged () { m with frames := frame.past i :: callers } rest
      (m.heap.newHash .empty).1 (m.heap.filled entries)
  faults : ∀ kind, (∃ m', execute host i m = .error (.unhashableKey kind) m')
    ↔ m.heap.filled entries = .error (.unhashableKey kind)
  collects : m.heap.Collects entries

variable {host : Host} {m : Machine} {i : Instruction} {rest : Array Value} {operands : List Value}

/-- Where its operands are, the instruction fills a new hash with them one item at a time. -/
theorem execute_makeHash_eq_filled (hop : i.opcode = .makeHash) (heven : i.first % 2 = 0)
    (hfirst : operands.length = i.first) (h : m.Offers rest operands)
    (room : rest.size < m.limits.stackSize) :
    execute host i m = exchanged .next m rest (m.heap.newHash .empty).1
      (m.heap.filled (pairs operands)) := by
  have hsame : m.heap.filled (pairs operands)
      = (fun dict => (m.heap.newHash dict).2) <$> hashOf (pairs operands) :=
    Heap.setItems_newHash m.heap .empty (pairs operands)
  rw [execute_makeHash hop heven hfirst h room, hsame]
  cases hashOf (pairs operands) <;> rfl

theorem step_makeHash {frame : Frame} {callers : List Frame} (hframes : m.frames = frame :: callers)
    (hnext : frame.next = .ok i) (hop : i.opcode = .makeHash) (heven : i.first % 2 = 0)
    (hfirst : operands.length = i.first) (h : m.Offers rest operands)
    (room : rest.size < m.limits.stackSize) :
    step host m = exchanged () { m with frames := frame.past i :: callers } rest
      (m.heap.newHash .empty).1 (m.heap.filled (pairs operands)) := by
  have hpast : Machine.Offers { m with frames := frame.past i :: callers } rest operands :=
    ⟨h.stack, (floor_past hframes i).symm ▸ h.floor_le⟩
  unfold step
  rw [bind_apply, dispatch_of_next hframes hnext,
    execute_makeHash_eq_filled hop heven hfirst hpast room]
  dsimp only
  cases m.heap.filled (pairs operands) <;> rfl

theorem exchanged_eq_error_iff {α : Type} {x : α} {v : Value} {outcome : Except Fault Heap}
    {fault : Fault} :
    (∃ m', exchanged x m rest v outcome = .error fault m') ↔ outcome = .error fault := by
  cases outcome <;> simp [exchanged]

/-- **A hash is made as it is filled.** In every state of a machine with enough temporaries for it,
`MakeHash` takes them off as keys and values by turns and pushes a new hash. The heap is then what
it would be if these had been assigned to the items of an empty hash one after the other, or there
is the fault that there would have been. -/
theorem makeHash_fills (hreach : m.Reachable host) (hop : i.opcode = .makeHash)
    (heven : i.first % 2 = 0) (henough : m.floor + i.first ≤ m.stack.size)
    (hroom : i.first = 0 → m.stack.size < m.limits.stackSize) :
    ∃ rest entries, MakesHash host i m rest entries := by
  have hwf : WellFormed m := hreach.induct (fun _ => .of_fresh) fun _ hm => hm.advance host
  obtain ⟨rest, operands, hoffers, hlength, hsize⟩ := Machine.exists_offers henough
  have room : rest.size < m.limits.stackSize := by
    have hle := hwf.stack_le
    rcases Nat.eq_zero_or_pos i.first with hzero | hpos
    · have hlt := hroom hzero
      omega
    · omega
  obtain ⟨hoperands, hcount⟩ := @flatMap_pairs operands (by rwa [hlength])
  have hexecute : execute host i m = _ :=
    execute_makeHash_eq_filled hop heven hlength hoffers room
  refine ⟨rest, pairs operands, ?_⟩
  constructor
  case stack =>
    rw [hoperands]
    exact hoffers.stack
  case count => exact hcount.trans hlength
  case executes => exact hexecute
  case steps =>
    intro frame callers hframes hnext
    exact step_makeHash hframes hnext hop heven hlength hoffers room
  case faults =>
    intro kind
    rw [hexecute]
    exact exchanged_eq_error_iff
  case collects => exact m.heap.collects (pairs operands)

/-- A machine with two entries for the same key on its stack, about to make a hash of them. -/
def repeatedKey : Machine :=
  (Machine.load {} ⟨4, 1, 0⟩ ⟨#[11, 11, 11, 12, 17, 0, 4], #[]⟩).after Host.sample 4

/-- The hash has one entry, with the later of the two values. -/
theorem makeHash_fills_repeated :
    ∃ m', step Host.sample repeatedKey = .ok () m' ∧ m'.heap.keys 0 = [.boolean true]
      ∧ m'.heap.getItem (.hash 0) (.boolean true) = .ok (.boolean false) := by
  have hreach : repeatedKey.Reachable Host.sample := (Machine.fresh_load {} _ _).reachable.after 4
  have hframes : repeatedKey.frames = [⟨⟨0, { code := #[11, 11, 11, 12, 17, 0, 4] }⟩, 4, 0⟩] := by
    decide +kernel
  have hstack : repeatedKey.stack
      = #[.boolean true, .boolean true, .boolean true, .boolean false] := by
    decide +kernel
  have hid : repeatedKey.heap.hashes.size = 0 := by decide +kernel
  have hhash : (repeatedKey.heap.newHash .empty).1 = .hash 0 := congrArg Value.hash hid
  obtain ⟨rest, entries, hmakes⟩ :=
    makeHash_fills (i := ⟨.makeHash, [4]⟩) hreach rfl rfl (by decide +kernel) nofun
  have hcount : 2 * entries.length = 4 := hmakes.count
  obtain ⟨⟨key, v⟩, ⟨key', v'⟩, rfl⟩ := List.length_eq_two.mp (show entries.length = 2 by omega)
  have hoperands := hmakes.stack
  rw [hstack] at hoperands
  have hrest : rest = #[] := by
    have hsize := congrArg Array.size hoperands
    simp only [Array.size_append] at hsize
    exact Array.eq_empty_of_size_eq_zero (by simpa using hsize)
  have hvalues : [Value.boolean true, .boolean true, .boolean true, .boolean false]
      = [key, v, key', v'] := by
    simpa [hrest] using congrArg Array.toList hoperands
  cases hvalues
  have hstep := hmakes.steps _ _ hframes rfl
  cases hfilled : repeatedKey.heap.filled _ with
  | ok heap =>
    have hkeys := hmakes.collects.keys heap hfilled
    have hread := hmakes.collects.reads heap hfilled (.boolean true)
    rw [hid] at hkeys
    rw [hhash] at hread
    rw [hfilled] at hstep
    exact ⟨_, hstep, hkeys, hread⟩
  | error fault =>
    obtain ⟨key, hkey, -⟩ := (hmakes.collects.faults fault).mp hfilled
    cases hkey

end Exec

end ClosureMachine
