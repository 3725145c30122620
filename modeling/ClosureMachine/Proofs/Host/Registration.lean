import ClosureMachine.Builtins
import Mathlib.Data.List.Induction
import Mathlib.Data.List.Nodup

/-!
# Registrations

A table of builtins keeps the names of its functions apart from the functions, and names them by a
byte. What keeps the two in step is that the byte of a name is the place of its function, and that
there are no more places than bytes.

* **`Builtins.Holds table registered`** says so of a table and of what has been registered in it.
* **`Holds.registering_cases`** is one registration: it fails for one of two reasons and leaves the
  table alone, or the table holds one more function.
* **`register_sequence`** is about every sequence of registrations.
-/

namespace ClosureMachine

/-! ## Looking up either side of a pair -/

namespace Pairing

variable {α β : Type} {pairing pairing' : Pairing α β} {a : α} {b : β}

/-- Where no two elements share a key, a search by key finds the one that has it. -/
theorem find?_eq_some_iff_of_nodup {γ κ : Type} [DecidableEq κ] {key : γ → κ} {xs : List γ}
    (hnodup : (xs.map key).Nodup) {k : κ} {x : γ} :
    xs.find? (key · = k) = some x ↔ x ∈ xs ∧ key x = k := by
  constructor
  · intro hfind
    exact ⟨List.mem_of_find?_eq_some hfind, by simpa using List.find?_some hfind⟩
  · rintro ⟨hmem, rfl⟩
    have hfound : (xs.find? (key · = key x)).isSome := by simpa using ⟨x, hmem, rfl⟩
    obtain ⟨y, hfind⟩ := Option.isSome_iff_exists.mp hfound
    have hkey : key y = key x := by simpa using List.find?_some hfind
    rw [hfind, List.inj_on_of_nodup_map hnodup (List.mem_of_find?_eq_some hfind) hmem hkey]

theorem right?_eq_some_iff [DecidableEq α] : pairing.right? a = some b ↔ (a, b) ∈ pairing.pairs := by
  simp [right?, Option.map_eq_some_iff, find?_eq_some_iff_of_nodup pairing.nodup_left]

theorem left?_eq_some_iff [DecidableEq β] : pairing.left? b = some a ↔ (a, b) ∈ pairing.pairs := by
  simp [left?, Option.map_eq_some_iff, find?_eq_some_iff_of_nodup pairing.nodup_right]

variable [DecidableEq α] [DecidableEq β]

/-- Each side determines the other. -/
theorem right?_eq_some_iff_left? : pairing.right? a = some b ↔ pairing.left? b = some a :=
  right?_eq_some_iff.trans left?_eq_some_iff.symm

theorem add?_eq_none_iff : pairing.add? a b = none
    ↔ a ∈ pairing.pairs.map Prod.fst ∨ b ∈ pairing.pairs.map Prod.snd := by
  unfold add?
  split
  · next h => simpa using h
  · next h => simpa only [true_iff, not_and_or, not_not] using h

theorem pairs_of_add? (h : pairing.add? a b = some pairing') :
    pairing'.pairs = pairing.pairs ++ [(a, b)] := by
  unfold add? at h
  split at h
  · cases h
    rfl
  · cases h

end Pairing

/-! ## One registration -/

namespace Builtins

/-- The table holds these functions, each at its place, and knows its name by the byte of the place. -/
structure Holds (table : Builtins) (registered : List Builtin) : Prop where
  functions : table.functions.toList = registered
  names : table.names.pairs
    = registered.zipIdx.map fun (builtin, place) => (builtin.name, place.toUInt8)
  length_le : registered.length ≤ capacity

/-- A place below the capacity is not changed by making a byte of it. -/
theorem toNat_toUInt8_of_lt {place : Nat} (h : place < capacity) : place.toUInt8.toNat = place :=
  Nat.mod_eq_of_lt h

variable {table : Builtins} {registered : List Builtin}

theorem holds_empty : Holds {} [] :=
  ⟨rfl, rfl, Nat.zero_le _⟩

namespace Holds

theorem size_eq (h : table.Holds registered) : table.size = registered.length := by
  rw [← h.functions, Array.length_toList]
  rfl

theorem get?_eq (h : table.Holds registered) (place : Nat) : table.get? place = registered[place]? := by
  rw [← h.functions, Array.getElem?_toList]
  rfl

/-- The only place that a byte can stand for is the number that it is. -/
theorem mem_names_iff (h : table.Holds registered) {name : String} {index : UInt8} :
    (name, index) ∈ table.names.pairs ↔ (registered[index.toNat]?).map (·.name) = some name := by
  rw [h.names, List.mem_map, Option.map_eq_some_iff]
  constructor
  · rintro ⟨⟨builtin, place⟩, hmem, hpair⟩
    obtain ⟨rfl, rfl⟩ := Prod.mk.inj hpair
    have hplace : registered[place]? = some builtin := List.mem_zipIdx_iff_getElem?.mp hmem
    have hlt : place < registered.length := (List.getElem?_eq_some_iff.mp hplace).1
    rw [toNat_toUInt8_of_lt (Nat.lt_of_lt_of_le hlt h.length_le)]
    exact ⟨builtin, hplace, rfl⟩
  · rintro ⟨builtin, hplace, rfl⟩
    exact ⟨(builtin, index.toNat), List.mem_zipIdx_iff_getElem?.mpr hplace, by simp⟩

theorem nameOf?_eq (h : table.Holds registered) (index : UInt8) :
    table.nameOf? index = (registered[index.toNat]?).map (·.name) := by
  ext name
  exact Pairing.left?_eq_some_iff.trans h.mem_names_iff

theorem isSome_nameOf? (h : table.Holds registered) (index : UInt8) :
    (table.nameOf? index).isSome ↔ index.toNat < table.size := by
  rw [h.nameOf?_eq, h.size_eq, Option.isSome_map, isSome_getElem?]

theorem map_fst_names (h : table.Holds registered) :
    table.names.pairs.map Prod.fst = registered.map (·.name) := by
  rw [h.names, List.map_map]
  conv_rhs => rw [← List.zipIdx_map_fst 0 registered, List.map_map]
  rfl

/-- As long as there is room, the byte of the next place is not taken. -/
theorem next_not_mem (h : table.Holds registered) (room : registered.length < capacity) :
    registered.length.toUInt8 ∉ table.names.pairs.map Prod.snd := by
  rw [List.mem_map]
  rintro ⟨⟨name, index⟩, hmem, rfl⟩
  obtain ⟨builtin, hplace, -⟩ := Option.map_eq_some_iff.mp (h.mem_names_iff.mp hmem)
  have hlt := (List.getElem?_eq_some_iff.mp hplace).1
  rw [toNat_toUInt8_of_lt room] at hlt
  exact Nat.lt_irrefl _ hlt

theorem concat {names : Pairing String UInt8} {builtin : Builtin} (h : table.Holds registered)
    (room : registered.length < capacity)
    (hnames : names.pairs = table.names.pairs ++ [(builtin.name, registered.length.toUInt8)]) :
    Holds { names, functions := table.functions.push builtin } (registered ++ [builtin]) where
  functions := by rw [Array.toList_push, h.functions]
  names := by rw [hnames, h.names, List.zipIdx_append, List.map_append]; simp
  length_le := by
    rw [List.length_append]
    exact room

/-- **What a registration comes to.** The table is full, or the name is taken, and the table is as it
was; or it holds one more function, at the place that was answered. -/
theorem registering_cases (h : table.Holds registered) (builtin : Builtin) :
    registered.length = capacity ∧ registering builtin table = .error (.full builtin.name) table
      ∨ registered.length ≠ capacity ∧ builtin.name ∈ registered.map (·.name)
        ∧ registering builtin table = .error (.duplicate builtin.name) table
      ∨ registered.length ≠ capacity ∧ builtin.name ∉ registered.map (·.name)
        ∧ ∃ table', registering builtin table = .ok registered.length.toUInt8 table'
          ∧ table'.Holds (registered ++ [builtin]) := by
  unfold registering
  simp only [h.size_eq]
  by_cases full : registered.length = capacity
  · exact Or.inl ⟨full, if_pos full⟩
  · have room : registered.length < capacity := Nat.lt_of_le_of_ne h.length_le full
    simp only [if_neg full]
    right
    cases hadd : table.names.add? builtin.name registered.length.toUInt8 with
    | none =>
      -- the byte is new, so it is the name that is taken
      have hname : builtin.name ∈ table.names.pairs.map Prod.fst :=
        (Pairing.add?_eq_none_iff.mp hadd).resolve_right (h.next_not_mem room)
      exact Or.inl ⟨full, h.map_fst_names ▸ hname, rfl⟩
    | some names =>
      have hname : builtin.name ∉ table.names.pairs.map Prod.fst := fun hmem => by
        rw [Pairing.add?_eq_none_iff.mpr (Or.inl hmem)] at hadd
        cases hadd
      exact Or.inr ⟨full, h.map_fst_names ▸ hname, _, rfl, h.concat room (Pairing.pairs_of_add? hadd)⟩

end Holds

end Builtins

/-! ## Sequences of registrations -/

/-- A call that was to register a function, and what it was answered. -/
structure Registration where
  builtin : Builtin
  answer : Except RegistrationError UInt8

namespace Registration

/-- The place that was answered and the function, if the call did not fail. -/
def accepted? (call : Registration) : Option (UInt8 × Builtin) :=
  match call.answer with
  | .ok index => some (index, call.builtin)
  | .error _ => none

/-- The functions that have been registered, with the places that were answered. -/
def accepted (log : List Registration) : List (UInt8 × Builtin) :=
  log.filterMap accepted?

theorem accepted_concat_ok (log : List Registration) (builtin : Builtin) (index : UInt8) :
    accepted (log ++ [⟨builtin, .ok index⟩]) = accepted log ++ [(index, builtin)] :=
  List.filterMap_append ..

theorem accepted_concat_error (log : List Registration) (builtin : Builtin) (e : RegistrationError) :
    accepted (log ++ [⟨builtin, .error e⟩]) = accepted log :=
  List.filterMap_append.trans (List.append_nil _)

theorem mem_accepted_iff {log : List Registration} {builtin : Builtin} {index : UInt8} :
    (index, builtin) ∈ accepted log ↔ ⟨builtin, .ok index⟩ ∈ log := by
  unfold accepted
  rw [List.mem_filterMap]
  constructor
  · rintro ⟨⟨builtin', answer⟩, hmem, hcall⟩
    cases answer with
    | ok index' =>
      cases hcall
      exact hmem
    | error e => cases hcall
  · exact fun hmem => ⟨_, hmem, rfl⟩

end Registration

namespace Builtins

open Registration

/-- Goes on with one more call, with the table that it leaves behind. -/
def registerNext (state : List Registration × Builtins) (builtin : Builtin) :
    List Registration × Builtins :=
  match registering builtin state.2 with
  | .ok index table => (state.1 ++ [⟨builtin, .ok index⟩], table)
  | .error e table => (state.1 ++ [⟨builtin, .error e⟩], table)

/-- Calls on a new table, with their answers, and the table after them. -/
def registerAll (calls : List Builtin) : List Registration × Builtins :=
  calls.foldl registerNext ([], {})

theorem registerAll_concat (calls : List Builtin) (builtin : Builtin) :
    registerAll (calls ++ [builtin]) = registerNext (registerAll calls) builtin :=
  List.foldl_concat ..

/-- Each call has been answered, the answers are the places in order, and the table holds what was
accepted. -/
structure Ordered (calls : List Builtin) (log : List Registration) (table : Builtins) : Prop where
  calls : log.map (·.builtin) = calls
  places : (accepted log).map (·.1.toNat) = List.range (accepted log).length
  holds : table.Holds ((accepted log).map Prod.snd)

variable {table table' : Builtins} {calls : List Builtin} {log : List Registration}

theorem Ordered.refused (h : Ordered calls log table) (builtin : Builtin) (e : RegistrationError) :
    Ordered (calls ++ [builtin]) (log ++ [⟨builtin, .error e⟩]) table where
  calls := by rw [List.map_append, h.calls]; rfl
  places := by rw [accepted_concat_error]; exact h.places
  holds := by rw [accepted_concat_error]; exact h.holds

theorem Ordered.granted (h : Ordered calls log table) {builtin : Builtin}
    (room : (accepted log).length < capacity)
    (hholds : table'.Holds ((accepted log).map Prod.snd ++ [builtin])) :
    Ordered (calls ++ [builtin]) (log ++ [⟨builtin, .ok (accepted log).length.toUInt8⟩]) table' where
  calls := by rw [List.map_append, h.calls]; rfl
  places := by
    rw [accepted_concat_ok, List.map_append, h.places, List.length_append, List.length_singleton,
      List.range_succ, List.map_singleton, toNat_toUInt8_of_lt room]
  holds := by rw [accepted_concat_ok, List.map_append]; exact hholds

theorem ordered_registerAll (calls : List Builtin) :
    Ordered calls (registerAll calls).1 (registerAll calls).2 := by
  induction calls using List.reverseRecOn with
  | nil => exact ⟨rfl, rfl, holds_empty⟩
  | append_singleton calls builtin ih =>
    rw [registerAll_concat]
    unfold registerNext
    rcases ih.holds.registering_cases builtin with ⟨-, hfull⟩ | ⟨-, -, hduplicate⟩
      | ⟨hroom, -, table', hok, hholds⟩
    · rw [hfull]
      exact ih.refused builtin _
    · rw [hduplicate]
      exact ih.refused builtin _
    · have room := Nat.lt_of_le_of_ne ih.holds.length_le hroom
      rw [List.length_map] at hok room
      rw [hok]
      exact ih.granted room hholds

/-- A function stands where the call that registered it was told. -/
theorem Ordered.getElem?_eq_some_iff (h : Ordered calls log table) {index : UInt8}
    {builtin : Builtin} :
    ((accepted log).map Prod.snd)[index.toNat]? = some builtin ↔ ⟨builtin, .ok index⟩ ∈ log := by
  have hplaces : ∀ (place : Nat) (call : UInt8 × Builtin),
      (accepted log)[place]? = some call → call.1.toNat = place := by
    intro place call hcall
    have hplace : ((accepted log).map (·.1.toNat))[place]? = some call.1.toNat := by
      rw [List.getElem?_map, hcall]
      rfl
    rw [h.places] at hplace
    exact (List.getElem?_eq_some_iff.mp hplace).2.symm.trans (by simp)
  rw [← mem_accepted_iff, List.getElem?_map, Option.map_eq_some_iff]
  constructor
  · rintro ⟨⟨index', builtin⟩, hcall, rfl⟩
    obtain rfl := UInt8.toNat_inj.mp (hplaces _ _ hcall)
    exact List.mem_of_getElem? hcall
  · intro hmem
    obtain ⟨place, hcall⟩ := List.mem_iff_getElem?.mp hmem
    obtain rfl := hplaces _ _ hcall
    exact ⟨_, hcall, rfl⟩

/-- What one more call is answered, and what becomes of the table if it fails. -/
theorem Ordered.answer (h : Ordered calls log table) (builtin : Builtin) :
    let answer := Prod.fst <$> table.register builtin
    let registered := (accepted log).map Prod.snd
    let next := registerNext (log, table) builtin
    next.1 = log ++ [⟨builtin, answer⟩]
      ∧ (answer = .error (.full builtin.name) ↔ registered.length = capacity)
      ∧ (answer = .error (.duplicate builtin.name)
        ↔ registered.length ≠ capacity ∧ builtin.name ∈ registered.map (·.name))
      ∧ (∀ index, answer = .ok index → index.toNat = registered.length)
      ∧ ∀ e, answer = .error e →
        (e = .full builtin.name ∨ e = .duplicate builtin.name)
          ∧ registering builtin table = .error e table ∧ next.2 = table := by
  intro answer registered next
  unfold answer next registerNext register
  rcases h.holds.registering_cases builtin with ⟨hfull, hr⟩ | ⟨hroom, hname, hr⟩
    | ⟨hroom, hname, table', hr, -⟩
  · simp only [hr]
    refine ⟨rfl, ⟨fun _ => hfull, fun _ => rfl⟩, ⟨by rintro ⟨⟩, fun h => absurd hfull h.1⟩,
      by rintro _ ⟨⟩, ?_⟩
    rintro _ ⟨⟩
    exact ⟨Or.inl rfl, rfl, trivial⟩
  · simp only [hr]
    refine ⟨rfl, ⟨by rintro ⟨⟩, fun h => absurd h hroom⟩, ⟨fun _ => ⟨hroom, hname⟩, fun _ => rfl⟩,
      by rintro _ ⟨⟩, ?_⟩
    rintro _ ⟨⟩
    exact ⟨Or.inr rfl, rfl, trivial⟩
  · simp only [hr]
    refine ⟨rfl, ⟨by rintro ⟨⟩, fun h => absurd h hroom⟩,
      ⟨by rintro ⟨⟩, fun h => absurd h.2 hname⟩, ?_, by rintro _ ⟨⟩⟩
    rintro _ ⟨⟩
    exact toNat_toUInt8_of_lt (Nat.lt_of_le_of_ne h.holds.length_le hroom)

/-- **Every sequence of registrations.** Those that succeed answer 0, 1, 2 and so on. One fails if 256
functions have been registered, or else if its name has been, and then the table stays as it was. Names
and the places below the size of the table determine each other, and at each place stands the function
of the call that was told that place. -/
theorem register_sequence (calls : List Builtin) :
    let log := (registerAll calls).1
    let table := (registerAll calls).2
    let registered := (accepted log).map Prod.snd
    log.map (·.builtin) = calls
      ∧ (accepted log).map (·.1.toNat) = List.range registered.length
      ∧ (∀ builtin : Builtin,
        let answer := Prod.fst <$> table.register builtin
        let next := registerAll (calls ++ [builtin])
        next.1 = log ++ [⟨builtin, answer⟩]
          ∧ (answer = .error (.full builtin.name) ↔ registered.length = 256)
          ∧ (answer = .error (.duplicate builtin.name)
            ↔ registered.length ≠ 256 ∧ builtin.name ∈ registered.map (·.name))
          ∧ (∀ index, answer = .ok index → index.toNat = registered.length)
          ∧ ∀ e, answer = .error e →
            (e = .full builtin.name ∨ e = .duplicate builtin.name)
              ∧ registering builtin table = .error e table ∧ next.2 = table)
      ∧ (∀ name index, table.indexOf? name = some index ↔ table.nameOf? index = some name)
      ∧ (∀ index, (table.nameOf? index).isSome ↔ index.toNat < table.size)
      ∧ (∀ index, (table.get? index.toNat).map (·.name) = table.nameOf? index)
      ∧ (∀ index builtin, table.get? index.toNat = some builtin ↔ ⟨builtin, .ok index⟩ ∈ log)
      ∧ (∀ place, table.size ≤ place → table.get? place = none)
      ∧ table.size = registered.length ∧ table.size ≤ 256
      ∧ ∀ place < table.size, place.toUInt8.toNat = place := by
  intro log table registered
  have h := ordered_registerAll calls
  have hsize : table.size = registered.length := h.holds.size_eq
  have hle : table.size ≤ 256 := hsize ▸ h.holds.length_le
  refine ⟨h.calls, ?_, fun builtin => ?_, fun name index => Pairing.right?_eq_some_iff_left?,
    h.holds.isSome_nameOf?, fun index => ?_, fun index builtin => ?_, fun place hplace => ?_, hsize,
    hle, fun place hplace => ?_⟩
  · rw [h.places, List.length_map]
  · rw [registerAll_concat]
    exact h.answer builtin
  · rw [h.holds.get?_eq, h.holds.nameOf?_eq]
  · rw [h.holds.get?_eq]
    exact h.getElem?_eq_some_iff
  · rw [h.holds.get?_eq, List.getElem?_eq_none_iff]
    exact Nat.le_trans (Nat.le_of_eq hsize.symm) hplace
  · exact toNat_toUInt8_of_lt (Nat.lt_of_lt_of_le hplace hle)

end Builtins

end ClosureMachine
