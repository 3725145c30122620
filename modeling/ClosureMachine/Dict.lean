/-!
# Dictionaries that keep the order of insertion

A dictionary is a list of entries, no two of them with the same key. Inserting under a key that
is present replaces the value and keeps the place; under a new key, the entry comes last
(`keys_insert`). What is found under a key is what was inserted last (`find?_insert`).
-/

namespace ClosureMachine

/-- Entries in the order in which their keys came in. -/
structure Dict (α β : Type) where
  entries : List (α × β) := []
  nodup : (entries.map Prod.fst).Nodup := by simp

namespace Dict

variable {α β : Type}

def empty : Dict α β :=
  {}

@[simp]
theorem entries_empty : (empty : Dict α β).entries = [] :=
  rfl

def keys (dict : Dict α β) : List α :=
  dict.entries.map Prod.fst

def size (dict : Dict α β) : Nat :=
  dict.entries.length

variable [DecidableEq α]

/-- The value of the first entry under `key`. -/
def lookup (key : α) : List (α × β) → Option β
  | [] => none
  | entry :: rest => if entry.1 = key then some entry.2 else lookup key rest

def find? (dict : Dict α β) (key : α) : Option β :=
  lookup key dict.entries

/-- Entries with `value` under `key`, at the place of the key or else at the end. -/
def put (key : α) (value : β) : List (α × β) → List (α × β)
  | [] => [(key, value)]
  | entry :: rest =>
    if entry.1 = key then (key, value) :: rest else entry :: put key value rest

theorem map_fst_put (key : α) (value : β) (entries : List (α × β)) :
    (put key value entries).map Prod.fst =
      if key ∈ entries.map Prod.fst then entries.map Prod.fst
      else entries.map Prod.fst ++ [key] := by
  induction entries with
  | nil => simp [put]
  | cons entry rest ih =>
    by_cases h : entry.1 = key
    · simp [put, h]
    · have h' : ¬key = entry.1 := fun e => h e.symm
      by_cases hmem : key ∈ rest.map Prod.fst <;> simp_all [put]

theorem nodup_map_fst_put {key : α} {value : β} {entries : List (α × β)}
    (h : (entries.map Prod.fst).Nodup) : ((put key value entries).map Prod.fst).Nodup := by
  rw [map_fst_put]
  split
  · exact h
  · next hkey =>
    refine List.nodup_append.2 ⟨h, by simp, fun k hk k' hk' => ?_⟩
    rintro rfl
    exact hkey (List.mem_singleton.1 hk' ▸ hk)

theorem lookup_put (key key' : α) (value : β) (entries : List (α × β)) :
    lookup key' (put key value entries) =
      if key = key' then some value else lookup key' entries := by
  induction entries with
  | nil => rfl
  | cons entry rest ih =>
    by_cases hk : entry.1 = key
    · by_cases h : key = key' <;> simp [put, lookup, hk, h]
    · by_cases h : entry.1 = key'
      · have h' : ¬key = key' := fun e => hk (h.trans e.symm)
        rw [put, if_neg hk]
        simp [lookup, h, h']
      · simp [put, lookup, hk, h, ih]

theorem mem_of_lookup {key : α} {value : β} {entries : List (α × β)}
    (h : lookup key entries = some value) : (key, value) ∈ entries := by
  induction entries with
  | nil => cases h
  | cons entry rest ih =>
    rw [lookup] at h
    split at h
    · next hkey =>
      cases h
      rw [← hkey]
      exact List.mem_cons_self
    · exact List.mem_cons_of_mem _ (ih h)

/-- An entry that is there after an insertion is the one inserted, or was there before. -/
theorem mem_put {key : α} {value : β} {entry : α × β} {entries : List (α × β)}
    (h : entry ∈ put key value entries) : entry = (key, value) ∨ entry ∈ entries := by
  induction entries with
  | nil => exact Or.inl (List.mem_singleton.1 h)
  | cons first rest ih =>
    rw [put] at h
    split at h
    · rcases List.mem_cons.1 h with rfl | hrest
      · exact Or.inl rfl
      · exact Or.inr (List.mem_cons_of_mem _ hrest)
    · rcases List.mem_cons.1 h with rfl | hrest
      · exact Or.inr List.mem_cons_self
      · exact (ih hrest).imp_right (List.mem_cons_of_mem _)

/-- The dictionary with `value` under `key`. -/
def insert (dict : Dict α β) (key : α) (value : β) : Dict α β :=
  ⟨put key value dict.entries, nodup_map_fst_put dict.nodup⟩

/-- The dictionary that comes of inserting entries one after the other. -/
def ofList (entries : List (α × β)) : Dict α β :=
  entries.foldl (fun dict entry => dict.insert entry.1 entry.2) empty

/-! ### What a dictionary holds after an insertion -/

theorem keys_insert (dict : Dict α β) (key : α) (value : β) :
    (dict.insert key value).keys = if key ∈ dict.keys then dict.keys else dict.keys ++ [key] :=
  map_fst_put key value dict.entries

theorem find?_insert (dict : Dict α β) (key key' : α) (value : β) :
    (dict.insert key value).find? key' = if key = key' then some value else dict.find? key' :=
  lookup_put key key' value dict.entries

end Dict

end ClosureMachine
