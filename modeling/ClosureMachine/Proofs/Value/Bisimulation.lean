import ClosureMachine.Value.Equality
import Mathlib.Data.List.Nodup
import Mathlib.Data.List.Perm.Subperm
import Mathlib.Logic.Relation

/-!
# Structural equality is bisimilarity

Arrays and hashes can hold themselves, so that two values can be unrolled without end. They are the
same if one can never tell them apart in doing so: if there is a relation between them by which related
values match, and the items of related containers are again related.

* **`Matches`** is one round of this, **`Bisimulation`** a relation that stands every round, and
  **`UpTo`** what stands so many of them.
* **`sameWhile_iff`** is one round of the comparison. Pairs are taken for granted while they are being
  compared, and nothing is remembered of them afterwards: `upTo_of_sameWhile` says that this is sound,
  `Bisimulation.sameWhile` that nothing is missed.
* **`plain`** is the comparison that takes nothing for granted. It need not end, but does on values in
  which no container holds itself (`plain_of_acyclic`).
* **`same_iff_bisimilar`** puts this together.
-/

namespace ClosureMachine

/-! ## Dictionaries with the same keys -/

namespace Dict

variable {α β γ : Type}

theorem size_eq_of_keys_iff {dict : Dict α β} {dict' : Dict α γ}
    (hkeys : ∀ key, key ∈ dict.keys ↔ key ∈ dict'.keys) : dict.size = dict'.size := by
  have hperm := (List.perm_ext_iff_of_nodup dict.nodup dict'.nodup).mpr hkeys
  simpa [size] using hperm.length_eq

/-- A dictionary with as many keys as another, and no others, has the same keys. -/
theorem keys_iff_of_size_eq [DecidableEq α] {dict : Dict α β} {dict' : Dict α γ}
    (hsize : dict.size = dict'.size) (hkeys : ∀ key ∈ dict.keys, key ∈ dict'.keys) (key : α) :
    key ∈ dict.keys ↔ key ∈ dict'.keys := by
  have hperm := (List.subperm_of_subset dict.nodup hkeys).perm_of_length_le
    (by simpa [keys, size] using Nat.le_of_eq hsize.symm)
  exact hperm.mem_iff

variable [DecidableEq α]

theorem lookup_eq_none_iff {key : α} {entries : List (α × β)} :
    lookup key entries = none ↔ key ∉ entries.map Prod.fst := by
  induction entries with
  | nil => simp [lookup]
  | cons entry rest ih =>
    rw [lookup]
    by_cases h : entry.1 = key
    · simp [h]
    · rw [if_neg h, ih]
      simp [Ne.symm h]

theorem mem_keys_iff {dict : Dict α β} {key : α} :
    key ∈ dict.keys ↔ ∃ v, dict.find? key = some v := by
  rw [← Option.ne_none_iff_exists', ne_eq, find?, lookup_eq_none_iff, not_not]
  rfl

theorem find?_eq_some_iff {dict : Dict α β} {key : α} {v : β} :
    dict.find? key = some v ↔ (key, v) ∈ dict.entries := by
  refine ⟨mem_of_lookup, fun h => ?_⟩
  obtain ⟨w, hw⟩ := mem_keys_iff.mp (List.mem_map_of_mem (f := Prod.fst) h)
  have hentry := List.inj_on_of_nodup_map dict.nodup (mem_of_lookup hw) h rfl
  rw [hw, (Prod.mk.inj hentry).2]

/-- To look up all that one of two dictionaries has in the other is to compare them key by key, if they
are of one size. -/
theorem lookups_iff {dict : Dict α β} {dict' : Dict α γ} {R : β → γ → Prop} :
    (dict.size = dict'.size
        ∧ ∀ key x, dict.find? key = some x → ∃ y, dict'.find? key = some y ∧ R x y)
      ↔ (∀ key, key ∈ dict.keys ↔ key ∈ dict'.keys)
        ∧ ∀ key x y, dict.find? key = some x → dict'.find? key = some y → R x y := by
  constructor
  · rintro ⟨hsize, h⟩
    refine ⟨keys_iff_of_size_eq hsize fun key hkey => ?_, fun key x y hx hy => ?_⟩
    · obtain ⟨x, hx⟩ := mem_keys_iff.mp hkey
      obtain ⟨y, hy, -⟩ := h key x hx
      exact mem_keys_iff.mpr ⟨y, hy⟩
    · obtain ⟨y', hy', hxy⟩ := h key x hx
      rwa [Option.some.inj (hy.symm.trans hy')]
  · rintro ⟨hkeys, h⟩
    refine ⟨size_eq_of_keys_iff hkeys, fun key x hx => ?_⟩
    obtain ⟨y, hy⟩ := mem_keys_iff.mp ((hkeys key).mp (mem_keys_iff.mpr ⟨x, hx⟩))
    exact ⟨y, hy, h key x y hx hy⟩

/-- What a test of all entries says that looks each key up elsewhere. -/
theorem all_entries_iff {dict : Dict α β} {dict' : Dict α γ} {test : α × β → Bool}
    {R : β → γ → Prop}
    (htest : ∀ key x, test (key, x) = true ↔ ∃ y, dict'.find? key = some y ∧ R x y) :
    dict.entries.all test = true
      ↔ ∀ key x, dict.find? key = some x → ∃ y, dict'.find? key = some y ∧ R x y := by
  rw [List.all_eq_true]
  constructor
  · exact fun h key x hx => (htest key x).mp (h _ (find?_eq_some_iff.mp hx))
  · exact fun h entry hentry => (htest ..).mpr (h _ _ (find?_eq_some_iff.mpr hentry))

end Dict

namespace Value

theorem equals_trans {x y z : Value} (hxy : x.equals y = true) (hyz : y.equals z = true) :
    x.equals z = true := by
  cases x <;> cases y <;> simp [equals] at hxy <;> cases z <;> simp_all [equals]

theorem kind_of_equals {x y : Value} (h : x.equals y = true) : x.kind = y.kind := by
  cases x <;> cases y <;> first | rfl | simp [equals] at h

/-- Two values are both arrays, or both hashes, or neither. -/
theorem containers_cases (x y : Value) :
    (∃ a b, x = .array a ∧ y = .array b) ∨ (∃ a b, x = .hash a ∧ y = .hash b)
      ∨ ¬(x.kind = .array ∧ y.kind = .array) ∧ ¬(x.kind = .hash ∧ y.kind = .hash) := by
  cases x with
  | array a =>
    cases y with
    | array b => exact Or.inl ⟨a, b, rfl, rfl⟩
    | _ => simp [kind]
  | hash a =>
    cases y with
    | hash b => exact Or.inr (Or.inl ⟨a, b, rfl, rfl⟩)
    | _ => simp [kind]
  | _ => simp [kind]

end Value

namespace Heap

variable {heap : Heap} {R S : Value → Value → Prop} {x y z : Value}

/-! ## One round -/

/-- Two values match, if their items are related: two arrays of one length place by place, two hashes
with the same keys key by key. Otherwise they match if programs take them to be equal. -/
inductive Matches (heap : Heap) (R : Value → Value → Prop) : Value → Value → Prop
  | array {a b : Nat} (size : (heap.array a).size = (heap.array b).size)
      (items : ∀ (i : Nat) (x y : Value), (heap.array a)[i]? = some x → (heap.array b)[i]? = some y →
        R x y) :
      Matches heap R (.array a) (.array b)
  | hash {a b : Nat} (keys : ∀ key, key ∈ (heap.hash a).keys ↔ key ∈ (heap.hash b).keys)
      (items : ∀ (key : Key) (x y : Value), (heap.hash a).find? key = some x →
        (heap.hash b).find? key = some y → R x y) :
      Matches heap R (.hash a) (.hash b)
  | other {x y : Value} (harrays : ¬(x.kind = .array ∧ y.kind = .array))
      (hhashes : ¬(x.kind = .hash ∧ y.kind = .hash)) (h : x.equals y = true) : Matches heap R x y

/-- Related values match, and so do their items, and the items of these, and so on. -/
def Bisimulation (heap : Heap) (R : Value → Value → Prop) : Prop :=
  ∀ x y, R x y → heap.Matches R x y

/-- The values match for so many rounds. -/
def UpTo (heap : Heap) : Nat → Value → Value → Prop
  | 0, _, _ => True
  | n + 1, x, y => heap.Matches (heap.UpTo n) x y

theorem matches_array_iff {a b : Nat} : heap.Matches R (.array a) (.array b) ↔
    (heap.array a).size = (heap.array b).size
      ∧ ∀ (i : Nat) (x y : Value), (heap.array a)[i]? = some x → (heap.array b)[i]? = some y →
        R x y := by
  constructor
  · rintro (⟨size, items⟩ | _ | ⟨harrays⟩)
    · exact ⟨size, items⟩
    · exact absurd ⟨rfl, rfl⟩ harrays
  · rintro ⟨size, items⟩
    exact .array size items

theorem matches_hash_iff {a b : Nat} : heap.Matches R (.hash a) (.hash b) ↔
    (∀ key, key ∈ (heap.hash a).keys ↔ key ∈ (heap.hash b).keys)
      ∧ ∀ (key : Key) (x y : Value), (heap.hash a).find? key = some x →
        (heap.hash b).find? key = some y → R x y := by
  constructor
  · rintro (_ | ⟨keys, items⟩ | ⟨-, hhashes⟩)
    · exact ⟨keys, items⟩
    · exact absurd ⟨rfl, rfl⟩ hhashes
  · rintro ⟨keys, items⟩
    exact .hash keys items

theorem matches_other_iff (harrays : ¬(x.kind = .array ∧ y.kind = .array))
    (hhashes : ¬(x.kind = .hash ∧ y.kind = .hash)) : heap.Matches R x y ↔ x.equals y = true := by
  constructor
  · rintro (_ | _ | ⟨-, -, h⟩)
    · exact absurd ⟨rfl, rfl⟩ harrays
    · exact absurd ⟨rfl, rfl⟩ hhashes
    · exact h
  · exact .other harrays hhashes

namespace Matches

theorem mono (h : heap.Matches R x y) (hRS : ∀ x y, R x y → S x y) : heap.Matches S x y := by
  cases h with
  | array size items => exact .array size fun i x y hx hy => hRS _ _ (items i x y hx hy)
  | hash keys items => exact .hash keys fun key x y hx hy => hRS _ _ (items key x y hx hy)
  | other harrays hhashes h => exact .other harrays hhashes h

/-- A value matches what programs take to be the same. -/
theorem of_equals (hR : ∀ x, R x x) (h : x.equals y = true) : heap.Matches R x y := by
  rcases Value.containers_cases x y with ⟨a, b, rfl, rfl⟩ | ⟨a, b, rfl, rfl⟩ | ⟨harrays, hhashes⟩
  · obtain rfl : a = b := by simpa [Value.equals] using h
    refine .array rfl fun i x y hx hy => ?_
    rw [Option.some.inj (hx.symm.trans hy)]
    exact hR y
  · obtain rfl : a = b := by simpa [Value.equals] using h
    refine .hash (fun _ => Iff.rfl) fun key x y hx hy => ?_
    rw [Option.some.inj (hx.symm.trans hy)]
    exact hR y
  · exact .other harrays hhashes h

theorem symm (h : heap.Matches R x y) : heap.Matches (fun x y => R y x) y x := by
  cases h with
  | array size items => exact .array size.symm fun i x y hx hy => items i y x hy hx
  | hash keys items => exact .hash (fun key => (keys key).symm) fun key x y hx hy => items key y x hy hx
  | other harrays hhashes h =>
    exact .other (fun h => harrays h.symm) (fun h => hhashes h.symm) (Value.equals_comm y x ▸ h)

theorem trans (hxy : heap.Matches R x y) (hyz : heap.Matches S y z) :
    heap.Matches (fun x z => ∃ y, R x y ∧ S y z) x z := by
  cases hxy with
  | @array a b size items =>
    cases hyz with
    | @array _ c size' items' =>
      refine .array (size.trans size') fun i x z hx hz => ?_
      obtain ⟨hlt, -⟩ := Array.getElem?_eq_some_iff.mp hx
      have hy : (heap.array b)[i]? = some (heap.array b)[i] := Array.getElem?_eq_getElem (size ▸ hlt)
      exact ⟨_, items i x _ hx hy, items' i _ z hy hz⟩
    | other harrays _ h => exact absurd ⟨rfl, (Value.kind_of_equals h).symm⟩ harrays
  | @hash a b keys items =>
    cases hyz with
    | @hash _ c keys' items' =>
      refine .hash (fun key => (keys key).trans (keys' key)) fun key x z hx hz => ?_
      obtain ⟨y, hy⟩ := Dict.mem_keys_iff.mp ((keys key).mp (Dict.mem_keys_iff.mpr ⟨x, hx⟩))
      exact ⟨y, items key x y hx hy, items' key y z hy hz⟩
    | other _ hhashes h => exact absurd ⟨rfl, (Value.kind_of_equals h).symm⟩ hhashes
  | other harrays hhashes h =>
    have hkind := Value.kind_of_equals h
    cases hyz with
    | array => exact absurd ⟨hkind, rfl⟩ harrays
    | hash => exact absurd ⟨hkind, rfl⟩ hhashes
    | other _ _ h' =>
      exact .other (fun hxz => harrays ⟨hxz.1, hkind ▸ hxz.1⟩)
        (fun hxz => hhashes ⟨hxz.1, hkind ▸ hxz.1⟩) (Value.equals_trans h h')

end Matches

/-! ## Bisimulations -/

theorem bisimulation_equals (heap : Heap) : heap.Bisimulation fun x y => x.equals y = true :=
  fun _ _ h => .of_equals Value.equals_refl h

theorem Bisimulation.flip (h : heap.Bisimulation R) : heap.Bisimulation fun x y => R y x :=
  fun x y hxy => (h y x hxy).symm

theorem Bisimulation.comp (hR : heap.Bisimulation R) (hS : heap.Bisimulation S) :
    heap.Bisimulation fun x z => ∃ y, R x y ∧ S y z := by
  rintro x z ⟨y, hxy, hyz⟩
  exact (hR x y hxy).trans (hS y z hyz)

theorem upTo_refl (heap : Heap) (n : Nat) (x : Value) : heap.UpTo n x x := by
  induction n generalizing x with
  | zero => trivial
  | succ n ih => exact .of_equals ih (Value.equals_refl x)

/-- What stands a round more stands a round less. -/
theorem upTo_of_succ {n : Nat} (h : heap.UpTo (n + 1) x y) : heap.UpTo n x y := by
  induction n generalizing x y with
  | zero => trivial
  | succ n ih => exact h.mono fun x y => ih

/-- What stands any number of rounds stands them all. -/
theorem bisimulation_upTo (heap : Heap) : heap.Bisimulation fun x y => ∀ n, heap.UpTo n x y := by
  intro x y h
  -- the first round says what the values are, the rounds after it are about their items
  cases h 1 with
  | array size =>
    refine .array size fun i x y hx hy n => ?_
    exact (matches_array_iff.mp (h (n + 1))).2 i x y hx hy
  | hash keys =>
    refine .hash keys fun key x y hx hy n => ?_
    exact (matches_hash_iff.mp (h (n + 1))).2 key x y hx hy
  | other harrays hhashes h => exact .other harrays hhashes h

/-! ## What the comparison takes for granted -/

theorem all_zip_iff {xs ys : Array Value} {p : Value → Value → Bool} :
    ((xs.toList.zip ys.toList).all fun (x, y) => p x y) = true
      ↔ ∀ (i : Nat) (x y : Value), xs[i]? = some x → ys[i]? = some y → p x y = true := by
  rw [List.all_eq_true]
  constructor
  · intro h i x y hx hy
    refine h (x, y) (List.mem_iff_getElem?.mpr ⟨i, ?_⟩)
    rw [List.getElem?_zip_eq_some, Array.getElem?_toList, Array.getElem?_toList]
    exact ⟨hx, hy⟩
  · rintro h ⟨x, y⟩ hxy
    obtain ⟨i, hi⟩ := List.mem_iff_getElem?.mp hxy
    rw [List.getElem?_zip_eq_some, Array.getElem?_toList, Array.getElem?_toList] at hi
    exact h i x y hi.1 hi.2

/-- The pair of containers that two values are, if both are arrays or both hashes. -/
def pair? : Value → Value → Option (Container × Container)
  | .array a, .array b => some (.array a, .array b)
  | .hash a, .hash b => some (.hash a, .hash b)
  | _, _ => none

/-- The values are one and the same container, or a pair that is being compared. -/
def Assumed (comparing : List (Container × Container)) (x y : Value) : Prop :=
  ∃ pair, pair? x y = some pair ∧ (pair.1 = pair.2 ∨ pair ∈ comparing)

/-- What is being compared while the items of two values are. -/
def opened (comparing : List (Container × Container)) (x y : Value) : List (Container × Container) :=
  (pair? x y).toList ++ comparing

variable {comparing : List (Container × Container)} {pair : Container × Container}

theorem pair?_inj {x' y' : Value} (h : pair? x y = some pair) (h' : pair? x' y' = some pair) :
    x' = x ∧ y' = y := by
  unfold pair? at h h'
  split at h <;> cases h <;> split at h' <;> cases h' <;> exact ⟨rfl, rfl⟩

theorem pair?_of_not (harrays : ¬(x.kind = .array ∧ y.kind = .array))
    (hhashes : ¬(x.kind = .hash ∧ y.kind = .hash)) : pair? x y = none := by
  unfold pair?
  split
  · exact absurd ⟨rfl, rfl⟩ harrays
  · exact absurd ⟨rfl, rfl⟩ hhashes
  · rfl

theorem eq_of_assumed_nil (h : Assumed [] x y) : x = y := by
  obtain ⟨pair, hpair, hsame⟩ := h
  unfold pair? at hpair
  split at hpair <;> cases hpair <;> simpa using hsame

/-- Of two values that are being compared no more is assumed than that they are the same. -/
theorem assumed_of_opened {x' y' : Value} (h : Assumed (opened comparing x y) x' y') :
    Assumed comparing x' y' ∨ x' = x ∧ y' = y := by
  obtain ⟨pair, hpair, hsame | hmem⟩ := h
  · exact Or.inl ⟨pair, hpair, Or.inl hsame⟩
  · rcases List.mem_append.mp hmem with hnew | hold
    · exact Or.inr (pair?_inj (Option.mem_toList.mp hnew) hpair)
    · exact Or.inl ⟨pair, hpair, Or.inr hold⟩

/-- **One round of the comparison**: the values are taken for granted, or they match with their items
compared while they are being compared themselves. -/
theorem sameWhile_iff : heap.sameWhile comparing x y = true ↔
    Assumed comparing x y
      ∨ heap.Matches (fun x' y' => heap.sameWhile (opened comparing x y) x' y' = true) x y := by
  rcases Value.containers_cases x y with ⟨a, b, rfl, rfl⟩ | ⟨a, b, rfl, rfl⟩ | ⟨harrays, hhashes⟩
  · have hassumed : Assumed comparing (.array a) (.array b)
        ↔ a = b ∨ (.array a, .array b) ∈ comparing := by simp [Assumed, pair?]
    rw [sameWhile_array, hassumed, matches_array_iff]
    split
    · next h => exact ⟨fun _ => Or.inl h, fun _ => rfl⟩
    · next hnew =>
      rw [or_iff_right hnew, Bool.and_eq_true, beq_iff_eq, all_zip_iff]
      rfl
  · have hassumed : Assumed comparing (.hash a) (.hash b)
        ↔ a = b ∨ (.hash a, .hash b) ∈ comparing := by simp [Assumed, pair?]
    rw [sameWhile_hash, hassumed, matches_hash_iff]
    split
    · next h => exact ⟨fun _ => Or.inl h, fun _ => rfl⟩
    · next hnew =>
      rw [or_iff_right hnew, Bool.and_eq_true, beq_iff_eq, ← Dict.lookups_iff]
      refine and_congr_right fun _ => Dict.all_entries_iff fun key x => ?_
      dsimp only
      cases (heap.hash b).find? key <;> simp [opened, pair?]
  · have hassumed : ¬Assumed comparing x y := by
      simp [Assumed, pair?_of_not harrays hhashes]
    rw [or_iff_right hassumed, matches_other_iff harrays hhashes]
    unfold sameWhile
    split
    · exact absurd ⟨rfl, rfl⟩ harrays
    · exact absurd ⟨rfl, rfl⟩ hhashes
    · rfl

/-! ## The comparison is right -/

/-- **The comparison is sound.** As many rounds as the assumed pairs stand, the values stand that are
found to be the same. -/
theorem upTo_of_sameWhile {n : Nat} (hassumed : ∀ x y, Assumed comparing x y → heap.UpTo n x y)
    (h : heap.sameWhile comparing x y = true) : heap.UpTo n x y := by
  induction n generalizing comparing x y with
  | zero => trivial
  | succ n ih =>
    have hless : ∀ x y, Assumed comparing x y → heap.UpTo n x y := fun x y hxy =>
      upTo_of_succ (hassumed x y hxy)
    have hxy := ih hless h
    rcases sameWhile_iff.mp h with h | hmatches
    · exact hassumed x y h
    · refine hmatches.mono fun x' y' => ih fun x₁ y₁ h₁ => ?_
      -- the pair that is assumed besides has just been seen to stand one round less
      rcases assumed_of_opened h₁ with h₁ | ⟨rfl, rfl⟩
      · exact hless x₁ y₁ h₁
      · exact hxy

theorem upTo_of_same (h : heap.same x y = true) (n : Nat) : heap.UpTo n x y := by
  refine upTo_of_sameWhile (fun x y hxy => ?_) h
  rw [eq_of_assumed_nil hxy]
  exact heap.upTo_refl n y

theorem mem_containers_of_array {id i : Nat} (h : (heap.array id)[i]? = some x) :
    Container.array id ∈ heap.containers :=
  array_mem_containers fun hempty => by simp [hempty] at h

theorem mem_containers_of_hash {id : Nat} {key : Key} (h : (heap.hash id).find? key = some x) :
    Container.hash id ∈ heap.containers :=
  hash_mem_containers (List.ne_nil_of_mem (Dict.find?_eq_some_iff.mp h))

/-- A pair that is not assumed is one of finitely many, unless there is nothing in it to compare. -/
theorem left_opened_lt (hpair : pair? x y = some pair) (hnew : ¬Assumed comparing x y)
    (hmem : pair ∈ heap.containerPairs) :
    left heap.containerPairs (opened comparing x y) < left heap.containerPairs comparing := by
  unfold opened
  rw [hpair]
  exact left_cons_lt hmem fun h => hnew ⟨pair, hpair, Or.inr h⟩

/-- **Nothing is missed.** Values that a bisimulation relates are found to be the same, whatever is
assumed. -/
theorem Bisimulation.sameWhile (hR : heap.Bisimulation R) (h : R x y)
    (comparing : List (Container × Container)) : heap.sameWhile comparing x y = true := by
  -- by induction on the pairs that are left to be compared
  obtain ⟨count, hcount⟩ : ∃ count, count = left heap.containerPairs comparing := ⟨_, rfl⟩
  induction count using Nat.strongRecOn generalizing comparing x y with
  | ind count ih =>
    subst hcount
    rw [sameWhile_iff]
    by_cases hnew : Assumed comparing x y
    · exact Or.inl hnew
    · right
      cases hR x y h with
      | array size items =>
        refine .array size fun i x y hx hy => ?_
        have hpair := mem_containerPairs (mem_containers_of_array hx) (mem_containers_of_array hy)
        exact ih _ (left_opened_lt rfl hnew hpair) (items i x y hx hy) _ rfl
      | hash keys items =>
        refine .hash keys fun key x y hx hy => ?_
        have hpair := mem_containerPairs (mem_containers_of_hash hx) (mem_containers_of_hash hy)
        exact ih _ (left_opened_lt rfl hnew hpair) (items key x y hx hy) _ rfl
      | other harrays hhashes h => exact .other harrays hhashes h

/-- **Structural equality is bisimilarity.** -/
theorem same_iff : heap.same x y = true ↔ ∃ R, heap.Bisimulation R ∧ R x y := by
  constructor
  · exact fun h => ⟨_, heap.bisimulation_upTo, upTo_of_same h⟩
  · rintro ⟨R, hR, h⟩
    exact hR.sameWhile h []

/-! ## What follows for the comparison -/

theorem same_iff_matches :
    heap.same x y = true ↔ heap.Matches (fun x y => heap.same x y = true) x y := by
  have hmatches : ∀ x y, heap.same x y = true →
      heap.Matches (fun x y => heap.same x y = true) x y := by
    intro x y h
    obtain ⟨R, hR, h⟩ := same_iff.mp h
    exact (hR x y h).mono fun x y h => same_iff.mpr ⟨R, hR, h⟩
  -- what matches up to `same` is itself a bisimulation
  exact ⟨hmatches x y, fun h => same_iff.mpr ⟨_, fun x y h => h.mono hmatches, h⟩⟩

theorem same_of_equals (h : x.equals y = true) : heap.same x y = true :=
  same_iff.mpr ⟨_, heap.bisimulation_equals, h⟩

theorem equivalence_same (heap : Heap) : Equivalence fun x y => heap.same x y = true where
  refl x := same_of_equals (Value.equals_refl x)
  symm h := by
    obtain ⟨R, hR, h⟩ := same_iff.mp h
    exact same_iff.mpr ⟨_, hR.flip, h⟩
  trans hxy hyz := by
    obtain ⟨R, hR, hxy⟩ := same_iff.mp hxy
    obtain ⟨S, hS, hyz⟩ := same_iff.mp hyz
    exact same_iff.mpr ⟨_, hR.comp hS, _, hxy, hyz⟩

/-! ## Values without cycles -/

/-- The comparison that takes nothing for granted, into so many containers one inside the other. There
is no answer if that is not deep enough. -/
def plain (heap : Heap) : Nat → Value → Value → Option Bool
  | 0, _, _ => none
  | depth + 1, .array a, .array b =>
    if (heap.array a).size = (heap.array b).size then
      ((heap.array a).toList.zip (heap.array b).toList).allM fun (x, y) => heap.plain depth x y
    else
      some false
  | depth + 1, .hash a, .hash b =>
    if (heap.hash a).size = (heap.hash b).size then
      (heap.hash a).entries.allM fun (key, x) =>
        match (heap.hash b).find? key with
        | some y => heap.plain depth x y
        | none => some false
    else
      some false
  | _ + 1, x, y => some (x.equals y)

/-- A container holds its items. -/
inductive Holds (heap : Heap) : Value → Value → Prop
  | array {id i : Nat} {x : Value} (h : (heap.array id)[i]? = some x) : Holds heap (.array id) x
  | hash {id : Nat} {key : Key} {x : Value} (h : (heap.hash id).find? key = some x) :
      Holds heap (.hash id) x

theorem holds_of_mem_array {id : Nat} {x : Value} (h : x ∈ (heap.array id).toList) :
    heap.Holds (.array id) x := by
  obtain ⟨i, hi⟩ := List.mem_iff_getElem?.mp h
  rw [Array.getElem?_toList] at hi
  exact .array hi

theorem holds_of_mem_hash {id : Nat} {key : Key} {x : Value}
    (h : (key, x) ∈ (heap.hash id).entries) : heap.Holds (.hash id) x :=
  .hash (Dict.find?_eq_some_iff.mpr h)

/-- Nothing that the value holds, however deep, holds itself. -/
def Acyclic (heap : Heap) (x : Value) : Prop :=
  ∀ y, Relation.ReflTransGen heap.Holds x y → ¬Relation.TransGen heap.Holds y y

theorem Acyclic.item (h : heap.Acyclic x) (hxy : heap.Holds x y) : heap.Acyclic y :=
  fun z hyz => h z (.head hxy hyz)

/-- What holds something is a container, one of finitely many. -/
theorem Holds.container (h : heap.Holds x y) :
    ∃ container ∈ heap.containers, pair? x x = some (container, container) := by
  cases h with
  | array h => exact ⟨_, mem_containers_of_array h, rfl⟩
  | hash h => exact ⟨_, mem_containers_of_hash h, rfl⟩

theorem allM_eq_some {α : Type} {test : α → Option Bool} {p : α → Bool} {xs : List α}
    (h : ∀ x ∈ xs, test x = some (p x)) : xs.allM test = some (xs.all p) := by
  induction xs with
  | nil => rfl
  | cons x xs ih =>
    rw [List.allM, h x List.mem_cons_self, List.all_cons]
    cases p x with
    | false => rfl
    | true => exact ih fun y hy => h y (List.mem_cons_of_mem _ hy)

theorem same_array (heap : Heap) (a b : Nat) : heap.same (.array a) (.array b)
    = (decide ((heap.array a).size = (heap.array b).size)
      && ((heap.array a).toList.zip (heap.array b).toList).all fun (x, y) => heap.same x y) := by
  rw [Bool.eq_iff_iff, same_iff_matches, matches_array_iff, Bool.and_eq_true, decide_eq_true_iff,
    all_zip_iff]

theorem same_hash (heap : Heap) (a b : Nat) : heap.same (.hash a) (.hash b)
    = (decide ((heap.hash a).size = (heap.hash b).size)
      && (heap.hash a).entries.all fun (key, x) =>
        ((heap.hash b).find? key).any (heap.same x)) := by
  rw [Bool.eq_iff_iff, same_iff_matches, matches_hash_iff, Bool.and_eq_true, decide_eq_true_iff,
    ← Dict.lookups_iff]
  exact and_congr_right fun _ => (Dict.all_entries_iff fun key x => Option.any_eq_true ..).symm

/-- If it comes to the same for all items, the plain comparison comes to the same for the values. -/
theorem plain_of_items {depth : Nat}
    (h : ∀ x', heap.Holds x x' → ∀ y', heap.plain depth x' y' = some (heap.same x' y')) :
    heap.plain (depth + 1) x y = some (heap.same x y) := by
  rcases Value.containers_cases x y with ⟨a, b, rfl, rfl⟩ | ⟨a, b, rfl, rfl⟩ | ⟨harrays, hhashes⟩
  · rw [plain, same_array]
    split
    · next hsize =>
      rw [decide_eq_true hsize, Bool.true_and]
      refine allM_eq_some ?_
      rintro ⟨x', y'⟩ hmem
      exact h x' (holds_of_mem_array (List.of_mem_zip hmem).1) y'
    · next hsize => rw [decide_eq_false hsize, Bool.false_and]
  · rw [plain, same_hash]
    split
    · next hsize =>
      rw [decide_eq_true hsize, Bool.true_and]
      refine allM_eq_some ?_
      rintro ⟨key, x'⟩ hmem
      have hx' := h x' (holds_of_mem_hash hmem)
      dsimp only
      cases (heap.hash b).find? key with
      | none => rfl
      | some y' => exact hx' y'
    · next hsize => rw [decide_eq_false hsize, Bool.false_and]
  · have hsame : heap.same x y = x.equals y := by
      rw [Bool.eq_iff_iff, same_iff_matches, matches_other_iff harrays hhashes]
    rw [hsame, plain]
    · exact fun a b hx hy => harrays ⟨hx ▸ rfl, hy ▸ rfl⟩
    · exact fun a b hx hy => hhashes ⟨hx ▸ rfl, hy ▸ rfl⟩

/-- All of these containers lead into the value. -/
def LeadInto (heap : Heap) (path : List Container) (x : Value) : Prop :=
  ∀ container ∈ path, ∀ z, pair? z z = some (container, container) → Relation.TransGen heap.Holds z x

section Path

variable {path : List Container} {container : Container}

theorem leadInto_nil (heap : Heap) (x : Value) : heap.LeadInto [] x := by
  intro container hmem
  cases hmem

/-- On the way into a value without cycles no container is met twice. -/
theorem LeadInto.not_mem (hpath : heap.LeadInto path x) (h : heap.Acyclic x)
    (hcontainer : pair? x x = some (container, container)) : container ∉ path :=
  fun hold => h x .refl (hpath container hold x hcontainer)

theorem LeadInto.item (hpath : heap.LeadInto path x)
    (hcontainer : pair? x x = some (container, container)) (hxy : heap.Holds x y) :
    heap.LeadInto (container :: path) y := by
  intro container' hmem z hz
  rcases List.mem_cons.mp hmem with rfl | hold
  · rw [(pair?_inj hcontainer hz).1]
    exact .single hxy
  · exact (hpath container' hold z hz).tail hxy

/-- What holds of a value without cycles if it holds of its items, with the value put in front of the
containers that lead into it, holds of all such values. -/
theorem Acyclic.induct {P : List Container → Value → Prop}
    (step : ∀ path x, heap.Acyclic x → heap.LeadInto path x →
      (∀ container y, pair? x x = some (container, container) → heap.Holds x y →
        P (container :: path) y) → P path x)
    (h : heap.Acyclic x) (path : List Container) (hpath : heap.LeadInto path x) : P path x := by
  -- every container that is entered is a new one, and there are only so many
  obtain ⟨count, hcount⟩ : ∃ count, count = left heap.containers path := ⟨_, rfl⟩
  induction count using Nat.strongRecOn generalizing path x with
  | ind count ih =>
    subst hcount
    refine step path x h hpath fun container y hcontainer hxy => ?_
    obtain ⟨container', hmem, hcontainer'⟩ := hxy.container
    have hsame : container = container' :=
      (Prod.mk.inj (Option.some.inj (hcontainer.symm.trans hcontainer'))).1
    have hless := left_cons_lt (hsame ▸ hmem) (hpath.not_mem h hcontainer)
    exact ih _ hless (h.item hxy) _ (hpath.item hcontainer hxy) rfl

end Path

/-- On a value without cycles the plain comparison needs to go no deeper than there are containers, and
comes to the same. -/
theorem plain_of_acyclic (h : heap.Acyclic x) {depth : Nat} (hdepth : heap.containers.length < depth)
    (y : Value) : heap.plain depth x y = some (heap.same x y) := by
  let P := fun path x => ∀ depth, left heap.containers path < depth →
    ∀ y, heap.plain depth x y = some (heap.same x y)
  have hplain : P [] x := by
    refine h.induct (fun path x h hpath ih depth hdepth y => ?_) [] (heap.leadInto_nil x)
    cases depth with
    | zero => omega
    | succ depth =>
      apply plain_of_items
      intro x' hx' y'
      obtain ⟨container, hmem, hcontainer⟩ := hx'.container
      have hless := left_cons_lt hmem (hpath.not_mem h hcontainer)
      exact ih container x' hcontainer hx' depth (by omega) y'
  exact hplain depth (Nat.lt_of_le_of_lt List.countP_le_length hdepth) y

/-- **Structural equality is bisimilarity.** It is therefore an equivalence, on values with cycles too,
and follows from equality as programs see it. On values without cycles the plain comparison comes to
the same, given that it may go as deep as there are containers. -/
theorem same_iff_bisimilar (heap : Heap) :
    (∀ x y, heap.same x y = true ↔ ∃ R, heap.Bisimulation R ∧ R x y)
      ∧ (Equivalence fun x y => heap.same x y = true)
      ∧ (∀ x y, x.equals y = true → heap.same x y = true)
      ∧ ∀ x, heap.Acyclic x → ∀ depth, heap.containers.length < depth →
          ∀ y, heap.plain depth x y = some (heap.same x y) :=
  ⟨fun _ _ => same_iff, equivalence_same heap, fun _ _ => same_of_equals,
    fun _ h _ hdepth => plain_of_acyclic h hdepth⟩

/-- Three arrays that hold themselves, the first at once and the other two by way of each other, and
one that does not. -/
def unrollings : Heap :=
  { arrays := #[#[.array 0], #[.array 2], #[.array 1], #[.null]] }

/-- Cycles of different lengths unroll to the same. -/
theorem same_iff_bisimilar_unrollings :
    unrollings.same (.array 0) (.array 1) = true ∧ unrollings.same (.array 1) (.array 2) = true
      ∧ unrollings.plain 5 (.array 3) (.array 3) = some true := by
  obtain ⟨hbisimilar, hequivalence, hequals, hplain⟩ := same_iff_bisimilar unrollings
  have hitem : ∀ (i : Nat) (v x : Value), #[v][i]? = some x → x = v := by
    intro i v x h
    cases i <;> simp_all
  have hunrolled : ∀ y, y = .array 1 ∨ y = .array 2 → unrollings.same (.array 0) y = true := by
    refine fun y hy => (hbisimilar _ y).mpr
      ⟨fun x y => x = .array 0 ∧ (y = .array 1 ∨ y = .array 2), ?_, rfl, hy⟩
    rintro _ _ ⟨rfl, rfl | rfl⟩
    · exact .array rfl fun i x y hx hy => ⟨hitem i _ x hx, Or.inr (hitem i _ y hy)⟩
    · exact .array rfl fun i x y hx hy => ⟨hitem i _ x hx, Or.inl (hitem i _ y hy)⟩
  have hacyclic : unrollings.Acyclic (.array 3) := by
    have hnull : ∀ y, unrollings.Holds (.array 3) y → y = .null := by
      rintro y ⟨h⟩
      exact hitem _ _ y h
    intro y hy hcycle
    obtain ⟨z, hyz, hzy⟩ := Relation.TransGen.head'_iff.mp hcycle
    -- wherever the cycle begins, it would have to go on from `null`
    rcases hy.cases_head with rfl | ⟨w, hw, hwy⟩
    · rw [hnull z hyz] at hzy
      rcases hzy.cases_head with h | ⟨_, ⟨⟩, _⟩
      cases h
    · rw [hnull w hw] at hwy
      rcases hwy.cases_head with rfl | ⟨_, ⟨⟩, _⟩
      cases hyz
  have hsame : unrollings.same (.array 3) (.array 3) = true := hequals _ _ rfl
  exact ⟨hunrolled _ (Or.inl rfl),
    hequivalence.trans (hequivalence.symm (hunrolled _ (Or.inl rfl))) (hunrolled _ (Or.inr rfl)),
    hsame ▸ hplain _ hacyclic 5 (by decide) _⟩

end Heap

end ClosureMachine
