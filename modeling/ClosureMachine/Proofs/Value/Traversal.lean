import ClosureMachine.Machine.Display
import ClosureMachine.Proofs.Value.Bisimulation
import ClosureMachine.Value.Describe
import Mathlib.Algebra.Group.Nat.Defs
import Mathlib.Data.List.MinMax

/-!
# Walks through containers end

To compare values, or to show them, is to walk through containers that can hold themselves. A walk keeps
one list of the containers that it is in: each one that it enters is put in front of the list, and is
taken off again when the walk comes back from it.

* **`Walk`** is a walk with such a list, **`comparing`** and **`rendering`** are the two of them. They
  call themselves without a bound, so a walk gives an answer only within the depth that it is allowed.
* **`Walk.Returns`** says that a walk is over after so many calls, with the list as it was. Every walk
  restores the list if its parts do (`Returns.bind`, `Returns.visit`), also one that ends at the first
  difference (`returns_allM`).
* **`returns_comparing`**, **`returns_rendering`**: what has not been entered yet gets less with every
  container that is, so a walk goes no deeper than there are containers left, or pairs of them.
* **`walks_return`** puts this together.
-/

namespace ClosureMachine

/-- What a walk through containers keeps: those that it is in, the innermost first, and how many calls
it has taken so far. -/
structure Trail (α : Type) where
  inside : List α
  calls : Nat

/-- A walk through containers, or through pairs of them. It gives no answer if it is not over within the
depth that it was allowed. -/
abbrev Walk (α β : Type) :=
  StateT (Trail α) Option β

namespace Walk

variable {α β γ : Type}

def call : Walk α Unit :=
  modify fun trail => { trail with calls := trail.calls + 1 }

def enter (container : α) : Walk α Unit :=
  modify fun trail => { trail with inside := container :: trail.inside }

def isInside [DecidableEq α] (container : α) : Walk α Bool := do
  return container ∈ (← get).inside

def leave : Walk α Unit :=
  modify fun trail => { trail with inside := trail.inside.tail }

/-- Started inside these containers the walk is over after at most `bound` calls, with that answer, and
is inside the same containers again. -/
def Returns (walk : Walk α β) (inside : List α) (bound : Nat) (answer : β) : Prop :=
  ∀ calls, ∃ count ≤ bound, walk.run ⟨inside, calls⟩ = some (answer, ⟨inside, calls + count⟩)

variable {inside : List α} {walk : Walk α β} {bound bound' : Nat} {answer : β}

theorem returns_pure (inside : List α) (answer : β) :
    Returns (pure answer : Walk α β) inside 0 answer :=
  fun _ => ⟨0, Nat.le_refl 0, rfl⟩

theorem Returns.mono (h : Returns walk inside bound answer) (hbound : bound ≤ bound') :
    Returns walk inside bound' answer := by
  intro calls
  obtain ⟨count, hcount, hrun⟩ := h calls
  exact ⟨count, Nat.le_trans hcount hbound, hrun⟩

theorem Returns.bind {next : β → Walk α γ} {answer' : γ} (h : Returns walk inside bound answer)
    (hnext : Returns (next answer) inside bound' answer') :
    Returns (walk >>= next) inside (bound + bound') answer' := by
  intro calls
  obtain ⟨count, hcount, hrun⟩ := h calls
  obtain ⟨count', hcount', hrun'⟩ := hnext (calls + count)
  refine ⟨count + count', Nat.add_le_add hcount hcount', ?_⟩
  rw [StateT.run_bind, hrun, Option.bind_eq_bind, Option.bind_some, hrun', Nat.add_assoc]

theorem Returns.call (h : Returns walk inside bound answer) :
    Returns (Walk.call >>= fun _ => walk) inside (bound + 1) answer := by
  intro calls
  obtain ⟨count, hcount, hrun⟩ := h (calls + 1)
  refine ⟨count + 1, Nat.add_le_add_right hcount 1, ?_⟩
  show walk.run ⟨inside, calls + 1⟩ = _
  rw [hrun, Nat.add_right_comm, Nat.add_assoc]

theorem returns_isInside [DecidableEq α] (container : α) (inside : List α) :
    Returns (isInside container) inside 0 (decide (container ∈ inside)) :=
  fun _ => ⟨0, Nat.le_refl 0, rfl⟩

/-- What has been entered is left again. -/
theorem Returns.within {container : α} (h : Returns walk (container :: inside) bound answer)
    (finish : β → γ) :
    Returns (do enter container; let answer ← walk; leave; return finish answer) inside bound
      (finish answer) := by
  intro calls
  obtain ⟨count, hcount, hrun⟩ := h calls
  refine ⟨count, hcount, ?_⟩
  show ((walk.run ⟨container :: inside, calls⟩).bind fun (answer, trail) =>
    some (finish answer, { trail with inside := trail.inside.tail })) = _
  rw [hrun]
  rfl

/-- A call for a container: it is passed over, or entered, walked through and left again. -/
theorem Returns.visit [DecidableEq α] {container : α} {passed : Bool → Bool} {again result : γ}
    (finish : β → γ) (hagain : passed (decide (container ∈ inside)) = true → again = result)
    (hnew : passed (decide (container ∈ inside)) = false →
      ∃ answer, Returns walk (container :: inside) bound answer ∧ finish answer = result) :
    Returns (do
        Walk.call
        if passed (← isInside container) then
          return again
        else
          enter container
          let answer ← walk
          leave
          return finish answer)
      inside (bound + 1) result := by
  rw [← Nat.zero_add bound]
  refine Returns.call ((returns_isInside container inside).bind ?_)
  split
  · next hpassed =>
    rw [← hagain hpassed]
    exact (returns_pure inside again).mono (Nat.zero_le _)
  · next hpassed =>
    obtain ⟨answer, hwalk, rfl⟩ := hnew (Bool.eq_false_iff.mpr hpassed)
    exact hwalk.within finish

theorem Returns.map (h : Returns walk inside bound answer) (f : β → γ) :
    Returns (walk >>= fun answer => pure (f answer)) inside bound (f answer) :=
  (h.bind (returns_pure inside (f answer))).mono (Nat.le_refl _)

theorem returns_allM {test : α → Walk β Bool} {p : α → Bool} {inside : List β} {xs : List α}
    (h : ∀ x ∈ xs, Returns (test x) inside bound (p x)) :
    Returns (xs.allM test) inside (xs.length * bound) (xs.all p) := by
  induction xs with
  | nil => exact (returns_pure inside true).mono (Nat.zero_le _)
  | cons x xs ih =>
    obtain ⟨hx, hrest⟩ := List.forall_mem_cons.mp h
    rw [List.allM, List.all_cons, List.length_cons, Nat.add_one_mul, Nat.add_comm]
    refine hx.bind ?_
    -- a difference ends the walk there and then
    cases p x with
    | false => exact (returns_pure inside false).mono (Nat.zero_le _)
    | true => exact ih hrest

theorem returns_mapM {f : α → Walk β γ} {g : α → γ} {inside : List β} {xs : List α}
    (h : ∀ x ∈ xs, Returns (f x) inside bound (g x)) :
    Returns (xs.mapM f) inside (xs.length * bound) (xs.map g) := by
  induction xs with
  | nil => exact (returns_pure inside []).mono (Nat.zero_le _)
  | cons x xs ih =>
    obtain ⟨hx, hrest⟩ := List.forall_mem_cons.mp h
    rw [List.mapM_cons, List.map_cons, List.length_cons, Nat.add_one_mul, Nat.add_comm]
    exact hx.bind ((ih hrest).map (g x :: ·))

end Walk

namespace Heap

/-! ## The two walks -/

/-- The comparison of what two containers hold, by a walk that compares two values. It is over at the
first difference. -/
def comparingItems (heap : Heap) (compare : Value → Value → Walk (Container × Container) Bool) :
    Value → Value → Walk (Container × Container) Bool
  | .array a, .array b =>
    if (heap.array a).size = (heap.array b).size then
      ((heap.array a).toList.zip (heap.array b).toList).allM fun (x, y) => compare x y
    else
      return false
  | .hash a, .hash b =>
    if (heap.hash a).size = (heap.hash b).size then
      (heap.hash a).entries.allM fun (key, x) =>
        match (heap.hash b).find? key with
        | some y => compare x y
        | none => return false
    else
      return false
  | _, _ => return false

/-- The comparison as a walk that puts each pair of containers in front of those that it is in, and
takes it off again. -/
def comparing (heap : Heap) : Nat → Value → Value → Walk (Container × Container) Bool
  | 0, _, _ => failure
  | depth + 1, x, y => do
    Walk.call
    match pair? x y with
    | none => return x.equals y
    | some pair =>
      if pair.1 == pair.2 || (← Walk.isInside pair) then
        return true
      else
        Walk.enter pair
        let equal ← heap.comparingItems (heap.comparing depth) x y
        Walk.leave
        return equal

/-- The text of a value as a walk that puts each container in front of those that it is in, and takes it
off again. The keys of a hash are values on the way. -/
def rendering (heap : Heap) : Nat → Value → Walk Container (List Char)
  | 0, _ => failure
  | depth + 1, v => do
    Walk.call
    match v with
    | .array id =>
      if ← Walk.isInside (.array id) then
        return "[...]".toList
      else
        Walk.enter (.array id)
        let items ← (heap.array id).toList.mapM (heap.rendering depth)
        Walk.leave
        return '[' :: separated items ++ [']']
    | .hash id =>
      if ← Walk.isInside (.hash id) then
        return "\x7b...\x7d".toList
      else
        Walk.enter (.hash id)
        let items ← (heap.hash id).entries.mapM fun (key, v) => do
          let key ← heap.rendering depth key.toValue
          let v ← heap.rendering depth v
          return key ++ ": ".toList ++ v
        Walk.leave
        return '\x7b' :: separated items ++ ['\x7d']
    | v => return heap.render [] v

/-! ## How far they go -/

/-- The most items that a container holds, the keys of a hash counted as well. -/
def breadth (heap : Heap) : Nat :=
  (heap.arrays.toList.map Array.size ++ heap.hashes.toList.map (2 * Dict.size ·)).foldr max 0

theorem size_array_le (heap : Heap) (id : Nat) : (heap.array id).size ≤ heap.breadth := by
  unfold array
  cases h : heap.arrays[id]? with
  | none => exact Nat.zero_le _
  | some elements =>
    have hmem : elements ∈ heap.arrays.toList := Array.mem_toList_iff.mpr (Array.mem_of_getElem? h)
    exact List.le_max_of_le' 0 (List.mem_append_left _ (List.mem_map_of_mem hmem)) (Nat.le_refl _)

theorem size_hash_le (heap : Heap) (id : Nat) : 2 * (heap.hash id).size ≤ heap.breadth := by
  unfold hash
  cases h : heap.hashes[id]? with
  | none => exact Nat.zero_le _
  | some entries =>
    have hmem : entries ∈ heap.hashes.toList := Array.mem_toList_iff.mpr (Array.mem_of_getElem? h)
    exact List.le_max_of_le' 0 (List.mem_append_right _ (List.mem_map_of_mem hmem)) (Nat.le_refl _)

variable {heap : Heap}

/-- The calls for all items of a container, and the one for the container. -/
theorem calls_le (heap : Heap) (rest : Nat) :
    heap.breadth * (heap.breadth + 1) ^ rest + 1 ≤ (heap.breadth + 1) ^ (rest + 1) := by
  have hpos : 0 < (heap.breadth + 1) ^ rest := Nat.pow_pos (Nat.succ_pos _)
  rw [Nat.pow_succ', Nat.add_one_mul]
  exact Nat.add_le_add_left hpos _

section Comparing

variable {inside : List (Container × Container)} {x y : Value} {pair : Container × Container}

theorem sameWhile_of_pair?_eq_none (hpair : pair? x y = none) :
    heap.sameWhile inside x y = x.equals y := by
  have hassumed : ¬Assumed inside x y := by simp [Assumed, hpair]
  rcases Value.containers_cases x y with ⟨a, b, rfl, rfl⟩ | ⟨a, b, rfl, rfl⟩ | ⟨harrays, hhashes⟩
  · cases hpair
  · cases hpair
  · rw [Bool.eq_iff_iff, sameWhile_iff, or_iff_right hassumed, matches_other_iff harrays hhashes]

/-- Two containers that both hold something are one of finitely many pairs. -/
theorem pair_mem_containerPairs {x' y' : Value} (hpair : pair? x y = some pair)
    (hx : heap.Holds x x') (hy : heap.Holds y y') : pair ∈ heap.containerPairs := by
  cases hx with
  | array hx =>
    cases hy with
    | array hy =>
      cases hpair
      exact mem_containerPairs (mem_containers_of_array hx) (mem_containers_of_array hy)
    | hash => cases hpair
  | hash hx =>
    cases hy with
    | array => cases hpair
    | hash hy =>
      cases hpair
      exact mem_containerPairs (mem_containers_of_hash hx) (mem_containers_of_hash hy)

/-- The items of two containers are compared with as many calls as these take, and the answer is
whether the containers match. -/
theorem returns_comparingItems {compare : Value → Value → Walk (Container × Container) Bool}
    {same : Value → Value → Bool} {bound : Nat} {answer : Bool} (hpair : pair? x y = some pair)
    (hitems : ∀ x' y', heap.Holds x x' → heap.Holds y y' →
      (compare x' y').Returns inside bound (same x' y'))
    (hanswer : answer = true ↔ heap.Matches (fun x y => same x y = true) x y) :
    (heap.comparingItems compare x y).Returns inside (heap.breadth * bound) answer := by
  rcases Value.containers_cases x y with ⟨a, b, rfl, rfl⟩ | ⟨a, b, rfl, rfl⟩ | ⟨harrays, hhashes⟩
  · rw [matches_array_iff, ← all_zip_iff] at hanswer
    rw [comparingItems]
    split
    · next hsize =>
      rw [Bool.eq_iff_iff.mpr (hanswer.trans (and_iff_right hsize))]
      refine (Walk.returns_allM ?_).mono (Nat.mul_le_mul_right bound ?_)
      · rintro ⟨x', y'⟩ hmem
        obtain ⟨hx, hy⟩ := List.of_mem_zip hmem
        exact hitems x' y' (holds_of_mem_array hx) (holds_of_mem_array hy)
      · rw [List.length_zip]
        exact Nat.le_trans (Nat.min_le_left _ _) (heap.size_array_le a)
    · next hsize =>
      rw [Bool.eq_false_iff.mpr fun h => hsize (hanswer.mp h).1]
      exact (Walk.returns_pure inside false).mono (Nat.zero_le _)
  · rw [matches_hash_iff, ← Dict.lookups_iff] at hanswer
    rw [comparingItems]
    split
    · next hsize =>
      let test := fun (key, x) =>
        match (heap.hash b).find? key with
        | some y => same x y
        | none => false
      have hall : answer = (heap.hash a).entries.all test := by
        rw [Bool.eq_iff_iff, hanswer, and_iff_right hsize]
        refine (Dict.all_entries_iff fun key x => ?_).symm
        simp only [test]
        cases (heap.hash b).find? key <;> simp
      rw [hall]
      refine (Walk.returns_allM ?_).mono (Nat.mul_le_mul_right bound ?_)
      · rintro ⟨key, x'⟩ hmem
        simp only [test]
        cases hy : (heap.hash b).find? key with
        | some y' => exact hitems x' y' (holds_of_mem_hash hmem) (.hash hy)
        | none => exact (Walk.returns_pure inside false).mono (Nat.zero_le _)
      · exact Nat.le_trans (Nat.le_mul_of_pos_left _ (by decide)) (heap.size_hash_le a)
    · next hsize =>
      rw [Bool.eq_false_iff.mpr fun h => hsize (hanswer.mp h).1]
      exact (Walk.returns_pure inside false).mono (Nat.zero_le _)
  · rw [pair?_of_not harrays hhashes] at hpair
    cases hpair

/-- **The comparison comes back** from wherever it is started. -/
theorem returns_comparing {depth : Nat}
    (hdepth : left heap.containerPairs inside < depth) (x y : Value) :
    (heap.comparing depth x y).Returns inside
      ((heap.breadth + 1) ^ (left heap.containerPairs inside + 1)) (heap.sameWhile inside x y) := by
  induction depth generalizing inside x y with
  | zero => omega
  | succ depth ih =>
    unfold comparing
    cases hpair : pair? x y with
    | none =>
      rw [sameWhile_of_pair?_eq_none hpair]
      exact (Walk.returns_pure inside (x.equals y)).call.mono (Nat.pow_pos (Nat.succ_pos _))
    | some pair =>
      have hassumed : Assumed inside x y ↔ pair.1 = pair.2 ∨ pair ∈ inside := by
        simp [Assumed, hpair]
      have hopened : opened inside x y = pair :: inside := by
        rw [opened, hpair]
        rfl
      have hanswer : heap.sameWhile inside x y = true ↔ _ := sameWhile_iff
      rw [hassumed, hopened] at hanswer
      refine (Walk.Returns.visit id (fun hold => ?_) fun hnew => ?_).mono (heap.calls_le _)
      · exact (hanswer.mpr (Or.inl (by simpa using hold))).symm
      · have hnew : ¬(pair.1 = pair.2 ∨ pair ∈ inside) := by simpa using hnew
        rw [or_iff_right hnew] at hanswer
        refine ⟨_, returns_comparingItems hpair (fun x' y' hx hy => ?_) hanswer, rfl⟩
        -- the pair is a new one, so fewer are left for the items
        have hless := left_cons_lt (pair_mem_containerPairs hpair hx hy) fun h => hnew (Or.inr h)
        exact (ih (by omega) x' y').mono (Nat.pow_le_pow_right (Nat.succ_pos _) hless)

end Comparing

section Rendering

variable {inside : List Container}

/-- **So does the rendering.** -/
theorem returns_rendering {depth : Nat} (hdepth : left heap.containers inside < depth) (v : Value) :
    (heap.rendering depth v).Returns inside
      ((heap.breadth + 1) ^ (left heap.containers inside + 1)) (heap.render inside v) := by
  induction depth generalizing inside v with
  | zero => omega
  | succ depth ih =>
    have hcalls := heap.calls_le (left heap.containers inside)
    have hone : 1 ≤ (heap.breadth + 1) ^ (left heap.containers inside + 1) := Nat.pow_pos (Nat.succ_pos _)
    have hitem : ∀ container ∈ heap.containers, container ∉ inside → ∀ v,
        (heap.rendering depth v).Returns (container :: inside)
          ((heap.breadth + 1) ^ left heap.containers inside) (heap.render (container :: inside) v) := by
      intro container hmem hnew v
      have hless := left_cons_lt hmem hnew
      exact (ih (by omega) v).mono (Nat.pow_le_pow_right (Nat.succ_pos _) hless)
    unfold rendering
    cases v with
    | array id =>
      rw [render_array]
      refine (Walk.Returns.visit (fun items => '[' :: separated items ++ [']'])
        (fun hold => ?_) fun hnew => ?_).mono hcalls
      · rw [if_pos (of_decide_eq_true hold)]
      · have hnew := of_decide_eq_false hnew
        rw [if_neg hnew]
        refine ⟨_, (Walk.returns_mapM fun v hv => ?_).mono (Nat.mul_le_mul_right _ ?_), rfl⟩
        · exact hitem _ (array_mem_containers fun hempty => by simp [hempty] at hv) hnew v
        · exact heap.size_array_le id
    | hash id =>
      rw [render_hash]
      refine (Walk.Returns.visit (fun items => '\x7b' :: separated items ++ ['\x7d'])
        (fun hold => ?_) fun hnew => ?_).mono hcalls
      · rw [if_pos (of_decide_eq_true hold)]
      · have hnew := of_decide_eq_false hnew
        have hsize : (heap.hash id).entries.length
            * (2 * (heap.breadth + 1) ^ left heap.containers inside)
              ≤ heap.breadth * (heap.breadth + 1) ^ left heap.containers inside := by
          rw [← Nat.mul_assoc, Nat.mul_comm _ 2]
          exact Nat.mul_le_mul_right _ (heap.size_hash_le id)
        rw [if_neg hnew]
        refine ⟨_, (Walk.returns_mapM fun entry hentry => ?_).mono hsize, rfl⟩
        have hmem := hash_mem_containers (List.ne_nil_of_mem hentry)
        have hkey := hitem _ hmem hnew entry.1.toValue
        rw [render_key] at hkey
        -- the key takes calls of its own
        rw [Nat.two_mul]
        exact hkey.bind ((hitem _ hmem hnew entry.2).map _)
    | _ =>
      simp only [render]
      exact (Walk.returns_pure inside _).call.mono hone

end Rendering

/-! ## What is shown -/

/-- The text of a value by a walk that starts outside all containers. -/
def displaying (heap : Heap) (depth : Nat) : Value → Option String
  | .string text => some text
  | v => String.ofList <$> (heap.rendering depth v).run' ⟨[], 0⟩

/-- The description of a value, with what a container holds shown by such a walk. -/
def describing (heap : Heap) (depth : Nat) : Value → Option String
  | .array id => do
    let text ← (heap.rendering depth (.array id)).run' ⟨[], 0⟩
    return s!"Array({String.ofList text})"
  | .hash id => do
    let text ← (heap.rendering depth (.hash id)).run' ⟨[], 0⟩
    return s!"Hash({String.ofList text})"
  | v => some (heap.describe v)

theorem run'_rendering {depth : Nat} (hdepth : heap.containers.length < depth) (v : Value) :
    (heap.rendering depth v).run' ⟨[], 0⟩ = some (heap.render [] v) := by
  have hleft : left heap.containers [] < depth := Nat.lt_of_le_of_lt List.countP_le_length hdepth
  obtain ⟨count, -, hrun⟩ := returns_rendering hleft v 0
  rw [StateT.run'_eq, hrun]
  rfl

theorem displaying_eq {depth : Nat} (hdepth : heap.containers.length < depth) (v : Value) :
    heap.displaying depth v = some (heap.display v) := by
  cases v with
  | string text => rfl
  | _ =>
    rw [displaying, run'_rendering hdepth]
    · rfl
    · exact fun text h => by cases h

theorem describing_eq {depth : Nat} (hdepth : heap.containers.length < depth) (v : Value) :
    heap.describing depth v = some (heap.describe v) := by
  unfold describing
  split
  · rw [run'_rendering hdepth]
    rfl
  · rw [run'_rendering hdepth]
    rfl
  · rfl

end Heap

/-- The picture of a machine, with all values in it shown by such walks. -/
def Machine.displaying (draw : Typesetter) (depth : Nat) (m : Machine) :
    Option (Except String String) := do
  let lastPopped ← m.heap.displaying depth m.lastPopped
  let stack ← m.stack.toList.mapM (m.heap.displaying depth)
  return View.picture draw ⟨lastPopped, stack, m.frames.reverse.map Frame.display⟩

theorem Machine.displaying_eq {depth : Nat} {m : Machine} (draw : Typesetter)
    (hdepth : m.heap.containers.length < depth) :
    m.displaying draw depth = some (m.view.picture draw) := by
  unfold displaying
  have hslots : m.heap.displaying depth = fun v => pure (m.heap.display v) :=
    funext fun v => Heap.displaying_eq hdepth v
  rw [hslots, List.mapM_pure]
  rfl

namespace Heap

/-- **Walks through containers end**, whatever holds what, and hand back the list of containers that they
were started with. If no container has more than `heap.breadth` items and so many containers, or pairs,
are left that are not in the list, then the walk goes no deeper than those and takes at most the number
of calls that is given here; a difference ends it sooner. Nothing else is shown of values by themselves,
in descriptions and in the picture of a machine, whoever draws it. -/
theorem walks_return (heap : Heap) :
    (∀ inside x y depth, left heap.containerPairs inside < depth →
      (heap.comparing depth x y).Returns inside
        ((heap.breadth + 1) ^ (left heap.containerPairs inside + 1)) (heap.sameWhile inside x y))
      ∧ (∀ inside v depth, left heap.containers inside < depth →
        (heap.rendering depth v).Returns inside
          ((heap.breadth + 1) ^ (left heap.containers inside + 1)) (heap.render inside v))
      ∧ (∀ v depth, heap.containers.length < depth →
        heap.displaying depth v = some (heap.display v)
          ∧ heap.describing depth v = some (heap.describe v))
      ∧ ∀ draw (m : Machine) depth, m.heap.containers.length < depth →
        m.displaying draw depth = some (m.view.picture draw) :=
  ⟨fun _ x y _ h => returns_comparing h x y, fun _ v _ h => returns_rendering h v,
    fun v _ h => ⟨displaying_eq h v, describing_eq h v⟩, fun draw _ _ h => Machine.displaying_eq draw h⟩

/-- A comparison that ends at the first difference, started in the middle of another one; and an array
that holds another one in which it stands itself. -/
theorem walks_return_unrollings :
    (unrollings.comparing 16 (.array 0) (.array 3)).Returns [(.array 3, .array 0)] 65536 false
      ∧ (unrollings.rendering 4 (.array 1)).Returns [.array 2] 16 "[[...]]".toList
      ∧ unrollings.describing 5 (.array 1) = some (unrollings.describe (.array 1))
      ∧ (Machine.load { heap := unrollings } {} ⟨#[], #[]⟩).displaying Grid.draw 5
        = some ((Machine.load { heap := unrollings } {} ⟨#[], #[]⟩).view.picture Grid.draw) := by
  obtain ⟨hcomparing, hrendering, hshown, hpicture⟩ := walks_return unrollings
  have hdifferent : unrollings.sameWhile [(.array 3, .array 0)] (.array 0) (.array 3) = false := by
    have hitems : unrollings.array 0 = #[.array 0] ∧ unrollings.array 3 = #[.null] := ⟨rfl, rfl⟩
    have hitem : unrollings.sameWhile [(.array 0, .array 3), (.array 3, .array 0)] (.array 0) .null
        = (Value.array 0).equals .null := sameWhile_of_pair?_eq_none rfl
    rw [sameWhile_array, hitems.1, hitems.2]
    simp [hitem, Value.equals]
  have htext : unrollings.render [.array 2] (.array 1) = "[[...]]".toList := by
    have hitems : unrollings.array 1 = #[.array 2] := rfl
    rw [render_array, hitems]
    simp [render_array, separated]
  have hleft : left unrollings.containerPairs [(.array 3, .array 0)] = 15
      ∧ left unrollings.containers [.array 2] = 3 ∧ unrollings.breadth = 1 := by decide
  have hfour : unrollings.containers.length < 5 := by decide
  refine ⟨?_, ?_, (hshown (.array 1) 5 hfour).2, hpicture _ _ 5 (by decide)⟩
  · have h := hcomparing [(.array 3, .array 0)] (.array 0) (.array 3) 16 (by rw [hleft.1]; decide)
    rwa [hdifferent, hleft.1, hleft.2.2] at h
  · have h := hrendering [.array 2] (.array 1) 4 (by rw [hleft.2.1]; decide)
    rwa [htext, hleft.2.1, hleft.2.2] at h

end Heap

end ClosureMachine
