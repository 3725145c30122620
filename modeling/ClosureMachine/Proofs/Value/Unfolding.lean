import ClosureMachine.Proofs.Value.Bisimulation
import ClosureMachine.Proofs.Value.Tree
import Mathlib.Data.List.Forall2

/-!
# The text of data is unambiguous

Data are integers, booleans, `null` and strings, and arrays and hashes of data, shared or not, none of
which holds itself. They unfold to trees, and their text is that of the tree, so that it says all there
is to say about them but for what is shared.

* **`IsData`** are values of this kind, and **`Unfolds`** is the relation between a value and its tree.
* **`IsData.unfolds`**: there is such a tree, because no container is met twice on the way into a value.
* **`render_of_unfolds`**: for the same reason no container is cut short in the text.
* **`bisimulation_unfolds`**: values that unfold to one tree are the same as programs compare them.
* **`render_unambiguous`** puts this together with what can be read off a tree's text.
-/

namespace ClosureMachine

def Kind.isData : Kind → Bool
  | function | closure | builtin | module => false
  | _ => true

section Forall₂

variable {α β γ : Type} {R : α → β → Prop}

theorem exists_forall₂ {xs : List α} (h : ∀ x ∈ xs, ∃ y, R x y) : ∃ ys, List.Forall₂ R xs ys := by
  induction xs with
  | nil => exact ⟨[], .nil⟩
  | cons x xs ih =>
    obtain ⟨⟨y, hxy⟩, hrest⟩ := List.forall_mem_cons.mp h
    obtain ⟨ys, hys⟩ := ih hrest
    exact ⟨y :: ys, .cons hxy hys⟩

theorem map_eq_of_forall₂ {xs : List α} {ys : List β} {f : α → γ} {g : β → γ}
    (h : List.Forall₂ R xs ys) (hfg : ∀ x ∈ xs, ∀ y, R x y → f x = g y) : xs.map f = ys.map g := by
  induction h with
  | nil => rfl
  | cons hxy _ ih =>
    obtain ⟨hx, hrest⟩ := List.forall_mem_cons.mp hfg
    rw [List.map_cons, List.map_cons, hx _ hxy, ih hrest]

/-- Entries correspond if they have the same keys in the same order, and the values correspond. -/
theorem forall₂_entries_iff {entries : List (γ × α)} {entries' : List (γ × β)} :
    List.Forall₂ (fun x y => x.1 = y.1 ∧ R x.2 y.2) entries entries'
      ↔ entries.map Prod.fst = entries'.map Prod.fst
        ∧ List.Forall₂ R (entries.map Prod.snd) (entries'.map Prod.snd) := by
  induction entries generalizing entries' with
  | nil => cases entries' <;> simp
  | cons x entries ih =>
    cases entries' with
    | nil => simp
    | cons y entries' =>
      simp only [List.forall₂_cons, List.map_cons, List.cons.injEq, ih]
      exact and_and_and_comm

theorem forall₂_of_common {S : γ → β → Prop} {xs : List α} {ys : List γ} {zs : List β}
    (h : List.Forall₂ R xs zs) (h' : List.Forall₂ S ys zs) :
    List.Forall₂ (fun x y => ∃ z, R x z ∧ S y z) xs ys := by
  induction h generalizing ys with
  | nil =>
    cases h'
    exact .nil
  | cons hxz _ ih =>
    cases h' with
    | cons hyz hrest => exact .cons ⟨_, hxz, hyz⟩ (ih hrest)

theorem exists_of_mem_forall₂ {xs : List α} {ys : List β} {x : α} (h : List.Forall₂ R xs ys)
    (hx : x ∈ xs) : ∃ y ∈ ys, R x y := by
  induction h with
  | nil => cases hx
  | cons hxy _ ih =>
    rcases List.mem_cons.mp hx with rfl | hx
    · exact ⟨_, List.mem_cons_self, hxy⟩
    · obtain ⟨y, hy, hxy⟩ := ih hx
      exact ⟨y, List.mem_cons_of_mem _ hy, hxy⟩

end Forall₂

namespace Heap

/-- Integers, booleans, `null`, strings, and arrays and hashes of such values, without cycles. -/
structure IsData (heap : Heap) (x : Value) : Prop where
  kinds : ∀ y, Relation.ReflTransGen heap.Holds x y → y.kind.isData = true
  acyclic : heap.Acyclic x

/-- The value looks like this tree if all containers in it are written out. -/
inductive Unfolds (heap : Heap) : Value → Tree → Prop
  | scalar (key : Key) : Unfolds heap key.toValue (.scalar key)
  | null : Unfolds heap .null .null
  | array {id : Nat} {items : List Tree}
      (unfolds : List.Forall₂ (Unfolds heap) (heap.array id).toList items) :
      Unfolds heap (.array id) (.array items)
  /-- The entries are in the same order. -/
  | hash {id : Nat} {entries : List (Key × Tree)}
      (keys : (heap.hash id).entries.map Prod.fst = entries.map Prod.fst)
      (unfolds : List.Forall₂ (Unfolds heap) ((heap.hash id).entries.map Prod.snd)
        (entries.map Prod.snd)) :
      Unfolds heap (.hash id) (.hash entries)

variable {heap : Heap} {x y : Value} {tree tree' : Tree}

theorem IsData.item (h : heap.IsData x) (hxy : heap.Holds x y) : heap.IsData y where
  kinds z hyz := h.kinds z (.head hxy hyz)
  acyclic := h.acyclic.item hxy

/-! ## Data unfold -/

theorem IsData.unfolds (h : heap.IsData x) : ∃ tree, heap.Unfolds x tree := by
  let P : List Container → Value → Prop := fun _ x => heap.IsData x → ∃ tree, heap.Unfolds x tree
  have hunfolds : P [] x := by
    refine h.acyclic.induct (fun path x _ _ ih hx => ?_) [] (heap.leadInto_nil x)
    have hkind := hx.kinds x .refl
    cases x with
    | integer n => exact ⟨_, .scalar (.integer n)⟩
    | boolean b => exact ⟨_, .scalar (.boolean b)⟩
    | null => exact ⟨_, .null⟩
    | string text => exact ⟨_, .scalar (.string text)⟩
    | array id =>
      have hitems : ∀ y ∈ (heap.array id).toList, ∃ tree, heap.Unfolds y tree := fun y hy =>
        have hholds := holds_of_mem_array hy
        ih (.array id) y rfl hholds (hx.item hholds)
      obtain ⟨items, hunfolds⟩ := exists_forall₂ hitems
      exact ⟨_, .array hunfolds⟩
    | hash id =>
      have hentries : ∀ entry ∈ (heap.hash id).entries,
          ∃ entry' : Key × Tree, entry.1 = entry'.1 ∧ heap.Unfolds entry.2 entry'.2 := by
        intro entry hentry
        have hholds := holds_of_mem_hash hentry
        obtain ⟨tree, htree⟩ := ih (.hash id) entry.2 rfl hholds (hx.item hholds)
        exact ⟨(entry.1, tree), rfl, htree⟩
      obtain ⟨entries, hunfolds⟩ := exists_forall₂ hentries
      obtain ⟨hkeys, hvalues⟩ := forall₂_entries_iff.mp hunfolds
      exact ⟨_, .hash hkeys hvalues⟩
    | _ => cases hkind
  exact hunfolds h

/-- The text of a value without cycles is that of its tree: inside the containers that lead into it no
container is cut short. -/
theorem render_of_unfolds (h : heap.Acyclic x) (hunfolds : heap.Unfolds x tree) :
    heap.render [] x = tree.text := by
  let P := fun path x => ∀ tree, heap.Unfolds x tree → heap.render path x = tree.text
  have hrender : P [] x := by
    refine h.induct (fun path x h hpath ih tree hunfolds => ?_) [] (heap.leadInto_nil x)
    cases hunfolds with
    | scalar key => rw [render_key, Tree.text_scalar]
    | null => rw [Tree.text_null, render]
    | @array id items hunfolds =>
      have hitems : (heap.array id).toList.map (heap.render (.array id :: path)) = items.map Tree.text :=
        map_eq_of_forall₂ hunfolds fun y hy => ih (.array id) y rfl (holds_of_mem_array hy)
      rw [render_array, if_neg (hpath.not_mem h rfl), hitems, Tree.text_array]
    | @hash id entries hkeys hunfolds =>
      have hentries := forall₂_entries_iff.mpr ⟨hkeys, hunfolds⟩
      rw [render_hash, if_neg (hpath.not_mem h rfl), Tree.text_hash]
      rw [map_eq_of_forall₂ hentries]
      rintro ⟨key, y⟩ hentry entry ⟨rfl, hy⟩
      rw [Tree.entryText, ← ih (.hash id) y rfl (holds_of_mem_hash hentry) _ hy]
  exact hrender tree hunfolds

/-! ## Values with one tree are the same -/

theorem bisimulation_unfolds (heap : Heap) :
    heap.Bisimulation fun x y => ∃ tree, heap.Unfolds x tree ∧ heap.Unfolds y tree := by
  rintro x y ⟨tree, hx, hy⟩
  cases hx with
  | scalar key =>
    cases hy
    exact .other (by cases key <;> simp [Key.toValue, Value.kind])
      (by cases key <;> simp [Key.toValue, Value.kind]) (Value.equals_refl _)
  | null =>
    cases hy
    exact .other (by simp [Value.kind]) (by simp [Value.kind]) (Value.equals_refl _)
  | array hx =>
    cases hy with
    | array hy =>
      have hitems := forall₂_of_common hx hy
      refine .array (by simpa using hitems.length_eq) fun i x y hx hy => ?_
      obtain ⟨hi, rfl⟩ := Array.getElem?_eq_some_iff.mp hx
      obtain ⟨hj, rfl⟩ := Array.getElem?_eq_some_iff.mp hy
      exact hitems.get hi hj
  | hash hkeys hx =>
    cases hy with
    | @hash b entries hkeys' hy =>
      have hentries := forall₂_entries_iff.mpr
        ⟨hkeys.trans hkeys'.symm, forall₂_of_common hx hy⟩
      refine .hash (fun key => by rw [Dict.keys, Dict.keys, hkeys, hkeys']) fun key x y hx hy => ?_
      obtain ⟨⟨key', y'⟩, hmem, rfl, htree⟩ :=
        exists_of_mem_forall₂ hentries (Dict.find?_eq_some_iff.mp hx)
      have hy' := Dict.find?_eq_some_iff.mpr hmem
      rwa [Option.some.inj (hy.symm.trans hy')]

/-! ## What the text says -/

theorem Unfolds.unique (h : heap.Acyclic x) (hunfolds : heap.Unfolds x tree)
    (hunfolds' : heap.Unfolds x tree') : tree' = tree :=
  Tree.text_inj ((render_of_unfolds h hunfolds').symm.trans (render_of_unfolds h hunfolds))

/-- **The text of data is unambiguous.** It is the same for two values exactly if these unfold to one
tree, with the entries of hashes in the same order, and then programs that compare them find them to be
the same. For it is the text of the one tree that a value unfolds to, with all containers written out,
however often they occur. -/
theorem render_unambiguous (hx : heap.IsData x) (hy : heap.IsData y) :
    (heap.render [] x = heap.render [] y ↔ ∃ tree, heap.Unfolds x tree ∧ heap.Unfolds y tree)
      ∧ (heap.render [] x = heap.render [] y → heap.same x y = true)
      ∧ ∃ tree, heap.render [] x = tree.text ∧ ∀ tree', heap.Unfolds x tree' ↔ tree' = tree := by
  obtain ⟨tree, hunfolds⟩ := hx.unfolds
  obtain ⟨tree', hunfolds'⟩ := hy.unfolds
  have htext := render_of_unfolds hx.acyclic hunfolds
  have hiff : heap.render [] x = heap.render [] y
      ↔ ∃ tree, heap.Unfolds x tree ∧ heap.Unfolds y tree := by
    constructor
    · intro h
      rw [htext, render_of_unfolds hy.acyclic hunfolds'] at h
      exact ⟨tree, hunfolds, Tree.text_inj h ▸ hunfolds'⟩
    · rintro ⟨common, hcommon, hcommon'⟩
      rw [render_of_unfolds hx.acyclic hcommon, render_of_unfolds hy.acyclic hcommon']
  refine ⟨hiff, fun h => same_iff.mpr ⟨_, heap.bisimulation_unfolds, hiff.mp h⟩, tree, htext, ?_⟩
  exact fun tree' => ⟨hunfolds.unique hx.acyclic, fun h => h ▸ hunfolds⟩

/-- Three hashes of two entries. The first one has the same array for both values, the second one that
array and another with the same string in it, and the third one the entries of the second the other way
around. -/
def twice : Heap where
  arrays := #[#[.string "[...]"], #[.string "[...]"]]
  hashes := #[
    .ofList [(.string "a", .array 0), (.integer 1, .array 0)],
    .ofList [(.string "a", .array 0), (.integer 1, .array 1)],
    .ofList [(.integer 1, .array 1), (.string "a", .array 0)]]

theorem isData_twice (id : Nat) : twice.IsData (.hash id) := by
  let rank : Value → Nat := fun x => if x.kind = .hash then 2 else if x.kind = .array then 1 else 0
  have harrays : ∀ id < 2, ∀ y ∈ (twice.array id).toList,
      y.kind.isData = true ∧ rank y < rank (.array id) := by decide
  have hhashes : ∀ id < 3, ∀ entry ∈ (twice.hash id).entries,
      entry.2.kind.isData = true ∧ rank entry.2 < rank (.hash id) := by decide
  have hholds : ∀ x y, twice.Holds x y → y.kind.isData = true ∧ rank y < rank x := by
    rintro _ y (@⟨id, i, _, h⟩ | @⟨id, key, _, h⟩)
    · have hid : id < 2 := by
        by_contra hid
        simp [array, twice, show ¬id < 2 from hid] at h
      exact harrays id hid y (Array.mem_toList_iff.mpr (Array.mem_of_getElem? h))
    · have hid : id < 3 := by
        by_contra hid
        simp [hash, twice, show ¬id < 3 from hid, Dict.find?, Dict.lookup] at h
      exact hhashes id hid (key, y) (Dict.find?_eq_some_iff.mp h)
  constructor
  · intro y hy
    cases hy with
    | refl => rfl
    | tail _ h => exact (hholds _ _ h).1
  · intro y _ hcycle
    have hrank : ∀ {x z}, Relation.TransGen twice.Holds x z → rank z < rank x := by
      intro x z h
      induction h with
      | single h => exact (hholds _ _ h).2
      | tail _ h ih => exact Nat.lt_trans (hholds _ _ h).2 ih
    exact Nat.lt_irrefl _ (hrank hcycle)

/-- What is shared does not show, and the order of the entries does. -/
theorem render_unambiguous_twice :
    twice.render [] (.hash 0) = twice.render [] (.hash 1)
      ∧ twice.same (.hash 0) (.hash 1) = true
      ∧ twice.render [] (.hash 0) = "\x7b\"a\": [\"[...]\"], 1: [\"[...]\"]\x7d".toList
      ∧ twice.render [] (.hash 1) ≠ twice.render [] (.hash 2) := by
  let item : Tree := .array [.scalar (.string "[...]")]
  have hitem : twice.Unfolds (.array 0) item ∧ twice.Unfolds (.array 1) item :=
    ⟨.array (.cons (.scalar (.string _)) .nil), .array (.cons (.scalar (.string _)) .nil)⟩
  let entries : List (Key × Tree) := [(.string "a", item), (.integer 1, item)]
  have hshared : twice.Unfolds (.hash 0) (.hash entries) :=
    .hash rfl (.cons hitem.1 (.cons hitem.1 .nil))
  have hapart : twice.Unfolds (.hash 1) (.hash entries) :=
    .hash rfl (.cons hitem.1 (.cons hitem.2 .nil))
  have hturned : twice.Unfolds (.hash 2) (.hash entries.reverse) :=
    .hash rfl (.cons hitem.2 (.cons hitem.1 .nil))
  obtain ⟨hiff, hsame, tree, htext, hunique⟩ := render_unambiguous (isData_twice 0) (isData_twice 1)
  have hrender := hiff.mpr ⟨_, hshared, hapart⟩
  refine ⟨hrender, hsame hrender, ?_, fun h => ?_⟩
  · rw [htext, ← (hunique _).mp hshared]
    simp only [entries, item, Tree.text_hash, Tree.text_array, Tree.text_scalar, Tree.entryText,
      List.map_cons, List.map_nil]
    rfl
  · obtain ⟨tree, hone, hother⟩ :=
      (render_unambiguous (isData_twice 1) (isData_twice 2)).1.mp h
    have htrees := (hapart.unique (isData_twice 1).acyclic hone).symm.trans
      (hturned.unique (isData_twice 2).acyclic hother)
    simp [entries] at htrees

end Heap

end ClosureMachine
