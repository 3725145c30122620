import ClosureMachine.Proofs.Text.Quoting
import ClosureMachine.Value.Render

/-!
# Values written out

Data without cycles is a tree: a scalar, `null`, or a container of trees. The text of a tree writes out
everything that is in it, so it grows with every place that a shared container has in it.

* **`Tree.text`** is the text, and **`Tree.kind`** what is to be seen of a tree in the first character
  of its text (`Tree.exists_first`).
* **`separated_cancel`** tells the items of a container apart: each ends where it ends, and a comma or
  the closing bracket is next.
* **`Tree.text_cancel`** reads a tree off its text, up to where its text ends and something else begins.
-/

namespace ClosureMachine

open Decimal (Ends)

/-- What a value looks like when all containers in it are written out: nothing is shared, and nothing
refers to a heap. -/
inductive Tree where
  /-- An integer, a boolean or a string, all of which can be keys. -/
  | scalar (key : Key)
  | null
  | array (items : List Tree)
  | hash (entries : List (Key × Tree))

/-! ## The kind of a text -/

/-- The kind of value whose text begins with this character. -/
def Kind.ofFirst? (c : Char) : Option Kind :=
  if c.isDigit then
    some .integer
  else
    match c with
    | '-' => some .integer
    | 't' | 'f' => some .boolean
    | 'n' => some .null
    | '\"' => some .string
    | '[' => some .array
    | '\x7b' => some .hash
    | _ => none

/-- This text begins the text of a value of that kind. -/
def Kind.Begins (kind : Kind) (text : List Char) : Prop :=
  ∃ c rest, text = c :: rest ∧ Kind.ofFirst? c = some kind

theorem Kind.Begins.append {kind : Kind} {text : List Char} (h : kind.Begins text) (rest : List Char) :
    kind.Begins (text ++ rest) := by
  obtain ⟨c, behind, rfl, hc⟩ := h
  exact ⟨c, behind ++ rest, rfl, hc⟩

/-- No text of a value begins with a character that begins none. -/
theorem Kind.Begins.ne_cons {kind : Kind} {text : List Char} {c : Char} (h : kind.Begins text)
    (hc : Kind.ofFirst? c = none) (r s : List Char) : text ++ r ≠ c :: s := by
  obtain ⟨d, rest, rfl, hd⟩ := h
  intro htext
  rw [(List.cons.inj htext).1, hc] at hd
  cases hd

theorem Kind.Begins.unique {kind kind' : Kind} {text : List Char} (h : kind.Begins text)
    (h' : kind'.Begins text) : kind = kind' := by
  obtain ⟨c, rest, rfl, hc⟩ := h
  obtain ⟨d, rest', htext, hd⟩ := h'
  rw [(List.cons.inj htext).1] at hc
  exact Option.some.inj (hc.symm.trans hd)

namespace Key

theorem begins_text (key : Key) : key.toValue.kind.Begins key.text := by
  cases key with
  | integer n =>
    rw [text, Decimal.ofInt]
    split
    · exact ⟨'-', _, rfl, rfl⟩
    · obtain ⟨c, digits, hdigits, hc⟩ := Decimal.exists_digit_cons n.toInt.natAbs
      exact ⟨c, digits, hdigits, if_pos hc⟩
  | boolean b => cases b <;> exact ⟨_, _, rfl, rfl⟩
  | string s => exact ⟨_, _, rfl, rfl⟩

theorem text_cancel {key key' : Key} {r s : List Char} (hr : Ends r) (hs : Ends s)
    (h : key.text ++ r = key'.text ++ s) : key = key' ∧ r = s := by
  have hkind := (key.begins_text.append r).unique (h ▸ key'.begins_text.append s)
  cases key with
  | integer n =>
    cases key' with
    | integer m =>
      obtain ⟨hn, hrest⟩ := Decimal.ofInt_cancel hr hs h
      exact ⟨congrArg _ (Int64.toInt_inj.mp hn), hrest⟩
    | _ => cases hkind
  | boolean b =>
    cases key' with
    | boolean b' => cases b <;> cases b' <;> simp_all [text]
    | _ => cases hkind
  | string x =>
    cases key' with
    | string y =>
      obtain ⟨hx, hrest⟩ := Quoted.quote_cancel h
      exact ⟨congrArg _ (String.toList_inj.mp hx), hrest⟩
    | _ => cases hkind

end Key

namespace Heap

/-! ## Items one after the other -/

theorem separated_cons (item : List Char) (items : List (List Char)) :
    separated (item :: items) = item ++ items.flatMap ([',', ' '] ++ ·) := by
  induction items generalizing item with
  | nil => simp [separated]
  | cons next items ih =>
    have h := ih next
    simp only [separated] at h ⊢
    rw [List.intercalate_cons_cons, h]
    simp

section Items

variable {α : Type} {write : α → List Char} {close : Char} {xs ys : List α} {r s : List Char}

/-- What stands behind an item is a comma or the closing bracket. -/
theorem ends_behind (hclose : close.isDigit = false) (items : List (List Char)) (r : List Char) :
    Ends (items.flatMap ([',', ' '] ++ ·) ++ close :: r) := by
  cases items with
  | nil =>
    rintro c ⟨⟩
    exact hclose
  | cons =>
    rintro c ⟨⟩
    rfl

theorem behind_cancel (hclose : close.isDigit = false) (hcomma : close ≠ ',')
    (hitems : ∀ x ∈ xs, ∀ y r s, Ends r → Ends s → write x ++ r = write y ++ s → x = y ∧ r = s)
    (h : (xs.map write).flatMap ([',', ' '] ++ ·) ++ close :: r
      = (ys.map write).flatMap ([',', ' '] ++ ·) ++ close :: s) : xs = ys ∧ r = s := by
  induction xs generalizing ys with
  | nil =>
    cases ys with
    | nil => exact ⟨rfl, (List.cons.inj h).2⟩
    | cons => exact absurd (List.cons.inj h).1 hcomma
  | cons x xs ih =>
    cases ys with
    | nil => exact absurd (List.cons.inj h).1.symm hcomma
    | cons y ys =>
      simp only [List.map_cons, List.flatMap_cons, List.append_assoc] at h
      obtain ⟨hx, hxs⟩ := List.forall_mem_cons.mp hitems
      obtain ⟨rfl, hrest⟩ := hx y _ _ (ends_behind hclose _ r) (ends_behind hclose _ s)
        (List.append_cancel_left h)
      obtain ⟨rfl, hbehind⟩ := ih hxs hrest
      exact ⟨rfl, hbehind⟩

/-- **The items of a container can be told apart** if each of them can be told from what follows, and
none begins with the closing bracket. -/
theorem separated_cancel (hclose : close.isDigit = false) (hcomma : close ≠ ',')
    (hfirst : ∀ x r s, write x ++ r ≠ close :: s)
    (hitems : ∀ x ∈ xs, ∀ y r s, Ends r → Ends s → write x ++ r = write y ++ s → x = y ∧ r = s)
    (h : separated (xs.map write) ++ close :: r = separated (ys.map write) ++ close :: s) :
    xs = ys ∧ r = s := by
  cases xs with
  | nil =>
    cases ys with
    | nil => exact ⟨rfl, (List.cons.inj h).2⟩
    | cons y ys =>
      rw [List.map_cons, separated_cons, List.append_assoc] at h
      exact absurd h.symm (hfirst y _ _)
  | cons x xs =>
    cases ys with
    | nil =>
      rw [List.map_cons, separated_cons, List.append_assoc] at h
      exact absurd h (hfirst x _ _)
    | cons y ys =>
      rw [List.map_cons, List.map_cons, separated_cons, separated_cons, List.append_assoc,
        List.append_assoc] at h
      obtain ⟨hx, hxs⟩ := List.forall_mem_cons.mp hitems
      obtain ⟨rfl, hrest⟩ := hx y _ _ (ends_behind hclose _ r) (ends_behind hclose _ s) h
      obtain ⟨rfl, hbehind⟩ := behind_cancel hclose hcomma hxs hrest
      exact ⟨rfl, hbehind⟩

end Items

end Heap

namespace Tree

open Heap (separated separated_cancel)

theorem sizeOf_snd_lt {entries : List (Key × Tree)} {entry : Key × Tree} (h : entry ∈ entries) :
    sizeOf entry.2 < sizeOf entries := by
  have hentry : sizeOf entry.2 < sizeOf entry := by
    obtain ⟨key, tree⟩ := entry
    rw [Prod.mk.sizeOf_spec]
    exact Nat.lt_add_of_pos_left (by omega)
  exact Nat.lt_trans hentry (List.sizeOf_lt_of_mem h)

/-- What holds of a container if it holds of its items, holds of every tree. -/
theorem induct {P : Tree → Prop} (scalar : ∀ key, P (.scalar key)) (null : P .null)
    (array : ∀ items, (∀ tree ∈ items, P tree) → P (.array items))
    (hash : ∀ entries, (∀ entry ∈ entries, P entry.2) → P (.hash entries)) : ∀ tree, P tree
  | .scalar key => scalar key
  | .null => null
  | .array items => array items fun tree _ => induct scalar null array hash tree
  | .hash entries => hash entries fun entry h =>
    have := sizeOf_snd_lt h
    induct scalar null array hash entry.2

/-- The text of a tree: all of its containers written out, one inside the other. -/
def text : Tree → List Char
  | .scalar key => key.text
  | .null => "null".toList
  | .array items => '[' :: separated (items.map fun tree => tree.text) ++ [']']
  | .hash entries =>
    '\x7b' :: separated (entries.map fun entry => entry.1.text ++ ": ".toList ++ entry.2.text)
      ++ ['\x7d']
  decreasing_by
    · decreasing_tactic
    · next h =>
      have := sizeOf_snd_lt h
      decreasing_tactic

/-- An entry of a hash as it is written. -/
def entryText (entry : Key × Tree) : List Char :=
  entry.1.text ++ ": ".toList ++ entry.2.text

theorem text_scalar (key : Key) : (scalar key).text = key.text := by
  rw [text]

theorem text_null : null.text = "null".toList := by
  rw [text]

theorem text_array (items : List Tree) :
    (array items).text = '[' :: separated (items.map text) ++ [']'] := by
  rw [text]

theorem text_hash (entries : List (Key × Tree)) :
    (hash entries).text = '\x7b' :: separated (entries.map entryText) ++ ['\x7d'] := by
  rw [text]
  rfl

def kind : Tree → Kind
  | scalar key => key.toValue.kind
  | null => .null
  | array _ => .array
  | hash _ => .hash

theorem begins_text (tree : Tree) : tree.kind.Begins tree.text := by
  cases tree with
  | scalar key =>
    rw [text_scalar]
    exact key.begins_text
  | null =>
    rw [text_null]
    exact ⟨_, _, rfl, rfl⟩
  | array items =>
    rw [text_array]
    exact ⟨_, _, rfl, rfl⟩
  | hash entries =>
    rw [text_hash]
    exact ⟨_, _, rfl, rfl⟩

theorem kind_eq_of_text {tree tree' : Tree} {r s : List Char} (h : tree.text ++ r = tree'.text ++ s) :
    tree.kind = tree'.kind :=
  (tree.begins_text.append r).unique (h ▸ tree'.begins_text.append s)

theorem begins_entryText (entry : Key × Tree) : entry.1.toValue.kind.Begins (entryText entry) := by
  unfold entryText
  rw [List.append_assoc]
  exact entry.1.begins_text.append _

/-- If a tree can be told from what follows, an entry can that has it for its value. -/
theorem entryText_cancel {entry : Key × Tree}
    (htree : ∀ {tree' r s}, Ends r → Ends s → entry.2.text ++ r = text tree' ++ s →
      entry.2 = tree' ∧ r = s)
    {entry' : Key × Tree} {r s : List Char} (hr : Ends r) (hs : Ends s)
    (h : entryText entry ++ r = entryText entry' ++ s) : entry = entry' ∧ r = s := by
  have hcolon : ∀ rest, Ends (": ".toList ++ rest) := by
    rintro rest c ⟨⟩
    rfl
  simp only [entryText, List.append_assoc] at h
  obtain ⟨hkey, hrest⟩ := Key.text_cancel (hcolon _) (hcolon _) h
  obtain ⟨hvalue, hbehind⟩ := htree hr hs (List.append_cancel_left hrest)
  exact ⟨Prod.ext hkey hvalue, hbehind⟩

/-- **A tree can be read off its text**, if no digit follows that could belong to it. -/
theorem text_cancel {tree tree' : Tree} {r s : List Char} (hr : Ends r) (hs : Ends s)
    (h : tree.text ++ r = tree'.text ++ s) : tree = tree' ∧ r = s := by
  induction tree using induct generalizing tree' r s with
  | scalar key =>
    have hkind := kind_eq_of_text h
    cases tree' with
    | scalar key' =>
      rw [text_scalar, text_scalar] at h
      obtain ⟨rfl, hrest⟩ := Key.text_cancel hr hs h
      exact ⟨rfl, hrest⟩
    | _ => cases key <;> cases hkind
  | null =>
    have hkind := kind_eq_of_text h
    cases tree' with
    | null => exact ⟨rfl, List.append_cancel_left h⟩
    | scalar key => cases key <;> cases hkind
    | _ => cases hkind
  | array items ih =>
    have hkind := kind_eq_of_text h
    cases tree' with
    | array items' =>
      rw [text_array, text_array, List.append_assoc, List.append_assoc] at h
      obtain ⟨rfl, hrest⟩ := separated_cancel rfl (by decide)
        (fun tree => tree.begins_text.ne_cons rfl) (fun tree htree tree' r s => ih tree htree)
        (List.cons.inj h).2
      exact ⟨rfl, hrest⟩
    | scalar key => cases key <;> cases hkind
    | _ => cases hkind
  | hash entries ih =>
    have hkind := kind_eq_of_text h
    cases tree' with
    | hash entries' =>
      rw [text_hash, text_hash, List.append_assoc, List.append_assoc] at h
      obtain ⟨rfl, hrest⟩ := separated_cancel rfl (by decide)
        (fun entry => (begins_entryText entry).ne_cons rfl)
        (fun entry hentry entry' r s => entryText_cancel (ih entry hentry))
        (List.cons.inj h).2
      exact ⟨rfl, hrest⟩
    | scalar key => cases key <;> cases hkind
    | _ => cases hkind

theorem text_inj {tree tree' : Tree} (h : tree.text = tree'.text) : tree = tree' := by
  have hnil : Ends [] := fun c hc => by cases hc
  exact (text_cancel hnil hnil (by rw [h])).1

end Tree

end ClosureMachine
