import ClosureMachine.Text.Width.Sequence

/-!
# Display width

How many columns a text takes on a terminal: the columns of its characters, less those of the
sequences that set the style of the terminal. Such a sequence is an escape, `[`, and all up to the
next `m`, or to the end of the text. The escape itself keeps its column. Plain text is as wide as
it is long (`ofText?_eq_length`).

The columns of a style sequence are counted character by character, those of a text are not: where
characters join inside of a sequence, it can hide more columns than the text takes. Such a text has
no width.
-/

namespace ClosureMachine.Width

/-- How far the reader of a text is in a sequence that sets the style. -/
inductive StyleState where
  /-- Outside of one. -/
  | text
  /-- Just after an escape. -/
  | escape
  /-- After the escape and its bracket. -/
  | style

/-- How many columns are lost to style sequences: one for each character from the bracket on that
takes any by itself. -/
def styleColumns : StyleState → List Char → Nat
  | _, [] => 0
  | .text, c :: cs => styleColumns (if c = '\x1b' then .escape else .text) cs
  | .escape, c :: cs => if c = '[' then 1 + styleColumns .style cs else styleColumns .text cs
  | .style, c :: cs => min (ofChar c) 1 + styleColumns (if c = 'm' then .text else .style) cs

/-- How many columns a text takes, unless more of them are hidden than there are. -/
def ofText? (text : List Char) : Option Nat :=
  let width := (ofSequence text).1 - styleColumns .text text
  if 0 ≤ width then some width.toNat else none

/-! ### Plain text -/

theorem styleColumns_eq_zero {text : List Char} (h : '\x1b' ∉ text) :
    styleColumns .text text = 0 := by
  induction text with
  | nil => rfl
  | cons c rest ih =>
    have hc : c ≠ '\x1b' := fun e => h (e ▸ List.mem_cons_self)
    rw [styleColumns, if_neg hc]
    exact ih fun hrest => h (List.mem_cons_of_mem c hrest)

/-- A text without an escape, of characters that never join, is as wide as it is long. -/
theorem ofText?_eq_length {text : List Char} (hnarrow : ∀ c ∈ text, c.toNat ≤ 0xa0)
    (hescape : '\x1b' ∉ text) : ofText? text = some text.length := by
  simp [ofText?, ofSequence_eq_length hnarrow, styleColumns_eq_zero hescape]

end ClosureMachine.Width
