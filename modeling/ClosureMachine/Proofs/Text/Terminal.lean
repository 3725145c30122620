import ClosureMachine.Text.Terminal
import Mathlib.Tactic.SplitIfs

/-!
# Tables that can be drawn

A text can have no width on a terminal only if a sequence in it sets the style, which begins with an
escape. So there is a drawing of every table without escapes.

* **`Width.exists_ofText?`**: a text without escapes has a width. A character may take columns away from the
  text behind it, but no more than that text has lent to the characters in front of it (`Head.lent`).
* **`Grid.exists_drawBy`**: a table without escapes is drawn, and its drawing has none either, so that it can
  stand in a cell of another.
-/

namespace ClosureMachine

namespace CharRange

theorem exists_range_of_covers {ranges : List CharRange} {c : Char} (h : covers ranges c = true) :
    ∃ range ∈ ranges, range.1 ≤ c.toNat ∧ c.toNat ≤ range.2 := by
  unfold covers at h
  cases hfind : ranges.find? fun range => c.toNat ≤ range.2 with
  | none =>
    rw [hfind] at h
    cases h
  | some range =>
    rw [hfind] at h
    have hhas : range.has c.toNat = true := h
    unfold has at hhas
    exact ⟨range, List.mem_of_find?_eq_some hfind, by simpa using hhas⟩

end CharRange

/-! ## The width of a text is not negative -/

namespace Ligature.Letter

/-- How many of the columns of a text that starts with this end of a ligature the characters in front of it
may take away. -/
def lent : Letter → Int
  | .boundConsonant | .stackable => 1
  | _ => 0

theorem lent_nonneg (last : Letter) : 0 ≤ last.lent := by
  cases last <;> decide

theorem lent_before {c : Char} {joined : Bool} {last : Letter} {columns : Int}
    {longer : Option Letter} (h : last.before c joined = some (columns, longer)) :
    longer.elim 0 lent ≤ last.lent + columns := by
  unfold before at h
  cases last <;> dsimp only at h <;> split_ifs at h <;> cases h <;> decide

end Ligature.Letter

namespace Width

theorem ofChar_pos_of_stackable {c : Char} (h : CharRange.covers Ligature.stackable c = true) :
    0 < ofChar c := by
  obtain ⟨range, hrange, hfirst, hlast⟩ := CharRange.exists_range_of_covers h
  have hbounds : ∀ range ∈ Ligature.stackable, 0x1780 ≤ range.1 ∧ range.2 < 0x17b0 := by decide
  obtain ⟨hlow, hhigh⟩ := hbounds range hrange
  -- all of them stand close together, among others that take a column as well
  have htable : ∀ i < 0x30, 0 < ofChar (Char.ofNat (0x1780 + i)) := by decide +kernel
  have hc := htable (c.toNat - 0x1780) (by omega)
  rwa [show 0x1780 + (c.toNat - 0x1780) = c.toNat from by omega, Char.ofNat_toNat] at hc

/-- How many of the columns of a text with this head the characters in front of it may take away. -/
def Head.lent : Head → Int
  | .joinedRegional | .joinedOddFlags => 1
  | .letter last _ => last.lent
  | _ => 0

theorem Head.lent_nonneg (head : Head) : 0 ≤ head.lent := by
  cases head with
  | letter last => exact last.lent_nonneg
  | joinedRegional | joinedOddFlags => decide
  | _ => exact Int.le_refl 0

theorem Head.lent_ofChar (c : Char) : (Head.ofChar c).lent ≤ (Width.ofChar c : Int) := by
  have hnonneg : (0 : Int) ≤ Width.ofChar c := Int.natCast_nonneg _
  unfold Head.ofChar
  -- only the end of a ligature lends a column by itself
  split_ifs
  · exact hnonneg
  · exact hnonneg
  · exact hnonneg
  · exact hnonneg
  cases hletter : Ligature.Letter.ofChar? c with
  | none => exact hnonneg
  | some last =>
    unfold Ligature.Letter.ofChar? at hletter
    split_ifs at hletter with _ _ _ _ _ hstackable
    all_goals
      cases hletter
      try exact hnonneg
    exact Int.ofNat_le.mpr (ofChar_pos_of_stackable hstackable)

theorem Head.lent_before {c : Char} {head longer : Head} {columns : Int}
    (h : head.before c = some (columns, longer)) : longer.lent ≤ head.lent + columns := by
  cases head with
  | plain | keycap => cases h
  | letter last joined =>
    unfold before at h
    dsimp only at h
    split_ifs at h
    · cases h
      simp [lent]
    · cases h
      simp [lent]
    · obtain ⟨⟨added, longer?⟩, hbefore, hpair⟩ := Option.map_eq_some_iff.mp h
      cases hpair
      have hletter := Ligature.Letter.lent_before hbefore
      cases longer? <;> exact hletter
  | _ =>
    unfold before at h
    dsimp only at h
    split_ifs at h <;> cases h <;> simp [lent]

theorem Context.lent_settled (next : Context) : next.settled.lent ≤ next.head.lent := by
  unfold settled
  split
  · exact Int.le_refl _
  · exact next.head.lent_nonneg

theorem Context.lent_select (selector : Selector) (head : Head) :
    (select selector head).head.lent ≤ head.lent := by
  unfold select
  dsimp only
  split
  · exact Int.le_refl _
  · exact head.lent_nonneg

/-- A character takes no more than is lent. -/
theorem Context.lent_extend (c : Char) (next : Context) :
    (next.extend c).2.head.lent ≤ next.head.lent + (next.extend c).1 := by
  have hnonneg := next.head.lent_nonneg
  have hsettled := next.lent_settled
  unfold extend
  -- a character that is read with its selector, or by itself, leaves a head that lends nothing
  by_cases hselected : (next.selector = some .emoji && Emoji.takesSelector c) = true
  · rw [if_pos hselected]
    show (0 : Int) ≤ next.head.lent + if next.head.isJoined then 0 else 2
    split <;> omega
  rw [if_neg hselected]
  by_cases hnarrow : c.toNat ≤ 0xa0
  · rw [if_pos hnarrow]
    show (0 : Int) ≤ next.head.lent + 1
    omega
  rw [if_neg hnarrow]
  cases Selector.ofChar? c with
  | some selector =>
    have hselect := lent_select selector next.settled
    dsimp only
    omega
  | none =>
    dsimp only
    split
    · show (0 : Int) ≤ next.head.lent + 1
      omega
    · -- what the character takes away, if it joins the head, is what the head has lent
      cases hbefore : next.settled.before c with
      | none =>
        have hchar := Head.lent_ofChar c
        simp only [Option.getD_none]
        omega
      | some longer =>
        have hlent := Head.lent_before hbefore
        simp only [Option.getD_some]
        omega

/-- What a text has lent is among its columns. -/
theorem lent_le_ofSequence (text : List Char) :
    (ofSequence text).2.head.lent ≤ (ofSequence text).1 := by
  induction text with
  | nil => decide
  | cons c text ih =>
    rw [ofSequence_cons]
    have hextend := Context.lent_extend c (ofSequence text).2
    dsimp only
    omega

/-- A text without an escape has a width. -/
theorem exists_ofText? {text : List Char} (h : '\x1b' ∉ text) : ∃ width, ofText? text = some width := by
  have hlent := lent_le_ofSequence text
  have hnonneg := Head.lent_nonneg (ofSequence text).2.head
  unfold ofText?
  simp only [styleColumns_eq_zero h]
  rw [if_pos (by omega)]
  exact ⟨_, rfl⟩

-- four people of two columns each, drawn as one: without an `m` all of them are hidden
example : ofText? "\x1b[👨\u200d👩\u200d👧\u200d👦".toList = none := by decide +kernel

end Width

/-! ## Pieces of a text -/

namespace Text

theorem mem_of_mem_lines {text line : List Char} {c : Char} (hline : line ∈ lines text)
    (hc : c ∈ line) : c ∈ text := by
  induction text using induct_lines with
  | last only hfeed =>
    rw [lines_of_not_mem hfeed] at hline
    rwa [List.mem_singleton.mp (List.mem_filter.mp hline).1] at hc
  | cons first rest hfirst ih =>
    rw [lines_cons hfirst] at hline
    rcases List.mem_cons.mp hline with rfl | hline
    · exact List.mem_append_left _ (mem_of_mem_dropReturn hc)
    · exact List.mem_append_right _ (List.mem_cons_of_mem _ (ih hline))

end Text

theorem not_mem_getD {c : Char} {texts : List (List Char)} (h : ∀ text ∈ texts, c ∉ text) (i : Nat) :
    c ∉ texts.getD i [] := by
  rw [List.getD_eq_getElem?_getD]
  cases htext : texts[i]? with
  | none => exact List.not_mem_nil
  | some text => exact h text (List.mem_of_getElem? htext)

theorem not_mem_intercalate {c : Char} {separator : List Char} {parts : List (List Char)}
    (hseparator : c ∉ separator) (hparts : ∀ part ∈ parts, c ∉ part) :
    c ∉ separator.intercalate parts := by
  induction parts with
  | nil => simp
  | cons part parts ih =>
    obtain ⟨hpart, hrest⟩ := List.forall_mem_cons.mp hparts
    cases parts with
    | nil => simpa using hpart
    | cons next parts =>
      rw [List.intercalate_cons_cons]
      simp [hpart, hseparator, ih hrest]

/-! ## Tables -/

/-- If all have an image of a kind, the list of the images is there and they are of that kind. -/
theorem exists_mapM {α β : Type} {f : α → Option β} {P : β → Prop} {xs : List α}
    (h : ∀ x ∈ xs, ∃ y, f x = some y ∧ P y) : ∃ ys, xs.mapM f = some ys ∧ ∀ y ∈ ys, P y := by
  induction xs with
  | nil => exact ⟨[], rfl, by simp⟩
  | cons x xs ih =>
    obtain ⟨⟨y, hy, hpy⟩, hrest⟩ := List.forall_mem_cons.mp h
    obtain ⟨ys, hys, hpys⟩ := ih hrest
    exact ⟨y :: ys, by simp [List.mapM_cons, hy, hys], List.forall_mem_cons.mpr ⟨hpy, hpys⟩⟩

namespace Grid

/-- No title and no cell of a table has an escape. -/
structure Unstyled (grid : Grid) : Prop where
  title : ∀ column ∈ grid.columns, '\x1b' ∉ column.title
  cell : ∀ row ∈ grid.rows, ∀ cell ∈ row, '\x1b' ∉ cell

theorem exists_greatest? {α : Type} {width? : α → Option Nat} {things : List α}
    (h : ∀ x ∈ things, ∃ width, width? x = some width) :
    ∃ width, greatest? width? things = some width := by
  obtain ⟨widths, hwidths, -⟩ := exists_mapM (P := fun _ => True) fun x hx =>
    (h x hx).imp fun width hwidth => ⟨hwidth, trivial⟩
  unfold greatest?
  rw [hwidths]
  exact ⟨_, rfl⟩

theorem not_mem_rule (widths : List Nat) (junction : Char) (h : junction ≠ '\x1b') :
    '\x1b' ∉ rule widths junction := by
  have hparts : '\x1b' ∉ [junction].intercalate
      (widths.map fun width => List.replicate (width + 2) '─') := by
    refine not_mem_intercalate (by simpa using h.symm) ?_
    simp
  simpa [rule] using hparts

section

variable {measure : List Char → Option Nat} {grid : Grid}
  (hmeasure : ∀ line, '\x1b' ∉ line → ∃ width, measure line = some width)

include hmeasure

theorem exists_cellWidth? {cell : List Char} (h : '\x1b' ∉ cell) :
    ∃ width, cellWidth? measure cell = some width :=
  exists_greatest? fun line hline => hmeasure line fun hmem => h (Text.mem_of_mem_lines hline hmem)

theorem exists_widths? (hgrid : grid.Unstyled) :
    ∃ widths, grid.widths? measure = some widths := by
  have hwidth : ∀ x ∈ grid.columns.zipIdx, ∃ width,
      greatest? (cellWidth? measure) (x.1.title :: grid.rows.map (·.getD x.2 [])) = some width
        ∧ True := by
    rintro ⟨column, i⟩ hmem
    have hcells : ∀ cell ∈ column.title :: grid.rows.map (·.getD i []), '\x1b' ∉ cell := by
      intro cell hcell
      rcases List.mem_cons.mp hcell with rfl | hcell
      · exact hgrid.title column (List.fst_mem_of_mem_zipIdx hmem)
      · obtain ⟨row, hrow, rfl⟩ := List.mem_map.mp hcell
        exact not_mem_getD (hgrid.cell row hrow) i
    obtain ⟨width, hwidth⟩ := exists_greatest? fun cell hcell =>
      exists_cellWidth? hmeasure (hcells cell hcell)
    exact ⟨width, hwidth, trivial⟩
  obtain ⟨widths, hwidths, -⟩ := exists_mapM hwidth
  exact ⟨widths, hwidths⟩

theorem exists_pad? {line : List Char} (h : '\x1b' ∉ line) (column : Align × Nat) :
    ∃ padded, pad? measure column line = some padded ∧ '\x1b' ∉ padded := by
  obtain ⟨width, hwidth⟩ := hmeasure line h
  unfold pad?
  rw [hwidth]
  cases column.1 with
  | left | right => exact ⟨_, rfl, by simp [h]⟩

theorem exists_rowLine? {cells : List (List Char)} (h : ∀ cell ∈ cells, '\x1b' ∉ cell)
    (columns : List (Align × Nat)) (k : Nat) :
    ∃ line, rowLine? measure columns (cells.map Text.lines) k = some line ∧ '\x1b' ∉ line := by
  obtain ⟨parts, hparts, hescape⟩ : ∃ parts, ((columns.zip (cells.map Text.lines)).mapM
      fun cell => pad? measure cell.1 (cell.2.getD k [])) = some parts
        ∧ ∀ part ∈ parts, '\x1b' ∉ part := by
    refine exists_mapM ?_
    rintro ⟨column, lines⟩ hmem
    obtain ⟨cell, hcell, rfl⟩ := List.mem_map.mp (List.of_mem_zip hmem).2
    refine exists_pad? hmeasure (not_mem_getD ?_ k) column
    exact fun line hline hescape => h cell hcell (Text.mem_of_mem_lines hline hescape)
  have hbars : '\x1b' ∉ ['│'].intercalate (parts.map fun part => ' ' :: part ++ [' ']) := by
    refine not_mem_intercalate (by decide) ?_
    simpa using hescape
  unfold rowLine?
  rw [hparts]
  exact ⟨_, rfl, by simpa using hbars⟩

theorem exists_rowText? {cells : List (List Char)} (h : ∀ cell ∈ cells, '\x1b' ∉ cell)
    (columns : List (Align × Nat)) :
    ∃ text, rowText? measure columns cells = some text ∧ '\x1b' ∉ text := by
  let height := ((cells.map Text.lines).map List.length).foldl max 1
  obtain ⟨lines, hlines, hescape⟩ : ∃ lines,
      (List.range height).mapM (rowLine? measure columns (cells.map Text.lines)) = some lines
        ∧ ∀ line ∈ lines, '\x1b' ∉ line :=
    exists_mapM fun k _ => exists_rowLine? hmeasure h columns k
  unfold rowText?
  dsimp only
  rw [hlines]
  exact ⟨_, rfl, by simpa using hescape⟩

/-- **A table without escapes** is drawn, and its drawing has none. -/
theorem exists_drawBy (hgrid : grid.Unstyled) :
    ∃ text, grid.drawBy measure = .ok text ∧ '\x1b' ∉ text := by
  obtain ⟨widths, hwidths⟩ := exists_widths? hmeasure hgrid
  have hrow (cells : List (List Char)) (h : ∀ cell ∈ cells, '\x1b' ∉ cell) :=
    exists_rowText? hmeasure h ((grid.columns.map Column.align).zip widths)
  obtain ⟨titles, htitles, htitlesClear⟩ := hrow (grid.columns.map Column.title)
    (by simpa using hgrid.title)
  obtain ⟨rows, hrows, hrowsClear⟩ := exists_mapM fun row hmem => hrow row (hgrid.cell row hmem)
  have hrender : grid.render? measure
      = some (titles ++ rule widths '┼' ++ rows.flatten ++ rule widths '┴') := by
    unfold render?
    simp [hwidths, htitles, hrows]
  unfold drawBy
  rw [hrender]
  refine ⟨_, rfl, ?_⟩
  have hmiddle : '\x1b' ∉ rule widths '┼' := not_mem_rule widths '┼' (by decide)
  have hbottom : '\x1b' ∉ rule widths '┴' := not_mem_rule widths '┴' (by decide)
  simpa [htitlesClear, hmiddle, hbottom] using hrowsClear

end

/-- A terminal draws every table without escapes. -/
theorem exists_draw {grid : Grid} (hgrid : grid.Unstyled) :
    ∃ text, grid.draw = .ok text ∧ '\x1b' ∉ text :=
  exists_drawBy (fun _ => Width.exists_ofText?) hgrid

end Grid

end ClosureMachine
