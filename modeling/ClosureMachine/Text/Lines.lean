/-!
# Lines of a text

A line ends at a line feed, or at a carriage return and a line feed. What follows the last line
feed is a line too, unless it is empty; a carriage return at its end is part of it.

No line holds a line feed (`not_mem_of_mem_lines`), and lines that are written with a line feed
after each are read back (`lines_flatMap_append`). Whatever follows a line feed is split into lines
apart from what stands in front of it (`lines_append_cons`).
-/

namespace ClosureMachine.Text

/-- A line without the carriage return at its end, if it has one. -/
def dropReturn (line : List Char) : List Char :=
  if line.getLast? = some '\r' then line.dropLast else line

def lines (text : List Char) : List (List Char) :=
  let pieces := text.splitOn '\n'
  pieces.dropLast.map dropReturn ++ pieces.getLast?.toList.filter (!·.isEmpty)

/-! ### Lines and line feeds -/

@[simp]
theorem lines_nil : lines [] = [] := by
  simp [lines]

/-- All pieces of what stands in front of a line feed are lines, the last one included. -/
theorem lines_append_cons (front rest : List Char) :
    lines (front ++ '\n' :: rest) = (front.splitOn '\n').map dropReturn ++ lines rest := by
  obtain ⟨pieces, last, hrest⟩ : ∃ pieces last, rest.splitOn '\n' = pieces ++ [last] :=
    ⟨_, _, (List.dropLast_concat_getLast (by simp)).symm⟩
  unfold lines
  simp [List.splitOn_append_cons_self, hrest, ← List.append_assoc]

theorem lines_cons {line : List Char} (h : '\n' ∉ line) (rest : List Char) :
    lines (line ++ '\n' :: rest) = dropReturn line :: lines rest := by
  simp [lines_append_cons, List.splitOn_eq_singleton h]

/-- The last line may do without a line feed. -/
theorem lines_of_not_mem {line : List Char} (h : '\n' ∉ line) :
    lines line = [line].filter (!·.isEmpty) := by
  unfold lines
  rw [List.splitOn_eq_singleton h]
  rfl

theorem lines_flatMap_append {ls : List (List Char)}
    (h : ∀ line ∈ ls, '\n' ∉ line ∧ dropReturn line = line) (rest : List Char) :
    lines (ls.flatMap (· ++ ['\n']) ++ rest) = ls ++ lines rest := by
  induction ls with
  | nil => rfl
  | cons line ls ih =>
    obtain ⟨hfeed, hreturn⟩ := h line List.mem_cons_self
    have hrest := ih fun line hline => h line (List.mem_cons_of_mem _ hline)
    rw [List.flatMap_cons, List.append_assoc, List.append_assoc, List.singleton_append,
      lines_cons hfeed, hreturn, hrest, List.cons_append]

theorem mem_of_mem_dropReturn {c : Char} {line : List Char} (h : c ∈ dropReturn line) :
    c ∈ line := by
  unfold dropReturn at h
  split at h
  · exact (List.dropLast_subset line) h
  · exact h

/-- What holds of a text without line feeds, and of a line in front of a text of which it holds, holds
of every text. -/
theorem induct_lines {P : List Char → Prop} (last : ∀ line, '\n' ∉ line → P line)
    (cons : ∀ line rest, '\n' ∉ line → P rest → P (line ++ '\n' :: rest)) (text : List Char) :
    P text := by
  induction hlen : text.length using Nat.strongRecOn generalizing text with
  | ind length ih =>
    by_cases hfeed : '\n' ∈ text
    · obtain ⟨line, rest, rfl, hline⟩ := List.eq_append_cons_of_mem hfeed
      apply cons line rest hline
      apply ih rest.length _ rest rfl
      simp at hlen
      omega
    · exact last text hfeed

theorem not_mem_of_mem_lines {text line : List Char} (h : line ∈ lines text) : '\n' ∉ line := by
  induction text using induct_lines with
  | last only hfeed =>
    rw [lines_of_not_mem hfeed] at h
    rw [List.mem_singleton.mp (List.mem_filter.mp h).1]
    exact hfeed
  | cons first rest hfirst ih =>
    rw [lines_cons hfirst] at h
    rcases List.mem_cons.mp h with rfl | h
    · exact fun hmem => hfirst (mem_of_mem_dropReturn hmem)
    · exact ih h

/-- A carriage return is taken off the end of a line only. -/
theorem dropReturn_of_not_mem {line : List Char} (h : '\r' ∉ line) : dropReturn line = line := by
  unfold dropReturn
  rw [if_neg fun hlast => h (List.mem_of_getLast? hlast)]

/-! ### The end of a text -/

theorem length_splitOn (text : List Char) (c : Char) :
    (text.splitOn c).length = text.count c + 1 := by
  induction text with
  | nil => simp
  | cons d text ih =>
    rw [List.splitOn_cons_eq_if_modifyHead, List.count_cons]
    split <;> simp [ih]

/-- A text that does not end with a carriage return has the same lines in front of a line feed, and
one more if it is empty or ends with a line feed itself. -/
theorem lines_closed {text : List Char} (h : text.getLast? ≠ some '\r') :
    (text.splitOn '\n').map dropReturn = lines text
      ∨ (text.splitOn '\n').map dropReturn = lines text ++ [[]] := by
  induction text using induct_lines with
  | last line hline =>
    rw [List.splitOn_eq_singleton hline, lines_of_not_mem hline]
    by_cases hempty : line = []
    · subst hempty
      exact Or.inr rfl
    · left
      simp [dropReturn, h, hempty]
  | cons line rest hline ih =>
    have hrest : rest.getLast? ≠ some '\r' := by
      intro hreturn
      apply h
      simp [List.getLast?_append, List.getLast?_cons, hreturn]
    rw [List.splitOn_append_cons_self, List.splitOn_eq_singleton hline, lines_cons hline]
    rcases ih hrest with ih | ih <;> simp [ih]

/-- A carriage return at the end of a text is at the end of its last line. -/
theorem lines_of_return {text : List Char} (h : text.getLast? = some '\r') :
    ∃ front line, lines text = front ++ [line] ∧ line.getLast? = some '\r' := by
  induction text using induct_lines with
  | last line hline =>
    have hne : line ≠ [] := by
      rintro rfl
      cases h
    exact ⟨[], line, by simp [lines_of_not_mem hline, hne], h⟩
  | cons line rest hline ih =>
    have hrest : rest.getLast? = some '\r' := by
      cases rest with
      | nil => simp at h
      | cons c rest => simpa [List.getLast?_append, List.getLast?_cons] using h
    obtain ⟨front, last, hlines, hreturn⟩ := ih hrest
    exact ⟨dropReturn line :: front, last, by simp [lines_cons hline, hlines], hreturn⟩

end ClosureMachine.Text
