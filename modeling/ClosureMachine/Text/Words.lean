import ClosureMachine.Text.Blank

/-!
# Words of a line

The longest stretches of a line without a blank. How many blanks stand between two words, or at
the ends of the line, does not matter (`words_append_blank`, `words_blank_cons`). Words that are
written with a space between each are read back (`words_intercalate`).
-/

namespace ClosureMachine.Text

def words (line : List Char) : List (List Char) :=
  (line.splitOnP isBlank).filter (!·.isEmpty)

@[simp]
theorem words_nil : words [] = [] := by
  simp [words, List.splitOnP_nil]

/-- A blank separates the words before it from those after it. -/
theorem words_append_blank {c : Char} (hc : isBlank c = true) (x y : List Char) :
    words (x ++ c :: y) = words x ++ words y := by
  rw [words, List.splitOnP_append_cons x y hc, List.filter_append, words, words]

theorem words_blank_cons {c : Char} (hc : isBlank c = true) (line : List Char) :
    words (c :: line) = words line := by
  simpa using words_append_blank hc [] line

/-- A text without blanks is one word. -/
theorem words_eq_singleton {word : List Char} (hne : word ≠ [])
    (h : ∀ c ∈ word, isBlank c = false) : words word = [word] := by
  rw [words, List.splitOnP_eq_singleton h]
  simp [hne]

theorem words_intercalate {ws : List (List Char)}
    (h : ∀ word ∈ ws, word ≠ [] ∧ ∀ c ∈ word, isBlank c = false) :
    words ([' '].intercalate ws) = ws := by
  induction ws with
  | nil => exact words_nil
  | cons word ws ih =>
    obtain ⟨hne, hblank⟩ := h word List.mem_cons_self
    have hrest := ih fun word hword => h word (List.mem_cons_of_mem _ hword)
    cases ws with
    | nil =>
      rw [List.intercalate_singleton]
      exact words_eq_singleton hne hblank
    | cons next ws =>
      rw [List.intercalate_cons_cons, List.append_assoc, List.singleton_append,
        words_append_blank rfl, hrest, words_eq_singleton hne hblank]
      rfl

end ClosureMachine.Text
