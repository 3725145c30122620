import ClosureMachine.Text.Words
import Mathlib.Data.List.Basic
import Mathlib.Data.List.TakeDrop
import Mathlib.Data.List.TakeWhile

/-!
# Words and the gaps between them

A line splits into words in one way only. Its words stand one after the other with a gap between each
(`Spaced`), and there may be blanks in front of the first and behind the last (`words_eq_cons_iff`); or it
is nothing but blanks (`words_eq_nil_iff`).
-/

namespace ClosureMachine.Text

/-- Nothing but blanks, or nothing at all. -/
def Blanks (text : List Char) : Prop :=
  ∀ c ∈ text, isBlank c = true

theorem Blanks.not_mem {text : List Char} (h : Blanks text) {c : Char} (hc : isBlank c = false) :
    c ∉ text := by
  intro hmem
  rw [h c hmem] at hc
  cases hc

/-- At least one blank, and nothing else. -/
structure Gap (text : List Char) : Prop where
  ne_nil : text ≠ []
  blanks : Blanks text

/-- At least one character, and no blanks. -/
structure Unbroken (word : List Char) : Prop where
  ne_nil : word ≠ []
  blank : ∀ c ∈ word, isBlank c = false

/-- The text is these words, with a gap between each. -/
inductive Spaced : List (List Char) → List Char → Prop
  | last (word : List Char) : Spaced [word] word
  | cons {word gap text : List Char} {ws : List (List Char)} (hgap : Gap gap) (h : Spaced ws text) :
      Spaced (word :: ws) (word ++ (gap ++ text))

variable {front back text word gap : List Char} {ws : List (List Char)}

/-! ### How words are spaced -/

theorem Spaced.single (h : Spaced [word] text) : text = word := by
  cases h with
  | last => rfl
  | cons _ h => cases h

theorem Spaced.uncons {next : List Char} (h : Spaced (word :: next :: ws) text) :
    ∃ gap rest, Gap gap ∧ Spaced (next :: ws) rest ∧ text = word ++ (gap ++ rest) := by
  cases h with
  | cons hgap h => exact ⟨_, _, hgap, h, rfl⟩

theorem Spaced.pair {next : List Char} (h : Spaced [word, next] text) :
    ∃ gap, Gap gap ∧ text = word ++ (gap ++ next) := by
  obtain ⟨gap, rest, hgap, hrest, rfl⟩ := h.uncons
  exact ⟨gap, hgap, by rw [hrest.single]⟩

/-! ### Blanks do not count -/

theorem words_blanks_append (h : Blanks front) (text : List Char) :
    words (front ++ text) = words text := by
  induction front with
  | nil => rfl
  | cons c front ih =>
    obtain ⟨hc, hfront⟩ := List.forall_mem_cons.mp h
    rw [List.cons_append, words_blank_cons hc, ih hfront]

theorem dropWhile_blanks_append (hfront : Blanks front) (hback : ∀ c ∈ back.head?, isBlank c = false) :
    (front ++ back).dropWhile isBlank = back := by
  rw [List.dropWhile_append_of_pos hfront, dropWhile_of_head? hback]

theorem words_blanks (h : Blanks text) : words text = [] := by
  simpa using words_blanks_append h []

theorem words_append_blanks (h : Blanks back) (text : List Char) :
    words (text ++ back) = words text := by
  cases back with
  | nil => rw [List.append_nil]
  | cons c back =>
    obtain ⟨hc, hback⟩ := List.forall_mem_cons.mp h
    rw [words_append_blank hc, words_blanks hback, List.append_nil]

/-- A word ends where a blank or nothing follows. -/
theorem words_unbroken_append (hword : Unbroken word)
    (htext : ∀ c ∈ text.head?, isBlank c = true) : words (word ++ text) = word :: words text := by
  cases text with
  | nil => rw [List.append_nil, words_nil, words_eq_singleton hword.ne_nil hword.blank]
  | cons c text =>
    have hc : isBlank c = true := htext c rfl
    rw [words_append_blank hc, words_blank_cons hc, words_eq_singleton hword.ne_nil hword.blank]
    rfl

/-! ### How a line splits -/

theorem mem_of_head?_append (hne : front ≠ []) (back : List Char) :
    ∀ c ∈ (front ++ back).head?, c ∈ front := by
  rw [List.head?_append_of_ne_nil _ hne]
  exact fun c hc => List.mem_of_mem_head? hc

/-- A gap begins with a blank, whatever follows it. -/
theorem Gap.blank_of_head? (hgap : Gap gap) (text : List Char) :
    ∀ c ∈ (gap ++ text).head?, isBlank c = true :=
  fun c hc => hgap.blanks c (mem_of_head?_append hgap.ne_nil text c hc)

theorem Unbroken.blank_of_head? (hword : Unbroken word) (text : List Char) :
    ∀ c ∈ (word ++ text).head?, isBlank c = false :=
  fun c hc => hword.blank c (mem_of_head?_append hword.ne_nil text c hc)

theorem forall_head?_append {P : Char → Prop} (hfront : ∀ c ∈ front.head?, P c)
    (hback : ∀ c ∈ back.head?, P c) : ∀ c ∈ (front ++ back).head?, P c := by
  cases front with
  | nil => exact hback
  | cons => exact hfront

/-- The first of some words ends where a blank or nothing follows. -/
theorem Spaced.first (h : Spaced (word :: ws) text) :
    ∃ back, text = word ++ back ∧ ∀ c ∈ back.head?, isBlank c = true := by
  cases h with
  | last => exact ⟨[], (List.append_nil _).symm, fun c hc => by cases hc⟩
  | cons hgap h => exact ⟨_, rfl, hgap.blank_of_head? _⟩

/-- What is in the text is in one of the words, or is a blank. -/
theorem Spaced.mem (h : Spaced ws text) {c : Char} (hc : c ∈ text) :
    (∃ word ∈ ws, c ∈ word) ∨ isBlank c = true := by
  induction h with
  | last word => exact Or.inl ⟨word, List.mem_cons_self, hc⟩
  | cons hgap _ ih =>
    rcases List.mem_append.mp hc with hc | hc
    · exact Or.inl ⟨_, List.mem_cons_self, hc⟩
    · rcases List.mem_append.mp hc with hc | hc
      · exact Or.inr (hgap.blanks c hc)
      · refine (ih hc).imp_left ?_
        rintro ⟨word, hword, hc⟩
        exact ⟨word, List.mem_cons_of_mem _ hword, hc⟩

theorem words_spaced (hspaced : Spaced ws text) (hws : ∀ word ∈ ws, Unbroken word) :
    words text = ws := by
  induction hspaced with
  | last word =>
    obtain ⟨hne, hblank⟩ := hws word List.mem_cons_self
    exact words_eq_singleton hne hblank
  | cons hgap _ ih =>
    obtain ⟨hword, hrest⟩ := List.forall_mem_cons.mp hws
    rw [words_unbroken_append hword (hgap.blank_of_head? _), words_blanks_append hgap.blanks,
      ih hrest]

/-- The first characters of a text that have a property, and what follows them. -/
theorem exists_span (p : Char → Bool) (text : List Char) :
    ∃ front back, text = front ++ back ∧ (∀ c ∈ front, p c = true)
      ∧ ∀ c ∈ back.head?, p c = false := by
  refine ⟨text.takeWhile p, text.dropWhile p, List.takeWhile_append_dropWhile.symm,
    fun _ => List.mem_takeWhile_imp, fun c hc => ?_⟩
  have hhead := List.head?_dropWhile_not p text
  rwa [Option.mem_def.mp hc] at hhead

theorem span_append {p : Char → Bool} (hfront : ∀ c ∈ front, p c = true)
    (hback : ∀ c ∈ back.head?, p c = false) : (front ++ back).span p = (front, back) := by
  rw [List.span_eq_takeWhile_dropWhile, List.takeWhile_append_of_pos hfront,
    List.dropWhile_append_of_pos hfront, takeWhile_of_head? hback, dropWhile_of_head? hback,
    List.append_nil]

/-- A text that is not all blanks has a first word. -/
theorem exists_unbroken (text : List Char) : Blanks text ∨ ∃ front word back, Blanks front
    ∧ Unbroken word ∧ (∀ c ∈ back.head?, isBlank c = true) ∧ text = front ++ (word ++ back) := by
  obtain ⟨front, rest, rfl, hfront, hrest⟩ := exists_span isBlank text
  obtain ⟨word, back, rfl, hword, hback⟩ := exists_span (fun c => !isBlank c) rest
  cases word with
  | nil =>
    left
    -- what follows the blanks begins neither with a blank nor with anything else
    cases back with
    | nil =>
      rw [List.append_nil, List.append_nil]
      exact hfront
    | cons c back =>
      have hc := hrest c rfl
      have hc' := hback c rfl
      simp [hc] at hc'
  | cons c word =>
    right
    refine ⟨front, c :: word, back, hfront, ⟨List.cons_ne_nil _ _, ?_⟩, ?_, rfl⟩
    · simpa using hword
    · simpa using hback

theorem words_eq_nil_iff : words text = [] ↔ Blanks text := by
  refine ⟨fun h => ?_, words_blanks⟩
  rcases exists_unbroken text with hblanks | ⟨front, word, back, hfront, hword, hback, rfl⟩
  · exact hblanks
  · rw [words_blanks_append hfront, words_unbroken_append hword hback] at h
    cases h

/-- The first word of a text begins behind blanks and ends where a blank or nothing follows. -/
theorem exists_unbroken_of_words (h : words text = word :: ws) : Unbroken word ∧ ∃ front back,
    Blanks front ∧ (∀ c ∈ back.head?, isBlank c = true) ∧ words back = ws
      ∧ text = front ++ (word ++ back) := by
  rcases exists_unbroken text with hblanks | ⟨front, first, back, hfront, hfirst, hback, rfl⟩
  · rw [words_blanks hblanks] at h
    cases h
  · rw [words_blanks_append hfront, words_unbroken_append hfirst hback] at h
    cases h
    exact ⟨hfirst, front, back, hfront, hback, rfl, rfl⟩

theorem exists_spaced (h : words text = word :: ws) : (∀ w ∈ word :: ws, Unbroken w)
    ∧ ∃ front body back, Blanks front ∧ Spaced (word :: ws) (word ++ body) ∧ Blanks back
      ∧ text = front ++ (word ++ body ++ back) := by
  induction ws generalizing text word with
  | nil =>
    obtain ⟨hword, front, back, hfront, -, hwords, rfl⟩ := exists_unbroken_of_words h
    have hspaced : Spaced [word] (word ++ []) := by
      rw [List.append_nil]
      exact .last word
    exact ⟨List.forall_mem_singleton.mpr hword, front, [], back, hfront, hspaced,
      words_eq_nil_iff.mp hwords, by rw [List.append_nil]⟩
  | cons next ws ih =>
    obtain ⟨hword, front, rest, hfront, hrest, hwords, rfl⟩ := exists_unbroken_of_words h
    obtain ⟨hws, gap, body, back, hgap, hspaced, hback, rfl⟩ := ih hwords
    -- the next word does not begin with a blank, so there is one in front of it
    have hne : gap ≠ [] := by
      rintro rfl
      obtain ⟨c, next, rfl⟩ := List.exists_cons_of_ne_nil (hws _ List.mem_cons_self).ne_nil
      have hc := (hws _ List.mem_cons_self).blank c List.mem_cons_self
      rw [hrest c rfl] at hc
      cases hc
    refine ⟨List.forall_mem_cons.mpr ⟨hword, hws⟩, front, gap ++ (next ++ body), back, hfront,
      .cons ⟨hne, hgap⟩ hspaced, hback, ?_⟩
    simp only [List.append_assoc]

/-- **A line splits into words in one way.** -/
theorem words_eq_cons_iff : words text = word :: ws ↔ (∀ w ∈ word :: ws, Unbroken w)
    ∧ ∃ front body back, Blanks front ∧ Spaced (word :: ws) body ∧ Blanks back
      ∧ text = front ++ (body ++ back) := by
  constructor
  · intro h
    obtain ⟨hws, front, body, back, hfront, hspaced, hback, htext⟩ := exists_spaced h
    exact ⟨hws, front, word ++ body, back, hfront, hspaced, hback, htext⟩
  · rintro ⟨hws, front, body, back, hfront, hbody, hback, rfl⟩
    rw [words_blanks_append hfront, words_append_blanks hback, words_spaced hbody hws]

end ClosureMachine.Text
