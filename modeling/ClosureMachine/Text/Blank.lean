import ClosureMachine.Text.CharRange

/-!
# Blanks and white space

Inside a line of assembly only the space and the tab are blank. Texts are trimmed of all that has
the property White_Space, which is a wider class (`isWhiteSpace_of_isBlank`).
-/

namespace ClosureMachine.Text

/-- A space or a tab. -/
def isBlank (c : Char) : Bool :=
  c == ' ' || c == '\t'

/-- The characters with the property White_Space. -/
def whiteSpace : List CharRange :=
  [(0x9, 0xd), (0x20, 0x20), (0x85, 0x85), (0xa0, 0xa0), (0x1680, 0x1680), (0x2000, 0x200a),
   (0x2028, 0x2029), (0x202f, 0x202f), (0x205f, 0x205f), (0x3000, 0x3000)]

def isWhiteSpace (c : Char) : Bool :=
  CharRange.covers whiteSpace c

/-- A text without the white space at its two ends. -/
def trim (text : List Char) : List Char :=
  ((text.dropWhile isWhiteSpace).reverse.dropWhile isWhiteSpace).reverse

theorem isWhiteSpace_of_isBlank {c : Char} (h : isBlank c = true) : isWhiteSpace c = true := by
  simp only [isBlank, Bool.or_eq_true, beq_iff_eq] at h
  rcases h with rfl | rfl <;> decide

/-- Letters and digits are no white space. -/
theorem isWhiteSpace_of_isAlphanum {c : Char} (h : c.isAlphanum = true) :
    isWhiteSpace c = false := by
  have hrange : 32 < c.toNat ∧ c.toNat < 133 := by
    change ((decide (c.val ≥ 65 ∧ c.val ≤ 90) || (decide (c.val ≥ 97) && decide (c.val ≤ 122)))
      || (decide (c.val ≥ 48) && decide (c.val ≤ 57))) = true at h
    simp only [Bool.or_eq_true, Bool.and_eq_true, decide_eq_true_eq, UInt32.le_iff_toNat_le,
      ge_iff_le] at h
    change 32 < c.val.toNat ∧ c.val.toNat < 133
    change ((65 ≤ c.val.toNat ∧ c.val.toNat ≤ 90) ∨ (97 ≤ c.val.toNat ∧ c.val.toNat ≤ 122))
      ∨ (48 ≤ c.val.toNat ∧ c.val.toNat ≤ 57) at h
    omega
  have hrange' : whiteSpace.find? (fun range => decide (c.toNat ≤ range.2)) = some (133, 133) := by
    have h13 : ¬c.toNat ≤ 13 := by omega
    have h32 : ¬c.toNat ≤ 32 := by omega
    have h133 : c.toNat ≤ 133 := by omega
    simp [whiteSpace, List.find?, h13, h32, h133]
  unfold isWhiteSpace CharRange.covers
  rw [hrange']
  simp only [CharRange.has, Option.any_some, Bool.and_eq_false_iff, decide_eq_false_iff_not]
  omega

theorem isBlank_of_isAlphanum {c : Char} (h : c.isAlphanum = true) : isBlank c = false := by
  refine Bool.eq_false_iff.mpr fun hblank => ?_
  have hspace := isWhiteSpace_of_isAlphanum h
  rw [isWhiteSpace_of_isBlank hblank] at hspace
  cases hspace

theorem dropWhile_of_head? {text : List Char} {p : Char → Bool}
    (h : ∀ c ∈ text.head?, p c = false) : text.dropWhile p = text := by
  cases text with
  | nil => rfl
  | cons c rest => rw [List.dropWhile_cons_of_neg (by simp [h c rfl])]

theorem takeWhile_of_head? {text : List Char} {p : Char → Bool}
    (h : ∀ c ∈ text.head?, p c = false) : text.takeWhile p = [] := by
  cases text with
  | nil => rfl
  | cons c rest => exact List.takeWhile_cons_of_neg (by simp [h c rfl])

/-- A text without white space at its two ends is as trimmed as it can be. -/
theorem trim_eq_self {text : List Char} (hhead : ∀ c ∈ text.head?, isWhiteSpace c = false)
    (hlast : ∀ c ∈ text.getLast?, isWhiteSpace c = false) : trim text = text := by
  unfold trim
  rw [dropWhile_of_head? hhead, dropWhile_of_head? (by simpa using hlast), List.reverse_reverse]

theorem mem_dropWhile {c : Char} {text : List Char} {p : Char → Bool} (hmem : c ∈ text)
    (hc : p c = false) : c ∈ text.dropWhile p := by
  rw [← List.takeWhile_append_dropWhile (p := p) (l := text)] at hmem
  rcases List.mem_append.mp hmem with hfront | hback
  · rw [List.all_eq_true.mp List.all_takeWhile c hfront] at hc
    cases hc
  · exact hback

/-- Only white space is trimmed off. -/
theorem mem_trim {c : Char} {text : List Char} (hmem : c ∈ text) (hc : isWhiteSpace c = false) :
    c ∈ trim text := by
  have hfront := mem_dropWhile hmem hc
  exact List.mem_reverse.mpr (mem_dropWhile (List.mem_reverse.mpr hfront) hc)

end ClosureMachine.Text
