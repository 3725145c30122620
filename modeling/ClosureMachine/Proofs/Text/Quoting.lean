import ClosureMachine.Text.Blank
import ClosureMachine.Text.Decimal
import ClosureMachine.Text.Quoted
import Mathlib.Data.List.TakeWhile

/-!
# Where a number and a quoted string end

A text that begins with a number, or with a quoted string, can be taken apart in one way only: the number
ends before the first character that is no digit (`Decimal.ofInt_cancel`), and the string at the first
quote that is not escaped (`Quoted.quote_cancel`). So whatever is written behind them, be it more of the
same, is told from them.
-/

namespace ClosureMachine

/-- Two stretches of characters of one class are the same, if what stands behind each is not of that
class and the whole texts are the same. -/
theorem append_cancel_of_all {p : Char → Bool} {x y r s : List Char} (hx : ∀ c ∈ x, p c = true)
    (hy : ∀ c ∈ y, p c = true) (hr : ∀ c ∈ r.head?, p c = false) (hs : ∀ c ∈ s.head?, p c = false)
    (h : x ++ r = y ++ s) : x = y ∧ r = s := by
  have htake := congrArg (List.takeWhile p) h
  rw [List.takeWhile_append_of_pos hx, List.takeWhile_append_of_pos hy,
    Text.takeWhile_of_head? hr, Text.takeWhile_of_head? hs, List.append_nil, List.append_nil] at htake
  subst htake
  exact ⟨rfl, List.append_cancel_left h⟩

namespace Decimal

theorem isDigit_of_mem_ofNat {n : Nat} {c : Char} (h : c ∈ ofNat n) : c.isDigit = true :=
  Nat.isDigit_of_mem_toDigits (by decide) (by decide) h

/-- A numeral that is written by itself ends here: what follows begins with no digit. -/
def Ends (rest : List Char) : Prop :=
  ∀ c ∈ rest.head?, c.isDigit = false

theorem ofNat_cancel {n m : Nat} {r s : List Char} (hr : Ends r) (hs : Ends s)
    (h : ofNat n ++ r = ofNat m ++ s) : n = m ∧ r = s := by
  obtain ⟨hdigits, hrest⟩ := append_cancel_of_all (fun _ => isDigit_of_mem_ofNat)
    (fun _ => isDigit_of_mem_ofNat) hr hs h
  refine ⟨?_, hrest⟩
  rw [← toNat_ofNat n, hdigits, toNat_ofNat]

theorem exists_digit_cons (n : Nat) : ∃ c digits, ofNat n = c :: digits ∧ c.isDigit = true := by
  obtain ⟨c, digits, hdigits⟩ := List.exists_cons_of_ne_nil (Nat.toDigits_ne_nil (b := 10) (n := n))
  change ofNat n = c :: digits at hdigits
  exact ⟨c, digits, hdigits, isDigit_of_mem_ofNat (n := n) (hdigits ▸ List.mem_cons_self)⟩

/-- A number that is not negative does not begin with a minus. -/
theorem ofNat_ne_minus_cons (n : Nat) (r s : List Char) : ofNat n ++ r ≠ '-' :: s := by
  intro h
  obtain ⟨c, digits, hdigits, hc⟩ := exists_digit_cons n
  rw [hdigits] at h
  rw [(List.cons.inj h).1] at hc
  cases hc

theorem ofInt_cancel {n m : Int} {r s : List Char} (hr : Ends r) (hs : Ends s)
    (h : ofInt n ++ r = ofInt m ++ s) : n = m ∧ r = s := by
  unfold ofInt at h
  split at h
  · split at h
    · obtain ⟨habs, hrest⟩ := ofNat_cancel hr hs (List.cons.inj h).2
      exact ⟨by omega, hrest⟩
    · exact absurd h.symm (ofNat_ne_minus_cons _ _ _)
  · split at h
    · exact absurd h (ofNat_ne_minus_cons _ _ _)
    · obtain ⟨habs, hrest⟩ := ofNat_cancel hr hs h
      exact ⟨by omega, hrest⟩

end Decimal

namespace Quoted

/-! ### Hexadecimal digits -/

theorem digitChar_inj : ∀ i j : Fin 16, Nat.digitChar i = Nat.digitChar j → i = j := by
  decide

theorem digitChar_ne_brace : ∀ i : Fin 16, (Nat.digitChar i != '\x7d') = true := by
  decide

/-- Different numbers are written differently. -/
theorem toDigits_inj {n m : Nat} (h : Nat.toDigits 16 n = Nat.toDigits 16 m) : n = m := by
  induction n using Nat.strongRecOn generalizing m with
  | ind n ih =>
    have hdigit : ∀ {i j : Nat}, i < 16 → j < 16 → [Nat.digitChar i] = [Nat.digitChar j] → i = j :=
      fun hi hj hij =>
        congrArg Fin.val (digitChar_inj ⟨_, hi⟩ ⟨_, hj⟩ (List.singleton_inj.mp hij))
    have hlong : ∀ {k : Nat} {c d : Char}, Nat.toDigits 16 k ++ [d] ≠ [c] := fun hcd =>
      Nat.toDigits_ne_nil (List.append_inj' (hcd.trans (List.nil_append _).symm) rfl).1
    rw [Nat.toDigits_eq_if (by decide), Nat.toDigits_eq_if (n := m) (by decide)] at h
    split at h
    · next hn =>
      split at h
      · next hm => exact hdigit hn hm h
      · exact absurd h.symm hlong
    · next hn =>
      split at h
      · exact absurd h hlong
      · next hm =>
        -- the last digit, and the number without it
        obtain ⟨hfront, hlast⟩ := List.append_inj' h rfl
        have hquot := ih (n / 16) (by omega) hfront
        have hrem := hdigit (Nat.mod_lt n (by decide)) (Nat.mod_lt m (by decide)) hlast
        omega

theorem ne_brace_of_mem_toDigits {n : Nat} :
    ∀ c ∈ Nat.toDigits 16 n, (c != '\x7d') = true := by
  induction n using Nat.strongRecOn with
  | ind n ih =>
    intro c hc
    rw [Nat.toDigits_eq_if (by decide)] at hc
    split at hc
    · next hn =>
      rw [List.mem_singleton.mp hc]
      exact digitChar_ne_brace ⟨n, hn⟩
    · rcases List.mem_append.mp hc with hc | hc
      · exact ih (n / 16) (by omega) c hc
      · rw [List.mem_singleton.mp hc]
        exact digitChar_ne_brace ⟨n % 16, Nat.mod_lt n (by decide)⟩

theorem codePoint_cancel {c d : Char} {r s : List Char} (h : codePoint c ++ r = codePoint d ++ s) :
    c = d ∧ r = s := by
  have hbrace : ∀ r : List Char, ∀ c ∈ ('\x7d' :: r).head?, (c != '\x7d') = false := by
    rintro r c ⟨⟩
    rfl
  simp only [codePoint, List.append_assoc, List.cons_append, List.nil_append, List.cons.injEq,
    true_and] at h
  obtain ⟨hdigits, hrest⟩ := append_cancel_of_all ne_brace_of_mem_toDigits ne_brace_of_mem_toDigits
    (hbrace r) (hbrace s) h
  exact ⟨Char.toNat_inj.mp (toDigits_inj hdigits), (List.cons.inj hrest).2⟩

/-! ### Escapes -/

/-- The character that a letter stands for behind a backslash. -/
def ofLetter : Char → Char
  | '0' => '\x00'
  | 't' => '\t'
  | 'r' => '\r'
  | 'n' => '\n'
  | c => c

/-- A character is written as a letter behind a backslash, by its code point, or as it is. -/
theorem escape_cases (c : Char) :
    (∃ letter, letter ≠ 'u' ∧ escape c = ['\\', letter] ∧ ofLetter letter = c)
      ∨ escape c = codePoint c ∨ escape c = [c] ∧ c ≠ '\\' ∧ c ≠ '\"' := by
  unfold escape
  split
  · exact Or.inl ⟨'0', by decide, rfl, rfl⟩
  · exact Or.inl ⟨'t', by decide, rfl, rfl⟩
  · exact Or.inl ⟨'r', by decide, rfl, rfl⟩
  · exact Or.inl ⟨'n', by decide, rfl, rfl⟩
  · exact Or.inl ⟨'\"', by decide, rfl, rfl⟩
  · exact Or.inl ⟨'\\', by decide, rfl, rfl⟩
  · next hquote hslash =>
    split
    · exact Or.inr (Or.inl rfl)
    · exact Or.inr (Or.inr ⟨rfl, hslash, hquote⟩)

/-- No escape begins with a quote. -/
theorem escape_ne_quote (c : Char) (r s : List Char) : escape c ++ r ≠ '\"' :: s := by
  rcases escape_cases c with ⟨letter, -, h, -⟩ | h | ⟨h, -, hquote⟩
  · simp [h]
  · simp [h, codePoint]
  · simp [h, hquote]

theorem escape_cancel {c d : Char} {r s : List Char} (h : escape c ++ r = escape d ++ s) :
    c = d ∧ r = s := by
  rcases escape_cases c with ⟨letter, hu, hc, hletter⟩ | hc | ⟨hc, hslash, -⟩
  · rcases escape_cases d with ⟨letter', hu', hd, hletter'⟩ | hd | ⟨hd, hslash', -⟩
    · rw [hc, hd] at h
      obtain ⟨hsame, hrest⟩ := List.cons.inj (List.cons.inj h).2
      exact ⟨by rw [← hletter, hsame, hletter'], hrest⟩
    · rw [hc, hd] at h
      exact absurd (List.cons.inj (List.cons.inj h).2).1 hu
    · rw [hc, hd] at h
      exact absurd (List.cons.inj h).1.symm hslash'
  · rcases escape_cases d with ⟨letter', hu', hd, -⟩ | hd | ⟨hd, hslash', -⟩
    · rw [hc, hd] at h
      exact absurd (List.cons.inj (List.cons.inj h).2).1.symm hu'
    · rw [hc, hd] at h
      exact codePoint_cancel h
    · rw [hc, hd] at h
      exact absurd (List.cons.inj h).1.symm hslash'
  · rcases escape_cases d with ⟨letter', -, hd, -⟩ | hd | ⟨hd, -, -⟩
    · rw [hc, hd] at h
      exact absurd (List.cons.inj h).1 hslash
    · rw [hc, hd] at h
      exact absurd (List.cons.inj h).1 hslash
    · rw [hc, hd] at h
      exact List.cons.inj h

/-- **A quoted string ends where it ends**, whatever is in it and whatever follows. -/
theorem quote_cancel {x y r s : List Char} (h : quote x ++ r = quote y ++ s) : x = y ∧ r = s := by
  have hbody : x.flatMap escape ++ '\"' :: r = y.flatMap escape ++ '\"' :: s := by
    simpa [quote] using h
  clear h
  induction x generalizing y with
  | nil =>
    cases y with
    | nil => exact ⟨rfl, (List.cons.inj hbody).2⟩
    | cons d y =>
      rw [List.flatMap_cons, List.append_assoc] at hbody
      exact absurd hbody.symm (escape_ne_quote d _ _)
  | cons c x ih =>
    cases y with
    | nil =>
      rw [List.flatMap_cons, List.append_assoc] at hbody
      exact absurd hbody (escape_ne_quote c _ _)
    | cons d y =>
      rw [List.flatMap_cons, List.flatMap_cons, List.append_assoc, List.append_assoc] at hbody
      obtain ⟨rfl, hrest⟩ := escape_cancel hbody
      obtain ⟨rfl, hbehind⟩ := ih hrest
      exact ⟨rfl, hbehind⟩

end Quoted

end ClosureMachine
