/-!
# Decimal numerals

Numbers as decimal digits: written without leading zeros, written padded with zeros to a least
width, and read back. Reading undoes writing (`toNat_ofNat`), padded or not (`toNat_padded`).
-/

namespace ClosureMachine.Decimal

/-- The decimal digits of a natural number, without leading zeros. -/
def ofNat (n : Nat) : List Char :=
  Nat.toDigits 10 n

/-- The decimal digits of a natural number, with zeros in front up to `width` digits. -/
def padded (width n : Nat) : List Char :=
  (ofNat n).leftpad width '0'

/-- The decimal digits of an integer, after a minus if it is negative. -/
def ofInt (n : Int) : List Char :=
  if n < 0 then '-' :: ofNat n.natAbs else ofNat n.natAbs

/-- The number that a sequence of decimal digits denotes. -/
def toNat (digits : List Char) : Nat :=
  Nat.ofDigitChars 10 digits 0

/-- A numeral: at least one character, and nothing but digits. -/
def isNumeral (text : List Char) : Bool :=
  !text.isEmpty && text.all Char.isDigit

/-! ### Reading undoes writing -/

@[simp]
theorem toNat_ofNat (n : Nat) : toNat (ofNat n) = n :=
  Nat.ofDigitChars_toDigits (by decide) (by decide)

/-- Zeros in front do not count. -/
@[simp]
theorem toNat_zero_cons (digits : List Char) : toNat ('0' :: digits) = toNat digits := by
  simp [toNat, Nat.ofDigitChars]

@[simp]
theorem toNat_padded (width n : Nat) : toNat (padded width n) = n := by
  have h : ∀ k, toNat (List.replicate k '0' ++ ofNat n) = n := by
    intro k
    induction k with
    | zero => simp
    | succ k ih => simpa [List.replicate_succ] using ih
  exact h _

theorem isNumeral_ofNat (n : Nat) : isNumeral (ofNat n) = true := by
  have hne : Nat.toDigits 10 n ≠ [] := Nat.toDigits_ne_nil
  simp only [isNumeral, ofNat, Bool.and_eq_true, Bool.not_eq_true', List.isEmpty_eq_false_iff,
    ne_eq, hne, not_false_eq_true, List.all_eq_true, true_and]
  exact fun c hc => Nat.isDigit_of_mem_toDigits (by decide) (by decide) hc

end ClosureMachine.Decimal
