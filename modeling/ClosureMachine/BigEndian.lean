/-!
# Big endian numbers

Natural numbers as bytes, the most significant byte first, at a fixed width. Writing keeps the
low bytes only, so reading gives the number back modulo `256 ^ width` (`decode_encode`), and
writing what was read gives the bytes back (`encode_decode`).
-/

namespace ClosureMachine.BigEndian

/-- The low `width` bytes of a number, most significant first. -/
def encode : Nat → Nat → List UInt8
  | 0, _ => []
  | width + 1, n => encode width (n / 256) ++ [n.toUInt8]

/-- The number that a sequence of bytes denotes. -/
def decode (bytes : List UInt8) : Nat :=
  bytes.foldl (fun n byte => 256 * n + byte.toNat) 0

@[simp]
theorem length_encode (width n : Nat) : (encode width n).length = width := by
  induction width generalizing n with
  | zero => rfl
  | succ width ih => simp [encode, ih]

@[simp]
theorem decode_append_singleton (bytes : List UInt8) (byte : UInt8) :
    decode (bytes ++ [byte]) = 256 * decode bytes + byte.toNat := by
  simp [decode]

theorem decode_encode (width n : Nat) : decode (encode width n) = n % Nat.pow 256 width := by
  induction width generalizing n with
  | zero => simp [encode, decode, Nat.mod_one]
  | succ width ih =>
    have hmod : n % Nat.pow 256 (width + 1) = n % 256 + 256 * (n / 256 % Nat.pow 256 width) := by
      rw [show Nat.pow 256 (width + 1) = 256 * Nat.pow 256 width from Nat.mul_comm .., Nat.mod_mul]
    simp only [encode, decode_append_singleton, ih, hmod, Nat.toUInt8, UInt8.toNat_ofNat']
    omega

theorem encode_decode (bytes : List UInt8) : encode bytes.length (decode bytes) = bytes := by
  induction h : bytes.length generalizing bytes with
  | zero => simp [List.length_eq_zero_iff.1 h, encode]
  | succ k ih =>
    have hne : bytes ≠ [] := by
      rintro rfl
      simp at h
    obtain ⟨front, last, rfl⟩ : ∃ front last, bytes = front ++ [last] :=
      ⟨_, _, (List.dropLast_concat_getLast hne).symm⟩
    have hlast : (256 * decode front + last.toNat) / 256 = decode front := by
      have := last.toNat_lt
      omega
    have hbyte : (256 * decode front + last.toNat).toUInt8 = last := by
      apply UInt8.toNat_inj.1
      have := last.toNat_lt
      simp only [Nat.toUInt8, UInt8.toNat_ofNat']
      omega
    simp only [encode, decode_append_singleton, hlast, hbyte]
    rw [ih front (by simpa using h)]

end ClosureMachine.BigEndian
