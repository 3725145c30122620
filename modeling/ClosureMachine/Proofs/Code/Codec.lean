import ClosureMachine.Instruction
import Mathlib.Algebra.GroupWithZero.Nat
import Mathlib.Data.List.Forall2
import Mathlib.Data.List.Induction

/-!
# Reading an instruction

What `Instruction.decode` makes of the bytes in front of it: the byte of an operation and then, at
their widths, its operands (`decode_eq_ok_iff`). To write what was read gives the bytes back
(`encode_of_decode`), and every operand that was read fits into its width (`fits_of_decode`). To read
what was written gives the instruction back if its operands do fit (`decode_of_encode`).
-/

namespace ClosureMachine

theorem BigEndian.decode_lt (bytes : List UInt8) : decode bytes < Nat.pow 256 bytes.length := by
  induction bytes using List.reverseRecOn with
  | nil => decide
  | append_singleton front last ih =>
    have hlast := last.toNat_lt
    have hpow : Nat.pow 256 (front.length + 1) = Nat.pow 256 front.length * 256 := rfl
    rw [decode_append_singleton, List.length_append, List.length_singleton, hpow]
    omega

namespace Opcode

theorem lookup_eq_ok_iff {byte : UInt8} {op : Opcode} :
    lookup byte = .ok op ↔ byte = op.toByte := by
  unfold lookup
  constructor
  · intro h
    split at h
    · next hop =>
      cases h
      exact (toByte_of_ofByte? hop).symm
    · cases h
  · rintro rfl
    rw [ofByte?_toByte]

theorem lookup_toByte (op : Opcode) : lookup op.toByte = .ok op :=
  lookup_eq_ok_iff.mpr rfl

/-- No operand is wider than two bytes. -/
theorem width_le_two (op : Opcode) : ∀ width ∈ op.widths, width ≤ 2 := by
  cases op <;> decide

theorem arity_le_two (op : Opcode) : op.arity ≤ 2 := by
  cases op <;> decide

theorem operandBytes_le_three (op : Opcode) : op.operandBytes ≤ 3 := by
  have h := op.size_le_four
  unfold size at h
  omega

end Opcode

namespace Instruction

/-! ### Operands -/

/-- Every operand fits into the width that the operation gives it. -/
def Fits (i : Instruction) : Prop :=
  List.Forall₂ (fun operand width => operand < Nat.pow 256 width) i.operands i.opcode.widths

instance (i : Instruction) : Decidable i.Fits :=
  inferInstanceAs (Decidable (List.Forall₂ _ _ _))

theorem fits_decodeOperands (widths : List Nat) (bytes : List UInt8) :
    List.Forall₂ (fun operand width => operand < Nat.pow 256 width) (decodeOperands widths bytes)
      widths := by
  induction widths generalizing bytes with
  | nil => exact .nil
  | cons width widths ih =>
    refine .cons (Nat.lt_of_lt_of_le (BigEndian.decode_lt _) ?_) (ih _)
    exact Nat.pow_le_pow_right (by decide) (List.length_take_le ..)

/-- Only as many bytes are read as the widths add up to. -/
theorem decodeOperands_take (widths : List Nat) (bytes : List UInt8) {count : Nat}
    (hcount : widths.foldr (· + ·) 0 ≤ count) :
    decodeOperands widths (bytes.take count) = decodeOperands widths bytes := by
  induction widths generalizing bytes count with
  | nil => rfl
  | cons width widths ih =>
    rw [List.foldr_cons] at hcount
    have hrest : (bytes.take count).drop width = (bytes.drop width).take (count - width) :=
      List.drop_take ..
    unfold decodeOperands
    rw [hrest, ih _ (by omega), List.take_take, Nat.min_eq_left (by omega)]

/-- To write what was read gives the bytes back. -/
theorem encodeOperands_decodeOperands (widths : List Nat) (bytes : List UInt8)
    (hlen : widths.foldr (· + ·) 0 ≤ bytes.length) :
    encodeOperands widths (decodeOperands widths bytes)
      = bytes.take (widths.foldr (· + ·) 0) := by
  induction widths generalizing bytes with
  | nil => rfl
  | cons width widths ih =>
    rw [List.foldr_cons] at hlen
    have hwidth : (bytes.take width).length = width := by
      rw [List.length_take]
      omega
    have hfirst : BigEndian.encode width (BigEndian.decode (bytes.take width))
        = bytes.take width := by
      conv_lhs => rw [← hwidth]
      rw [hwidth]
      have h := BigEndian.encode_decode (bytes.take width)
      rwa [hwidth] at h
    have hrest := ih (bytes.drop width) (by rw [List.length_drop]; omega)
    show BigEndian.encode width _ ++ encodeOperands widths _ = _
    rw [hfirst, hrest, List.foldr_cons, List.take_add]

theorem length_encodeOperands {widths operands : List Nat}
    (h : operands.length = widths.length) :
    (encodeOperands widths operands).length = widths.foldr (· + ·) 0 := by
  induction widths generalizing operands with
  | nil => rfl
  | cons width widths ih =>
    cases operands with
    | nil => cases h
    | cons operand operands =>
      have hrest := ih (Nat.succ.inj h)
      show (BigEndian.encode width operand ++ encodeOperands widths operands).length = _
      rw [List.length_append, BigEndian.length_encode, hrest, List.foldr_cons]

/-- Of what was written, the low bytes are read back. -/
theorem decodeOperands_encodeOperands {widths operands : List Nat}
    (h : operands.length = widths.length) (rest : List UInt8) :
    decodeOperands widths (encodeOperands widths operands ++ rest)
      = List.zipWith (fun operand width => operand % Nat.pow 256 width) operands widths := by
  induction widths generalizing operands with
  | nil => simp [decodeOperands]
  | cons width widths ih =>
    cases operands with
    | nil => cases h
    | cons operand operands =>
      have hbytes : encodeOperands (width :: widths) (operand :: operands) ++ rest
          = BigEndian.encode width operand ++ (encodeOperands widths operands ++ rest) :=
        List.append_assoc ..
      have hwidth := BigEndian.length_encode width operand
      unfold decodeOperands
      rw [hbytes, List.take_left' hwidth, List.drop_left' hwidth, ih (Nat.succ.inj h),
        BigEndian.decode_encode, List.zipWith_cons_cons]

/-- Operands that fit are their own low bytes. -/
theorem zipWith_mod_of_fits {widths operands : List Nat}
    (h : List.Forall₂ (fun operand width => operand < Nat.pow 256 width) operands widths) :
    List.zipWith (fun operand width => operand % Nat.pow 256 width) operands widths = operands := by
  induction h with
  | nil => rfl
  | cons hoperand _ ih => rw [List.zipWith_cons_cons, Nat.mod_eq_of_lt hoperand, ih]

/-- What is read back of an instruction that has been written: of each operand, the low bytes. -/
def truncated (i : Instruction) : Instruction where
  opcode := i.opcode
  operands :=
    List.zipWith (fun operand width => operand % Nat.pow 256 width) i.operands i.opcode.widths

@[simp]
theorem size_truncated (i : Instruction) : i.truncated.size = i.size :=
  rfl

theorem Fits.truncated_eq {i : Instruction} (h : i.Fits) : i.truncated = i := by
  unfold truncated
  rw [zipWith_mod_of_fits h]

/-! ### Instructions -/

theorem takeBytes_of_le {width : Nat} {bytes : List UInt8} (h : width ≤ bytes.length) :
    takeBytes width bytes = .ok (bytes.take width) := by
  unfold takeBytes
  rw [if_neg (by rw [List.length_take]; omega)]

theorem takeBytes_of_lt {width : Nat} {bytes : List UInt8} (h : bytes.length < width) :
    takeBytes width bytes = .error (.unexpectedEnd width bytes.length) := by
  unfold takeBytes
  rw [if_pos (by rw [List.length_take]; omega), List.take_of_length_le (by omega)]

theorem readNumber_of_le {width : Nat} {bytes : List UInt8} (h : width ≤ bytes.length) :
    readNumber width bytes = .ok (BigEndian.decode (bytes.take width)) := by
  unfold readNumber
  rw [takeBytes_of_le h]
  rfl

theorem readOperands_of_le {op : Opcode} {bytes : List UInt8} (h : op.operandBytes ≤ bytes.length) :
    readOperands op bytes = .ok (decodeOperands op.widths bytes) := by
  unfold readOperands
  rw [takeBytes_of_le h]
  exact congrArg Except.ok (decodeOperands_take _ _ (Nat.le_refl _))

theorem readOperands_of_lt {op : Opcode} {bytes : List UInt8} (h : bytes.length < op.operandBytes) :
    readOperands op bytes = .error (.unexpectedEnd op.operandBytes bytes.length) := by
  unfold readOperands
  rw [takeBytes_of_lt h]
  rfl

/-- Operands that are there are read one by one. -/
theorem readEach_of_le {widths : List Nat} {bytes : List UInt8} (h : widths.sum ≤ bytes.length) :
    readEach widths bytes = .ok (decodeOperands widths bytes, widths.sum) := by
  induction widths generalizing bytes with
  | nil => rfl
  | cons width widths ih =>
    rw [List.sum_cons] at h
    have hrest : widths.sum ≤ (bytes.drop width).length := by
      rw [List.length_drop]
      omega
    unfold readEach
    rw [readNumber_of_le (by omega), ih hrest, List.sum_cons]
    rfl

theorem readBlock_of_le {op : Opcode} {bytes : List UInt8} (h : op.operandBytes ≤ bytes.length) :
    readBlock op bytes = .ok (decodeOperands op.widths bytes, op.widths.sum) := by
  have hlen : op.widths.sum ≤ (bytes.take op.operandBytes).length := by
    rw [List.length_take, Nat.min_eq_left h]
    exact Nat.le_refl _
  have htake : decodeOperands op.widths (bytes.take op.operandBytes) = decodeOperands op.widths bytes :=
    decodeOperands_take _ _ (Nat.le_refl _)
  unfold readBlock
  rw [takeBytes_of_le h]
  show readEach op.widths (bytes.take op.operandBytes) = _
  rw [readEach_of_le hlen, htake]

theorem readBlock_of_lt {op : Opcode} {bytes : List UInt8} (h : bytes.length < op.operandBytes) :
    readBlock op bytes = .error (.unexpectedEnd op.operandBytes bytes.length) := by
  unfold readBlock
  rw [takeBytes_of_lt h]
  rfl

theorem readOperands_eq (op : Opcode) (bytes : List UInt8) :
    readOperands op bytes = Prod.fst <$> readBlock op bytes := by
  by_cases h : op.operandBytes ≤ bytes.length
  · rw [readOperands_of_le h, readBlock_of_le h]
    rfl
  · rw [readOperands_of_lt (Nat.lt_of_not_le h), readBlock_of_lt (Nat.lt_of_not_le h)]
    rfl

theorem decode_of_lookup_eq_error {byte : UInt8} {e : CodecError} (h : Opcode.lookup byte = .error e)
    (bytes : List UInt8) : decode (byte :: bytes) = .error e := by
  simp only [decode, h, bind, Except.bind]

theorem decode_of_lookup_eq_ok {byte : UInt8} {op : Opcode} (h : Opcode.lookup byte = .ok op)
    (bytes : List UInt8) : decode (byte :: bytes) = (⟨op, ·⟩) <$> readOperands op bytes := by
  simp only [decode, h, bind, Except.bind]
  cases readOperands op bytes <;> rfl

/-- An instruction in full, and what follows it. -/
theorem decode_of_le {op : Opcode} {bytes : List UInt8} (h : op.operandBytes ≤ bytes.length) :
    decode (op.toByte :: bytes) = .ok ⟨op, decodeOperands op.widths bytes⟩ := by
  rw [decode_of_lookup_eq_ok (Opcode.lookup_toByte op), readOperands_of_le h]
  rfl

/-- An instruction that is cut short. -/
theorem decode_of_lt {op : Opcode} {bytes : List UInt8} (h : bytes.length < op.operandBytes) :
    decode (op.toByte :: bytes) = .error (.unexpectedEnd op.operandBytes bytes.length) := by
  rw [decode_of_lookup_eq_ok (Opcode.lookup_toByte op), readOperands_of_lt h]
  rfl

theorem size_pos (i : Instruction) : 0 < i.size := by
  unfold size Opcode.size
  omega

/-- What is decoded lies within the bytes given, and else one of two things is wrong with them. -/
theorem decode_cases (bytes : List UInt8) :
    (∃ i, decode bytes = .ok i ∧ i.size ≤ bytes.length)
      ∨ (∃ byte, decode bytes = .error (.unknownOpcode byte))
      ∨ ∃ needed available, decode bytes = .error (.unexpectedEnd needed available) := by
  cases bytes with
  | nil => exact Or.inr (Or.inr ⟨1, 0, rfl⟩)
  | cons byte rest =>
    cases hop : Opcode.lookup byte with
    | error e =>
      have he : e = .unknownOpcode byte := by
        unfold Opcode.lookup at hop
        split at hop
        · cases hop
        · cases hop
          rfl
      exact Or.inr (Or.inl ⟨byte, he ▸ decode_of_lookup_eq_error hop rest⟩)
    | ok op =>
      rw [Opcode.lookup_eq_ok_iff.mp hop]
      by_cases hlen : op.operandBytes ≤ rest.length
      · refine Or.inl ⟨_, decode_of_le hlen, ?_⟩
        show 1 + op.operandBytes ≤ rest.length + 1
        omega
      · exact Or.inr (Or.inr ⟨_, _, decode_of_lt (Nat.lt_of_not_le hlen)⟩)

theorem decode_eq_ok_iff {bytes : List UInt8} {i : Instruction} :
    decode bytes = .ok i ↔ ∃ rest, bytes = i.opcode.toByte :: rest
      ∧ i.opcode.operandBytes ≤ rest.length
      ∧ i.operands = decodeOperands i.opcode.widths rest := by
  constructor
  · intro h
    cases bytes with
    | nil => cases h
    | cons byte rest =>
      cases hop : Opcode.lookup byte with
      | error e =>
        rw [decode_of_lookup_eq_error hop] at h
        cases h
      | ok op =>
        rw [Opcode.lookup_eq_ok_iff.mp hop] at h ⊢
        by_cases hlen : op.operandBytes ≤ rest.length
        · rw [decode_of_le hlen] at h
          cases h
          exact ⟨rest, rfl, hlen, rfl⟩
        · rw [decode_of_lt (Nat.lt_of_not_le hlen)] at h
          cases h
  · rintro ⟨rest, rfl, hlen, hoperands⟩
    rw [decode_of_le hlen, ← hoperands]

theorem fits_of_decode {bytes : List UInt8} {i : Instruction} (h : decode bytes = .ok i) :
    i.Fits := by
  obtain ⟨rest, -, -, hoperands⟩ := decode_eq_ok_iff.mp h
  unfold Fits
  rw [hoperands]
  exact fits_decodeOperands _ _

/-- No operand takes more than two bytes. -/
theorem Fits.first_lt {i : Instruction} (h : i.Fits) : i.first < Nat.pow 256 2 := by
  have hwidths := i.opcode.width_le_two
  unfold Fits at h
  unfold first
  cases hoperands : i.operands with
  | nil => decide
  | cons operand operands =>
    rw [hoperands] at h
    cases hw : i.opcode.widths with
    | nil =>
      rw [hw] at h
      cases h
    | cons width widths =>
      rw [hw] at h hwidths
      cases h with
      | cons hoperand _ =>
        have hwidth := hwidths width List.mem_cons_self
        exact Nat.lt_of_lt_of_le hoperand (Nat.pow_le_pow_right (by decide) hwidth)

/-- To write the instruction that was read gives its bytes back. -/
theorem encode_of_decode {bytes : List UInt8} {i : Instruction} (h : decode bytes = .ok i) :
    i.encode = .ok (bytes.take i.size) := by
  obtain ⟨rest, rfl, hlen, hoperands⟩ := decode_eq_ok_iff.mp h
  have harity : i.operands.length = i.opcode.arity := (fits_of_decode h).length_eq
  unfold encode
  rw [if_pos harity, hoperands, encodeOperands_decodeOperands _ _ hlen]
  show _ = Except.ok ((i.opcode.toByte :: rest).take (1 + i.opcode.operandBytes))
  rw [Nat.add_comm 1, List.take_succ_cons]
  rfl

/-- With as many operands as it takes, an instruction is written, and with no other number. -/
theorem encode_eq_ok_iff {i : Instruction} {bytes : List UInt8} :
    i.encode = .ok bytes ↔ i.operands.length = i.opcode.arity
      ∧ bytes = i.opcode.toByte :: encodeOperands i.opcode.widths i.operands := by
  unfold encode
  split <;> simp [*, eq_comm]

theorem length_of_encode {i : Instruction} {bytes : List UInt8} (h : i.encode = .ok bytes) :
    bytes.length = i.size := by
  obtain ⟨harity, rfl⟩ := encode_eq_ok_iff.mp h
  rw [List.length_cons, length_encodeOperands harity, Nat.add_comm]
  rfl

/-- An instruction is read as it was written, but for what its operands have above their widths,
whatever follows it. -/
theorem decode_of_encode_truncated {i : Instruction} {bytes : List UInt8} (h : i.encode = .ok bytes)
    (rest : List UInt8) : decode (bytes ++ rest) = .ok i.truncated := by
  obtain ⟨harity, rfl⟩ := encode_eq_ok_iff.mp h
  refine decode_eq_ok_iff.mpr ⟨_, rfl, ?_, (decodeOperands_encodeOperands harity rest).symm⟩
  show i.opcode.operandBytes ≤ (encodeOperands i.opcode.widths i.operands ++ rest).length
  rw [List.length_append, length_encodeOperands harity]
  exact Nat.le_add_right ..

/-- An instruction whose operands fit is read as it was written, whatever follows it. -/
theorem decode_of_encode {i : Instruction} {bytes : List UInt8} (hfits : i.Fits)
    (h : i.encode = .ok bytes) :
    bytes.length = i.size ∧ ∀ rest, decode (bytes ++ rest) = .ok i := by
  refine ⟨length_of_encode h, fun rest => ?_⟩
  rw [decode_of_encode_truncated h, hfits.truncated_eq]

/-- What is decoded does not depend on what follows. -/
theorem decode_append_of_ok {bytes : List UInt8} {i : Instruction} (h : decode bytes = .ok i)
    (more : List UInt8) : decode (bytes ++ more) = .ok i := by
  obtain ⟨rest, rfl, hlen, hoperands⟩ := decode_eq_ok_iff.mp h
  have hlen' : i.opcode.operandBytes ≤ (rest ++ more).length := by
    rw [List.length_append]
    omega
  have hsame : decodeOperands i.opcode.widths (rest ++ more)
      = decodeOperands i.opcode.widths rest := by
    have htake : decodeOperands i.opcode.widths ((rest ++ more).take i.opcode.operandBytes)
        = decodeOperands i.opcode.widths (rest ++ more) := decodeOperands_take _ _ (Nat.le_refl _)
    have htake' : decodeOperands i.opcode.widths (rest.take i.opcode.operandBytes)
        = decodeOperands i.opcode.widths rest := decodeOperands_take _ _ (Nat.le_refl _)
    rw [← htake, ← htake', List.take_append_of_le_length hlen]
  exact decode_eq_ok_iff.mpr ⟨rest ++ more, rfl, hlen', hoperands.trans hsame.symm⟩

/-- Nor does it that no operation has the first byte. -/
theorem decode_append_of_unknown {bytes : List UInt8} {byte : UInt8}
    (h : decode bytes = .error (.unknownOpcode byte)) (more : List UInt8) :
    decode (bytes ++ more) = .error (.unknownOpcode byte) := by
  cases bytes with
  | nil => cases h
  | cons first rest =>
    cases hop : Opcode.lookup first with
    | error e =>
      rw [decode_of_lookup_eq_error hop] at h
      rw [List.cons_append, decode_of_lookup_eq_error hop]
      exact h
    | ok op =>
      rw [Opcode.lookup_eq_ok_iff.mp hop] at h
      by_cases hlen : op.operandBytes ≤ rest.length
      · cases (decode_of_le hlen).symm.trans h
      · cases (decode_of_lt (Nat.lt_of_not_le hlen)).symm.trans h

/-- No instruction is longer than the four bytes that `decodeAt` looks at. -/
theorem decodeAt_eq (code : Code) (offset : Nat) :
    decodeAt code offset = decode (code.toList.drop offset) := by
  have htake : (code.extract offset (offset + 4)).toList = (code.toList.drop offset).take 4 := by
    rw [Array.toList_extract, List.extract_eq_take_drop, Nat.add_sub_cancel_left]
  unfold decodeAt
  rw [htake]
  cases code.toList.drop offset with
  | nil => rfl
  | cons byte bytes =>
    cases hop : Opcode.lookup byte with
    | error e =>
      rw [List.take_succ_cons, decode_of_lookup_eq_error hop, decode_of_lookup_eq_error hop]
    | ok op =>
      rw [List.take_succ_cons, decode_of_lookup_eq_ok hop, decode_of_lookup_eq_ok hop]
      unfold readOperands takeBytes
      rw [List.take_take, Nat.min_eq_left op.operandBytes_le_three]

/-- What is decoded lies within the stream. -/
theorem end_le_size {code : Code} {offset : Nat} {i : Instruction}
    (hdecode : decodeAt code offset = .ok i) : offset + i.size ≤ code.size := by
  have hpos := i.size_pos
  have hle : i.size ≤ (code.toList.drop offset).length := by
    rw [decodeAt_eq] at hdecode
    rcases decode_cases (code.toList.drop offset) with
      ⟨j, hj, hle⟩ | ⟨byte, hj⟩ | ⟨needed, available, hj⟩
    · cases hj.symm.trans hdecode
      exact hle
    · cases hj.symm.trans hdecode
    · cases hj.symm.trans hdecode
  rw [List.length_drop, Array.length_toList] at hle
  omega

end Instruction

end ClosureMachine
