import ClosureMachine.Proofs.Code.Codec

/-!
# Instructions and their bytes

To write and to read an instruction undo each other, and so do writing and reading a whole stream:
where one instruction ends and the next begins can be told from the operations alone.

* **`Instruction.encode_eq_ok_iff`** says which instructions are written, and
  **`Instruction.readBlock_of_encode`** what is read of them.
* **`Instruction.encodeRaw_of_readBlock`** writes what was read.
* **`Instruction.Encoded.unique`**: no bytes are the encodings of two different lists of instructions.
-/

namespace ClosureMachine.Instruction

/-! ## One instruction -/

theorem readBlock_eq_ok_iff {op : Opcode} {bytes : List UInt8} {operands : List Nat} {read : Nat} :
    readBlock op bytes = .ok (operands, read) ↔ op.operandBytes ≤ bytes.length
      ∧ operands = decodeOperands op.widths bytes ∧ read = op.widths.sum := by
  by_cases h : op.operandBytes ≤ bytes.length
  · simp [readBlock_of_le h, h, eq_comm]
  · simp [readBlock_of_lt (Nat.lt_of_not_le h), h]

/-- Of the operands that were written the low bytes are read, whatever follows them. -/
theorem readBlock_of_encode {op : Opcode} {operands : List Nat} {bytes : List UInt8}
    (h : encode ⟨op, operands⟩ = .ok bytes) :
    ∃ block, bytes = op.toByte :: block ∧ ∀ rest, readBlock op (block ++ rest)
      = .ok (List.zipWith (fun operand width => operand % Nat.pow 256 width) operands op.widths,
        op.widths.sum) := by
  obtain ⟨harity, rfl⟩ := encode_eq_ok_iff.mp h
  refine ⟨_, rfl, fun rest => readBlock_eq_ok_iff.mpr ⟨?_, ?_, rfl⟩⟩
  · rw [List.length_append, length_encodeOperands harity]
    exact Nat.le_add_right ..
  · exact (decodeOperands_encodeOperands harity rest).symm

/-- To write the operands that were read, behind the same byte, gives back the bytes that were read. -/
theorem encodeRaw_of_readBlock {op : Opcode} {byte : UInt8} {bytes : List UInt8}
    {operands : List Nat} {read : Nat} (hop : Opcode.lookup byte = .ok op)
    (hread : readBlock op bytes = .ok (operands, read)) :
    encodeRaw byte operands = .ok ((byte :: bytes).take (1 + read)) := by
  obtain ⟨hlen, rfl, rfl⟩ := readBlock_eq_ok_iff.mp hread
  have hdecode : decode (byte :: bytes) = .ok ⟨op, decodeOperands op.widths bytes⟩ := by
    rw [Opcode.lookup_eq_ok_iff.mp hop]
    exact decode_of_le hlen
  unfold encodeRaw
  rw [hop]
  exact encode_of_decode hdecode

/-! ## Many instructions -/

/-- The encodings of some instructions, one for each. -/
abbrev Encoded (is : List Instruction) (chunks : List (List UInt8)) : Prop :=
  List.Forall₂ (fun i bytes => encode i = .ok bytes) is chunks

theorem ne_nil_of_encode {i : Instruction} {bytes : List UInt8} (h : i.encode = .ok bytes) :
    bytes ≠ [] := by
  obtain ⟨-, rfl⟩ := encode_eq_ok_iff.mp h
  exact List.cons_ne_nil _ _

/-- Instructions whose operands fit can be written. -/
theorem exists_encoded {is : List Instruction} (h : ∀ i ∈ is, i.Fits) :
    ∃ chunks, Encoded is chunks := by
  induction is with
  | nil => exact ⟨[], .nil⟩
  | cons i is ih =>
    obtain ⟨hi, his⟩ := List.forall_mem_cons.mp h
    obtain ⟨chunks, hchunks⟩ := ih his
    exact ⟨_ :: chunks, .cons (encode_eq_ok_iff.mpr ⟨hi.length_eq, rfl⟩) hchunks⟩

/-- **A stream is the encoding of one list of instructions only.** -/
theorem Encoded.unique {is js : List Instruction} {chunks chunks' : List (List UInt8)}
    (h : Encoded is chunks) (h' : Encoded js chunks') (his : ∀ i ∈ is, i.Fits)
    (hjs : ∀ j ∈ js, j.Fits) (hbytes : chunks.flatten = chunks'.flatten) : is = js := by
  induction h generalizing js chunks' with
  | nil =>
    cases h' with
    | nil => rfl
    | cons hj _ => simp [ne_nil_of_encode hj] at hbytes
  | @cons i bytes is chunks hi _ ih =>
    cases h' with
    | nil => simp [ne_nil_of_encode hi] at hbytes
    | @cons j bytes' js chunks' hj h' =>
      obtain ⟨hfits, hrest⟩ := List.forall_mem_cons.mp his
      obtain ⟨hfits', hrest'⟩ := List.forall_mem_cons.mp hjs
      rw [List.flatten_cons, List.flatten_cons] at hbytes
      -- the instruction in front is what is read there, and it takes up the same bytes in both
      have hread := (decode_of_encode hfits hi).2 chunks.flatten
      rw [hbytes, (decode_of_encode hfits' hj).2 chunks'.flatten] at hread
      obtain rfl := Except.ok.inj hread
      obtain rfl := Except.ok.inj (hi.symm.trans hj)
      rw [ih h' hrest hrest' (List.append_cancel_left hbytes)]

/-- **To write and to read undo each other.** An instruction is written if it has as many operands as
its operation takes. Its byte comes first, and of each operand the low bytes are read back, whatever
follows. What can be read is written back byte for byte. So a stream can be read in one way only. -/
theorem encode_decode_exact :
    (∀ (op : Opcode) (operands : List Nat),
      ((∃ bytes, encode ⟨op, operands⟩ = .ok bytes) ↔ operands.length = op.arity)
      ∧ ∀ bytes, encode ⟨op, operands⟩ = .ok bytes →
        bytes.length = 1 + op.widths.sum ∧ Opcode.lookup op.toByte = .ok op
        ∧ ∃ block, bytes = op.toByte :: block ∧ ∀ rest, readBlock op (block ++ rest)
          = .ok (List.zipWith (fun operand width => operand % Nat.pow 256 width) operands op.widths,
            op.widths.sum))
    ∧ (∀ (op : Opcode) (byte : UInt8) (bytes : List UInt8) (operands : List Nat) (read : Nat),
      Opcode.lookup byte = .ok op → readBlock op bytes = .ok (operands, read) →
      encodeRaw byte operands = .ok ((byte :: bytes).take (1 + read)))
    ∧ (∀ is : List Instruction, (∀ i ∈ is, i.Fits) → ∃ chunks, Encoded is chunks)
    ∧ ∀ (is js : List Instruction) (chunks chunks' : List (List UInt8)), (∀ i ∈ is, i.Fits) →
      (∀ j ∈ js, j.Fits) → Encoded is chunks → Encoded js chunks' →
      chunks.flatten = chunks'.flatten → is = js := by
  refine ⟨fun op operands => ⟨?_, fun bytes h => ?_⟩, fun _ _ _ _ _ => encodeRaw_of_readBlock,
    fun _ => exists_encoded, fun _ _ _ _ his hjs h h' => h.unique h' his hjs⟩
  · simp only [encode_eq_ok_iff, exists_and_left, exists_eq, and_true]
  · exact ⟨length_of_encode h, Opcode.lookup_toByte op, readBlock_of_encode h⟩

/-- A closure with operands of both widths, the first of them too large; and two streams that begin with
the same closure and go on in different ways. -/
theorem encode_decode_exact_closure :
    (encode ⟨.makeClosure, [65536 + 258, 3]⟩ = .ok [18, 1, 2, 3]
      ∧ readBlock .makeClosure ([1, 2, 3] ++ [40]) = .ok ([258, 3], 3)
      ∧ encodeRaw 18 [258, 3] = .ok ([18, 1, 2, 3, 40].take (1 + 3)))
    ∧ ([[18, 1, 2, 3], [40, 20, 20]] : List (List UInt8)).flatten
      ≠ [[18, 1, 2, 3], [20], [20], [20]].flatten := by
  have hencode : encode ⟨.makeClosure, [65536 + 258, 3]⟩ = .ok [18, 1, 2, 3] := by decide
  obtain ⟨hwrite, hback, -, hunique⟩ := encode_decode_exact
  obtain ⟨-, hop, block, hbytes, hread⟩ := (hwrite _ _).2 _ hencode
  obtain ⟨-, rfl⟩ := List.cons.inj hbytes
  refine ⟨⟨hencode, hread [40], hback _ _ _ _ _ hop (hread [40])⟩, fun hflatten => ?_⟩
  have hjump : Encoded [⟨.makeClosure, [258, 3]⟩, ⟨.jumpIfFalse, [5140]⟩]
      [[18, 1, 2, 3], [40, 20, 20]] := .cons rfl (.cons rfl .nil)
  have hnoops : Encoded [⟨.makeClosure, [258, 3]⟩, ⟨.noop, []⟩, ⟨.noop, []⟩, ⟨.noop, []⟩]
      [[18, 1, 2, 3], [20], [20], [20]] := .cons rfl (.cons rfl (.cons rfl (.cons rfl .nil)))
  cases hunique _ _ _ _ (by decide) (by decide) hjump hnoops hflatten

end ClosureMachine.Instruction
