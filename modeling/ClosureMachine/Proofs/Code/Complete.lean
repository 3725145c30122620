import ClosureMachine.Proofs.Code.Codec

/-!
# Streams of complete instructions

A stream is complete when it is instructions in full, laid end to end, each beginning with the byte
of an operation. To decode one instruction off the front of such a stream always succeeds and leaves
such a stream behind (`complete_iff`).
-/

namespace ClosureMachine

/-- Instructions in full, laid end to end: the byte of an operation, as many bytes as its operands
take, and so on. -/
inductive Complete : List UInt8 → Prop
  | nil : Complete []
  | cons (op : Opcode) (operands : List UInt8) {rest : List UInt8}
      (hlen : operands.length = op.operandBytes) (hrest : Complete rest) :
      Complete (op.toByte :: (operands ++ rest))

theorem Complete.append {front back : List UInt8} (hfront : Complete front)
    (hback : Complete back) : Complete (front ++ back) := by
  induction hfront with
  | nil => exact hback
  | cons op operands hlen _ ih =>
    rw [List.cons_append, List.append_assoc]
    exact .cons op operands hlen ih

/-- A stream is complete when an instruction can be decoded off its front and what is left is
complete. -/
theorem complete_iff {byte : UInt8} {bytes : List UInt8} :
    Complete (byte :: bytes) ↔ ∃ i, Instruction.decode (byte :: bytes) = .ok i
      ∧ Complete (bytes.drop i.opcode.operandBytes) := by
  constructor
  · intro h
    generalize hstream : byte :: bytes = stream at h ⊢
    cases h with
    | nil => cases hstream
    | @cons op operands rest hoperands hrest =>
      obtain ⟨rfl, rfl⟩ := List.cons.inj hstream
      have hlen : op.operandBytes ≤ (operands ++ rest).length := by
        rw [List.length_append]
        omega
      refine ⟨_, Instruction.decode_of_le hlen, ?_⟩
      rwa [← hoperands, List.drop_left]
  · rintro ⟨i, hi, hrest⟩
    obtain ⟨rest, hbytes, hlen, -⟩ := Instruction.decode_eq_ok_iff.mp hi
    obtain ⟨rfl, rfl⟩ := List.cons.inj hbytes
    rw [← List.take_append_drop i.opcode.operandBytes bytes]
    exact .cons i.opcode _ (List.length_take_of_le hlen) hrest

/-- What is encoded is complete. -/
theorem complete_of_encode {i : Instruction} {bytes : List UInt8} (h : i.encode = .ok bytes) :
    Complete bytes := by
  unfold Instruction.encode at h
  split at h
  · next harity =>
    cases h
    have hlen := Instruction.length_encodeOperands harity
    have hcomplete := Complete.cons i.opcode _ hlen .nil
    rwa [List.append_nil] at hcomplete
  · cases h

end ClosureMachine
