import ClosureMachine.Proofs.Code.Complete

/-!
# Instruction boundaries

The boundaries of a stream are the offsets at which its instructions begin, and the offset at which
the last of them ends. They are found by reading the stream from its front.

* **`Boundary.complete_drop`**: what is left of a complete stream at a boundary is complete again.
* **`Boundary.end_or_decodes`**: so the stream is at its end there, or an instruction can be decoded.
* **`JumpsLand`** says of a stream that its jumps go to boundaries only. Then whoever starts at the
  front, steps over instructions and follows jumps never leaves the boundaries.
* **`mem_boundaries_iff`**: a walk over the stream lists its boundaries, so that both can be decided.
-/

namespace ClosureMachine

/-- An instruction of the stream begins at the offset, or the last of them ends there. -/
inductive Boundary (code : Code) : Nat → Prop
  | start : Boundary code 0
  | next {offset : Nat} {i : Instruction} (h : Boundary code offset)
      (hdecode : Instruction.decodeAt code offset = .ok i) : Boundary code (offset + i.size)

/-- Whether an operation goes on at a target of its own. -/
def Opcode.jumps : Opcode → Bool
  | jump | jumpIfFalse => true
  | _ => false

/-- Each jump in the stream goes to where an instruction of the stream begins, or to the end. -/
def JumpsLand (code : Code) : Prop :=
  ∀ (offset : Nat) (i : Instruction), Boundary code offset →
    Instruction.decodeAt code offset = .ok i → i.opcode.jumps = true → Boundary code i.first

/-- A complete stream without its first instruction is complete. -/
theorem Complete.drop_size {bytes : List UInt8} {i : Instruction} (h : Complete bytes)
    (hdecode : Instruction.decode bytes = .ok i) : Complete (bytes.drop i.size) := by
  cases bytes with
  | nil => cases hdecode
  | cons byte rest =>
    obtain ⟨j, hj, hrest⟩ := complete_iff.mp h
    obtain rfl : j = i := Except.ok.inj (hj.symm.trans hdecode)
    have hsize : j.size = j.opcode.operandBytes + 1 := Nat.add_comm ..
    rw [hsize, List.drop_succ_cons]
    exact hrest

namespace Boundary

variable {code : Code} {offset : Nat}

theorem complete_drop (hcode : Complete code.toList) (h : Boundary code offset) :
    Complete (code.toList.drop offset) := by
  induction h with
  | start => exact hcode
  | @next offset i _ hdecode ih =>
    rw [Instruction.decodeAt_eq] at hdecode
    have hrest := ih.drop_size hdecode
    rwa [List.drop_drop] at hrest

theorem le_size (h : Boundary code offset) : offset ≤ code.size := by
  cases h with
  | start => exact Nat.zero_le _
  | next _ hdecode => exact Instruction.end_le_size hdecode

/-- Nothing that stands at a boundary of a complete stream fails to be decoded. -/
theorem end_or_decodes (hcode : Complete code.toList) (h : Boundary code offset) :
    offset = code.size ∨ ∃ i, Instruction.decodeAt code offset = .ok i := by
  have hle := h.le_size
  have hrest := h.complete_drop hcode
  rw [Instruction.decodeAt_eq]
  cases hdrop : code.toList.drop offset with
  | nil =>
    have hend : code.toList.length ≤ offset := List.drop_eq_nil_iff.mp hdrop
    rw [Array.length_toList] at hend
    exact Or.inl (by omega)
  | cons byte bytes =>
    rw [hdrop] at hrest
    obtain ⟨i, hi, -⟩ := complete_iff.mp hrest
    exact Or.inr ⟨i, hi⟩

end Boundary

/-! ## The walk that finds them -/

/-- The boundaries from `offset` on, up to a number of instructions further. -/
def boundariesFrom (code : Code) (offset : Nat) : Nat → List Nat
  | 0 => [offset]
  | count + 1 =>
    match Instruction.decodeAt code offset with
    | .ok i => offset :: boundariesFrom code (offset + i.size) count
    | .error _ => [offset]

/-- The boundaries of a stream. There are no more instructions in it than bytes. -/
def boundaries (code : Code) : List Nat :=
  boundariesFrom code 0 code.size

section

variable {code : Code} {start offset count : Nat} {i : Instruction}

theorem mem_boundariesFrom_self : start ∈ boundariesFrom code start count := by
  unfold boundariesFrom
  split
  · exact List.mem_cons_self
  · split
    · exact List.mem_cons_self
    · exact List.mem_cons_self

theorem boundariesFrom_sound (hstart : Boundary code start)
    (h : offset ∈ boundariesFrom code start count) : Boundary code offset := by
  induction count generalizing start with
  | zero =>
    rw [List.mem_singleton.mp h]
    exact hstart
  | succ count ih =>
    unfold boundariesFrom at h
    split at h
    · next hdecode =>
      rcases List.mem_cons.mp h with rfl | h
      · exact hstart
      · exact ih (hstart.next hdecode) h
    · rw [List.mem_singleton.mp h]
      exact hstart

/-- A walk that has room for the rest of the stream does not stop at an instruction. -/
theorem boundariesFrom_next (hcount : code.size ≤ start + count)
    (h : offset ∈ boundariesFrom code start count)
    (hdecode : Instruction.decodeAt code offset = .ok i) :
    offset + i.size ∈ boundariesFrom code start count := by
  have hpos := i.size_pos
  induction count generalizing start with
  | zero =>
    -- at the end of the stream there is nothing to decode
    have hend := Instruction.end_le_size hdecode
    have hoffset := List.mem_singleton.mp h
    omega
  | succ count ih =>
    unfold boundariesFrom at h ⊢
    split at h
    · next j hj =>
      have hposj := j.size_pos
      rcases List.mem_cons.mp h with rfl | h
      · obtain rfl : j = i := Except.ok.inj (hj.symm.trans hdecode)
        exact List.mem_cons_of_mem _ mem_boundariesFrom_self
      · exact List.mem_cons_of_mem _ (ih (by omega) h)
    · next hj =>
      rw [List.mem_singleton.mp h] at hdecode
      cases hj.symm.trans hdecode

/-- **The walk finds just the boundaries.** -/
theorem mem_boundaries_iff : offset ∈ boundaries code ↔ Boundary code offset := by
  constructor
  · exact boundariesFrom_sound .start
  · intro h
    induction h with
    | start => exact mem_boundariesFrom_self
    | next _ hdecode ih => exact boundariesFrom_next (by omega) ih hdecode

instance (code : Code) (offset : Nat) : Decidable (Boundary code offset) :=
  decidable_of_iff (offset ∈ boundaries code) mem_boundaries_iff

/-- Whether what was decoded, if anything was, goes on at a boundary. -/
def Lands (code : Code) : Except CodecError Instruction → Prop
  | .ok i => i.opcode.jumps = true → Boundary code i.first
  | .error _ => True

instance (code : Code) (decoded : Except CodecError Instruction) : Decidable (Lands code decoded) :=
  match decoded with
  | .ok i => inferInstanceAs (Decidable (i.opcode.jumps = true → Boundary code i.first))
  | .error _ => isTrue trivial

theorem jumpsLand_iff :
    (∀ offset ∈ boundaries code, Lands code (Instruction.decodeAt code offset))
      ↔ JumpsLand code := by
  constructor
  · intro h offset i hoffset hdecode
    have hlands := h offset (mem_boundaries_iff.mpr hoffset)
    rw [hdecode] at hlands
    exact hlands
  · intro h offset hoffset
    cases hdecode : Instruction.decodeAt code offset with
    | ok i => exact h offset i (mem_boundaries_iff.mp hoffset) hdecode
    | error e => trivial

instance (code : Code) : Decidable (JumpsLand code) :=
  decidable_of_iff _ jumpsLand_iff

/-- A loop whose jumps go to its front and to its end: `LoadTrue; JumpIfFalse 7; Jump 0`. -/
example : JumpsLand #[11, 40, 0, 7, 41, 0, 0] := by decide +kernel

end

end ClosureMachine
