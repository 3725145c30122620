import ClosureMachine.Proofs.Code.Encoding
import ClosureMachine.Proofs.Code.Walk

/-!
# Listing one stream behind another

A listing of one stream never looks past its end, unless an instruction is cut short there. So what
comes behind is listed as it would be alone, only further down.

* **`Listing.entriesFrom_append`** is about two streams, **`disassemble_append`** about their texts.
* **`Code.pushAll_eq`** says where instructions start that are pushed one by one, and
  **`Listing.entriesFrom_flatten`** that they are listed there.
* **`listings_compose`** puts both together.
-/

namespace ClosureMachine

open Instruction

/-! ## Two streams -/

namespace Listing

/-- The last line tells of an instruction that is cut short. -/
def IsCutShort (entries : List Entry) : Prop :=
  ∃ offset needed available, entries.getLast? = some (.error offset (.unexpectedEnd needed available))

/-- What is listed behind an entry is cut short only if the whole is. -/
theorem IsCutShort.cons {entries : List Entry} (h : IsCutShort entries) (entry : Entry) :
    IsCutShort (entry :: entries) := by
  obtain ⟨offset, needed, available, hlast⟩ := h
  exact ⟨offset, needed, available, by rw [List.getLast?_cons, hlast, Option.getD_some]⟩

theorem isCutShort_singleton (offset needed available : Nat) :
    IsCutShort [.error offset (.unexpectedEnd needed available)] :=
  ⟨offset, needed, available, rfl⟩

/-- **What comes behind a stream is listed as it would be alone**, from where the stream ends. -/
theorem entriesFrom_append {offset : Nat} {front : List UInt8}
    (h : ¬IsCutShort (entriesFrom offset front)) (back : List UInt8) :
    entriesFrom offset (front ++ back)
      = entriesFrom offset front ++ entriesFrom (offset + front.length) back := by
  fun_induction entriesFrom offset front with
  | case1 offset => rfl
  | case2 offset byte bytes i hi ih =>
    have hrest := ih fun hshort => h (hshort.cons _)
    obtain ⟨rest, hbytes, hlen, -⟩ := decode_eq_ok_iff.mp hi
    obtain ⟨-, rfl⟩ := List.cons.inj hbytes
    have hend : offset + i.size + (bytes.drop i.opcode.operandBytes).length
        = offset + (byte :: bytes).length := by
      rw [List.length_drop, List.length_cons]
      show offset + (1 + i.opcode.operandBytes) + (bytes.length - i.opcode.operandBytes) = _
      omega
    rw [List.cons_append, entriesFrom, ← List.cons_append, decode_append_of_ok hi]
    dsimp only
    rw [List.drop_append_of_le_length hlen, hrest, hend, List.cons_append]
  | case3 offset byte bytes unknown hunknown ih =>
    have hrest := ih fun hshort => h (hshort.cons _)
    rw [List.cons_append, entriesFrom, ← List.cons_append, decode_append_of_unknown hunknown]
    dsimp only
    rw [hrest, List.length_cons, Nat.add_assoc, Nat.add_comm 1, List.cons_append]
  | case4 offset byte bytes e hknown he =>
    -- the stream is cut short after all
    rcases decode_cases (byte :: bytes) with ⟨i, hi, -⟩ | ⟨unknown, hi⟩ | ⟨needed, available, hi⟩
    · cases hi.symm.trans he
    · cases hi.symm.trans he
      exact absurd rfl (hknown unknown)
    · cases hi.symm.trans he
      exact absurd (isCutShort_singleton ..) h

theorem entries_append {front : List UInt8} (h : ¬IsCutShort (entries front)) (back : List UInt8) :
    entries (front ++ back) = entries front ++ (entries back).map (Entry.shift front.length) := by
  unfold entries
  rw [entriesFrom_append h, entriesFrom_add]

@[simp]
theorem Entry.offset_shift (count : Nat) (entry : Entry) :
    (entry.shift count).offset = entry.offset + count := by
  cases entry <;> rfl

@[simp]
theorem Entry.body_shift (count : Nat) (entry : Entry) : (entry.shift count).body = entry.body := by
  cases entry <;> rfl

theorem lines_disassemble (bytes : List UInt8) :
    Text.lines (disassemble bytes).toList = (entries bytes).map Entry.line := by
  unfold disassemble
  rw [String.toList_ofList, lines_text]

end Listing

open Listing

theorem disassemble_append {front : List UInt8} (h : ¬IsCutShort (entries front))
    (back : List UInt8) : disassemble (front ++ back)
      = disassemble front
        ++ String.ofList (Listing.text ((entries back).map (Entry.shift front.length))) := by
  unfold disassemble
  rw [entries_append h, ← String.ofList_append]
  unfold Listing.text
  rw [List.flatMap_append]

/-! ## Instructions pushed one by one -/

namespace Code

theorem size_appendList (code : Code) (bytes : List UInt8) :
    (code ++ bytes).size = code.size + bytes.length := by
  rw [← Array.length_toList, Array.toList_appendList, List.length_append, Array.length_toList]

/-- To push encoded instructions one by one is to join them. Each starts where those before it end. -/
theorem pushAll_eq (code : Code) (chunks : List (List UInt8)) :
    (code.pushAll chunks).2 = code ++ chunks.flatten
      ∧ (code.pushAll chunks).1.length = chunks.length
      ∧ ∀ k < chunks.length,
        (code.pushAll chunks).1[k]? = some (code.size + ((chunks.take k).map List.length).sum) := by
  induction chunks generalizing code with
  | nil => exact ⟨Array.ext' (by simp [pushAll]), rfl, fun k hk => absurd hk (Nat.not_lt_zero k)⟩
  | cons bytes chunks ih =>
    obtain ⟨hcode, hlen, hoffsets⟩ := ih (code ++ bytes)
    refine ⟨?_, congrArg (· + 1) hlen, fun k hk => ?_⟩
    · show (pushAll (code ++ bytes) chunks).2 = _
      rw [hcode]
      exact Array.ext' (by simp)
    · cases k with
      | zero => rfl
      | succ k =>
        show (pushAll (code ++ bytes) chunks).1[k]? = _
        rw [hoffsets k (Nat.lt_of_succ_lt_succ hk), size_appendList, List.take_succ_cons,
          List.map_cons, List.sum_cons, Nat.add_assoc]

end Code

theorem Instruction.Encoded.map_length {is : List Instruction} {chunks : List (List UInt8)}
    (h : Encoded is chunks) : chunks.map List.length = is.map size := by
  induction h with
  | nil => rfl
  | cons hi _ ih => rw [List.map_cons, List.map_cons, length_of_encode hi, ih]

/-- Instructions that are pushed one by one are listed one by one, each where it was pushed. -/
theorem Listing.entriesFrom_flatten {is : List Instruction} {chunks : List (List UInt8)}
    (h : Encoded is chunks) (code : Code) : entriesFrom code.size chunks.flatten
      = List.zipWith .instruction (code.pushAll chunks).1 (is.map truncated) := by
  induction h generalizing code with
  | nil => simp [entriesFrom]
  | @cons i bytes is chunks hi _ ih =>
    have hlen := length_of_encode hi
    have hsize := Code.size_appendList code bytes
    rw [hlen] at hsize
    rw [List.flatten_cons, entriesFrom_of_ok _ (decode_of_encode_truncated hi _), size_truncated,
      List.drop_left' hlen, ← hsize, ih]
    rfl

/-! ## Listings -/

/-- **Listings compose.** Behind a stream that is not cut short, every line of another stream stands as
it would alone, with its offset increased by what is in front. Instructions that are pushed one by one
make up the same stream as when they are joined, and each has one line of its listing, with the
offset that was answered when it was pushed: the sizes of those before it, added up. -/
theorem listings_compose :
    (∀ front back : List UInt8, ¬IsCutShort (entries front) →
      disassemble (front ++ back) = disassemble front
          ++ String.ofList (Listing.text ((entries back).map (Entry.shift front.length)))
        ∧ Text.lines (disassemble (front ++ back)).toList = Text.lines (disassemble front).toList
          ++ (entries back).map fun entry =>
            Decimal.padded 4 (entry.offset + front.length) ++ ' ' :: entry.body)
    ∧ ∀ (is : List Instruction) (chunks : List (List UInt8)), Encoded is chunks →
      let (offsets, code) := Code.pushAll #[] chunks
      code = Code.ofInstructions chunks
        ∧ offsets.length = is.length
        ∧ (∀ k < is.length, offsets[k]? = some ((is.take k).map size).sum)
        ∧ (Text.lines (disassemble code.toList).toList).length = is.length
        ∧ Text.lines (disassemble code.toList).toList
          = List.zipWith (fun offset i => Decimal.padded 4 offset ++ ' ' :: i.truncated.text)
            offsets is := by
  constructor
  · intro front back h
    refine ⟨disassemble_append h back, ?_⟩
    rw [lines_disassemble, lines_disassemble, entries_append h, List.map_append, List.map_map]
    congr 2
    funext entry
    show Decimal.padded 4 (entry.shift _).offset ++ ' ' :: (entry.shift _).body = _
    rw [Entry.offset_shift, Entry.body_shift]
  · intro is chunks h
    obtain ⟨hcode, hlen, hoffsets⟩ := Code.pushAll_eq #[] chunks
    have hentries := entriesFrom_flatten h #[]
    have hlines : Text.lines (disassemble (Code.pushAll #[] chunks).2.toList).toList
        = List.zipWith (fun offset i => Decimal.padded 4 offset ++ ' ' :: i.truncated.text)
          (Code.pushAll #[] chunks).1 is := by
      rw [lines_disassemble, hcode, Array.toList_appendList]
      show (entriesFrom (#[] : Code).size chunks.flatten).map Entry.line = _
      rw [hentries, List.map_zipWith, List.zipWith_map_right]
      rfl
    rw [← h.length_eq] at hlen hoffsets
    refine ⟨hcode.trans (Array.ext' (by simp [Code.ofInstructions])), hlen, fun k hk => ?_, ?_, hlines⟩
    · rw [hoffsets k hk, List.map_take, h.map_length, ← List.map_take]
      exact congrArg some (Nat.zero_add _)
    · rw [hlines, List.length_zipWith, hlen, Nat.min_self]

/-- Behind an unknown byte, a jump that is cut short; and a closure, of which the first operand is too
large, in front of another instruction. -/
theorem listings_compose_unknown :
    Text.lines (disassemble ([21, 250] ++ [19, 40, 0])).toList
        = ["0000 Add".toList, "0001 ERROR: opcode 250 undefined".toList, "0002 Pop".toList,
          "0003 ERROR: unexpected end of bytecode: needed 2 bytes but only 1 remain".toList]
      ∧ Code.pushAll #[] [[18, 1, 2, 3], [19]] = ([0, 4], #[18, 1, 2, 3, 19])
      ∧ Text.lines (disassemble [18, 1, 2, 3, 19]).toList
        = ["0000 MakeClosure 258 3".toList, "0004 Pop".toList] := by
  have hwhole : ¬IsCutShort (entries [21, 250]) := by
    rintro ⟨offset, needed, available, hlast⟩
    have hentries : (entries [21, 250]).getLast? = some (.error 1 (.unknownOpcode 250)) := by
      decide +kernel
    cases hentries.symm.trans hlast
  have hencoded : Encoded [⟨.makeClosure, [65536 + 258, 3]⟩, ⟨.pop, []⟩] [[18, 1, 2, 3], [19]] :=
    .cons rfl (.cons rfl .nil)
  obtain ⟨-, hlines⟩ := listings_compose.1 _ [19, 40, 0] hwhole
  obtain ⟨-, -, -, -, hpushed⟩ := listings_compose.2 _ _ hencoded
  exact ⟨hlines.trans (by decide +kernel), rfl, hpushed.trans (by decide +kernel)⟩

end ClosureMachine
