import ClosureMachine.Proofs.Assembly.Reading

/-!
# Assembling a listing

A listing is itself assembly text, and says all that there is to say about a stream of complete
instructions.

* **`assembled_entries`**: line after line of a listing, a draft takes in just the bytes that were
  listed, unless there is an error in the listing; it then stops at the first one.
* **`assemble_disassemble`** is about whole texts.
-/

namespace ClosureMachine

namespace Listing

/-- Whether a line reports an error. The word after its offset says so. -/
def isError (line : List Char) : Bool :=
  (Text.words line)[1]? == some "ERROR:".toList

/-- The first line of a text that reports an error, and its number, the first line being 1. -/
def firstError? (text : String) : Option (List Char × Nat) :=
  ((Text.lines text.toList).zipIdx 1).find? fun (line, _) => isError line

theorem isError_instruction (offset : Nat) (i : Instruction) :
    isError (Entry.instruction offset i).line = false := by
  have hwords := (Entry.instruction offset i).words_line
  rw [show (Entry.instruction offset i).body = i.text from rfl, i.words_text] at hwords
  -- a colon is no letter
  have hne : i.opcode.mnemonic.toList ≠ "ERROR:".toList := by
    intro h
    have halpha := i.opcode.isAlpha_of_mem_mnemonic
    rw [h] at halpha
    exact absurd (halpha ':' (by decide)) (by decide)
  unfold isError
  rw [hwords]
  simpa using hne

theorem isError_error (offset : Nat) (e : CodecError) :
    isError (Entry.error offset e).line = true := by
  have hwords := (Entry.error offset e).words_line
  rw [Entry.words_body_error] at hwords
  unfold isError
  rw [hwords]
  rfl

theorem text_eq_flatMap (entries : List Entry) :
    text entries = (entries.map Entry.line).flatMap (· ++ ['\n']) := by
  unfold text
  rw [List.flatMap_map]

/-- Nothing ends a line within plain text. -/
theorem Plain.line_ends {line : List Char} (h : Plain line) :
    '\n' ∉ line ∧ Text.dropReturn line = line :=
  ⟨h.not_mem (by decide), Text.dropReturn_of_not_mem (h.not_mem (by decide))⟩

theorem Entry.line_ends (entries : List Entry) :
    ∀ line ∈ entries.map Entry.line, '\n' ∉ line ∧ Text.dropReturn line = line := by
  intro line hline
  obtain ⟨entry, -, rfl⟩ := List.mem_map.mp hline
  exact entry.plain_line.line_ends

/-- To split a listing into lines gives the lines that were written. -/
theorem lines_text (entries : List Entry) : Text.lines (text entries) = entries.map Entry.line := by
  have hlines := Text.lines_flatMap_append (Entry.line_ends entries) []
  rwa [List.append_nil, Text.lines_nil, List.append_nil, ← text_eq_flatMap] at hlines

end Listing

namespace Assembly.Draft

open Listing

theorem append_appendList (code : Code) (front back : List UInt8) :
    code ++ (front ++ back) = code ++ front ++ back :=
  Array.ext' (by simp)

theorem empty_appendList (bytes : List UInt8) : (#[] : Code) ++ bytes = bytes.toArray :=
  Array.ext' (by simp)

@[simp]
theorem emit_nil (draft : Draft) : draft.emit [] = draft := by
  obtain ⟨main, pool, block?⟩ := draft
  cases block? with
  | none => simp [emit]
  | some block => simp [emit]

theorem emit_append (draft : Draft) (front back : List UInt8) :
    draft.emit (front ++ back) = (draft.emit front).emit back := by
  obtain ⟨main, pool, block?⟩ := draft
  cases block? with
  | none => simp [emit, append_appendList]
  | some block => simp [emit, append_appendList]

theorem addLine_of_read? {draft draft' : Draft} {line : List Char} {number : Nat} {item : Item}
    (hread : Line.read? line = some (.item item))
    (hadd : draft.addItem number item = .ok draft') :
    draft.addLine (line, number) = .ok draft' := by
  unfold addLine addText
  dsimp only
  rw [hread]
  show (draft.addItem number item).mapError _ = _
  rw [hadd]
  rfl

theorem addLine_instruction (draft : Draft) (number offset : Nat) {i : Instruction}
    {bytes : List UInt8} (hfits : i.Fits) (hbytes : i.encode = .ok bytes) :
    draft.addLine ((Entry.instruction offset i).line, number) = .ok (draft.emit bytes) := by
  refine addLine_of_read? (Line.read?_instruction offset i) ?_
  show draft.emit <$> encode _ _ = _
  rw [encode_instruction hfits hbytes]
  rfl

theorem addLine_error (draft : Draft) (number offset : Nat) (e : CodecError) :
    draft.addLine ((Entry.error offset e).line, number)
      = .error ⟨number, .malformed (String.ofList (Entry.error offset e).line)⟩ := by
  unfold addLine addText
  rw [Line.read?_error, Entry.trim_error]
  rfl

/-- The first of the lines that reports an error is the one that cannot be added. -/
def StopsAtError (draft : Draft) (numbered : List (List Char × Nat)) : Prop :=
  ∃ line number, numbered.find? (fun (line, _) => isError line) = some (line, number)
    ∧ numbered.foldlM addLine draft = .error ⟨number, .malformed (String.ofList line)⟩

theorem stopsAtError_error (draft : Draft) (number offset : Nat) (e : CodecError)
    (rest : List (List Char × Nat)) :
    draft.StopsAtError (((Entry.error offset e).line, number) :: rest) := by
  refine ⟨(Entry.error offset e).line, number, List.find?_cons_of_pos (isError_error offset e), ?_⟩
  rw [List.foldlM_cons, addLine_error]
  rfl

theorem StopsAtError.cons {draft draft' : Draft} {line : List Char} {number : Nat}
    {rest : List (List Char × Nat)} (h : draft'.StopsAtError rest) (hline : isError line = false)
    (hadd : draft.addLine (line, number) = .ok draft') :
    draft.StopsAtError ((line, number) :: rest) := by
  obtain ⟨line', number', hfind, hfold⟩ := h
  refine ⟨line', number', ?_, ?_⟩
  · rw [List.find?_cons_of_neg (by simp [hline]), hfind]
  · rw [List.foldlM_cons, hadd]
    exact hfold

/-- The lines of a listing put the bytes that were listed into a draft, or stop at the first line
that reports an error. -/
theorem assembled_entries (offset : Nat) (bytes : List UInt8) (number : Nat) (draft : Draft) :
    (Complete bytes
      ∧ (((entriesFrom offset bytes).map Entry.line).zipIdx number).foldlM addLine draft
        = .ok (draft.emit bytes))
    ∨ (¬Complete bytes
      ∧ draft.StopsAtError (((entriesFrom offset bytes).map Entry.line).zipIdx number)) := by
  fun_induction entriesFrom offset bytes generalizing number draft with
  | case1 offset =>
    rw [emit_nil]
    exact Or.inl ⟨.nil, rfl⟩
  | case2 offset byte bytes i hdecode ih =>
    have hencode := Instruction.encode_of_decode hdecode
    have hfits := Instruction.fits_of_decode hdecode
    have hadd := draft.addLine_instruction number offset hfits hencode
    have hsplit : (byte :: bytes).take i.size ++ bytes.drop i.opcode.operandBytes
        = byte :: bytes := by
      show (byte :: bytes).take (1 + i.opcode.operandBytes) ++ _ = _
      rw [Nat.add_comm, List.take_succ_cons, List.cons_append, List.take_append_drop]
    rw [List.map_cons, List.zipIdx_cons]
    rcases ih (number + 1) (draft.emit ((byte :: bytes).take i.size)) with
      ⟨hcomplete, hfold⟩ | ⟨hnot, hstops⟩
    · refine Or.inl ⟨complete_iff.mpr ⟨i, hdecode, hcomplete⟩, ?_⟩
      rw [List.foldlM_cons, hadd]
      show List.foldlM addLine (draft.emit _) _ = _
      rw [hfold, ← emit_append, hsplit]
    · refine Or.inr ⟨fun hcomplete => ?_, hstops.cons (isError_instruction offset i) hadd⟩
      obtain ⟨j, hj, hrest⟩ := complete_iff.mp hcomplete
      cases hdecode.symm.trans hj
      exact hnot hrest
  | case3 offset byte bytes b hdecode ih =>
    refine Or.inr ⟨fun hcomplete => ?_, draft.stopsAtError_error number offset _ _⟩
    obtain ⟨i, hi, -⟩ := complete_iff.mp hcomplete
    cases hdecode.symm.trans hi
  | case4 offset byte bytes e hnot hdecode =>
    refine Or.inr ⟨fun hcomplete => ?_, draft.stopsAtError_error number offset _ _⟩
    obtain ⟨i, hi, -⟩ := complete_iff.mp hcomplete
    cases hdecode.symm.trans hi

/-- A listing of complete instructions is taken in as it is, wherever it stands in a text. -/
theorem foldlM_of_complete {bytes : List UInt8} (h : Complete bytes) (number : Nat)
    (draft : Draft) :
    (((entries bytes).map Entry.line).zipIdx number).foldlM addLine draft
      = .ok (draft.emit bytes) := by
  rcases assembled_entries 0 bytes number draft with ⟨-, hfold⟩ | ⟨hnot, -⟩
  · exact hfold
  · exact absurd h hnot

end Assembly.Draft

open Assembly in
/-- **Disassembly and assembly are inverse on streams of complete instructions, and on no other.** The
listing of any other stream is rejected, at the first of its lines that reports an error. -/
theorem assemble_disassemble (bytes : List UInt8) :
    (Complete bytes → assemble (disassemble bytes) = .ok ⟨bytes.toArray, #[]⟩)
      ∧ (¬Complete bytes → ∃ line number,
        Listing.firstError? (disassemble bytes) = some (line, number)
          ∧ assemble (disassemble bytes)
            = .error ⟨number, .malformed (String.ofList line)⟩) := by
  have hlines : Text.lines (disassemble bytes).toList
      = (Listing.entries bytes).map Listing.Entry.line := by
    unfold disassemble
    rw [String.toList_ofList, Listing.lines_text]
  unfold assemble Listing.firstError? Draft.ofLines
  rw [hlines]
  constructor
  · intro h
    rw [Draft.foldlM_of_complete h]
    show Except.ok (Program.mk (#[] ++ bytes) #[]) = _
    rw [Draft.empty_appendList]
  · intro h
    rcases Draft.assembled_entries 0 bytes 1 {} with ⟨hcomplete, -⟩ | ⟨-, line, number, hfind, hfold⟩
    · exact absurd hcomplete h
    · refine ⟨line, number, hfind, ?_⟩
      show ((((Listing.entriesFrom 0 bytes).map Listing.Entry.line).zipIdx 1).foldlM _ _ >>= _) = _
      rw [hfold]
      rfl

/-- A closure that is made and an addition, in full; and an addition before a byte that encodes no
operation. -/
theorem assemble_disassemble_unknown :
    assemble (disassemble [18, 1, 0, 2, 21]) = .ok ⟨#[18, 1, 0, 2, 21], #[]⟩
      ∧ ∃ line number, Listing.firstError? (disassemble [21, 255, 21]) = some (line, number)
        ∧ assemble (disassemble [21, 255, 21])
          = .error ⟨number, .malformed (String.ofList line)⟩ := by
  have hcomplete : Complete [18, 1, 0, 2, 21] :=
    .cons .makeClosure [1, 0, 2] rfl (.cons .add [] rfl .nil)
  have hnot : ¬Complete [21, 255, 21] := by
    intro h
    obtain ⟨i, hi, hrest⟩ := complete_iff.mp h
    have hadd : Instruction.decode [21, 255, 21] = .ok ⟨.add, []⟩ := rfl
    cases hadd.symm.trans hi
    obtain ⟨j, hj, -⟩ := complete_iff.mp hrest
    cases hj
  exact ⟨(assemble_disassemble _).1 hcomplete, (assemble_disassemble _).2 hnot⟩

end ClosureMachine
