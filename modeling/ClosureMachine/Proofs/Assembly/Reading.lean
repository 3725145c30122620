import ClosureMachine.Assembly.Draft
import ClosureMachine.Listing
import ClosureMachine.Proofs.Code.Complete
import Mathlib.Data.List.TakeDrop
import Mathlib.Data.List.TakeWhile

/-!
# Reading the lines of a listing

What an assembler makes of a line that a listing has written.

* **`Line.read?_instruction`**: a line with an instruction is read as that instruction, its offset
  counting for nothing.
* **`encode_instruction`**: what is read is encoded to the bytes of the instruction.
* **`Line.read?_error`**: a line that reports an error is no line of assembly.

That nothing in such a line is taken for a comment, a directive or the end of the line is because
all its characters are plain (`Entry.plain_line`).
-/

namespace ClosureMachine

/-! ## Plain text -/

namespace Listing

/-- Letters, digits, spaces, and the few signs that listings and directives are written with. -/
def isPlain (c : Char) : Bool :=
  c.isAlphanum || [' ', ':', '.', '-'].contains c

/-- A text that is all plain characters. -/
def Plain (text : List Char) : Prop :=
  text.all isPlain = true

instance (text : List Char) : Decidable (Plain text) :=
  inferInstanceAs (Decidable (_ = true))

theorem plain_iff {text : List Char} : Plain text ↔ ∀ c ∈ text, isPlain c = true :=
  List.all_eq_true

theorem plain_append {front back : List Char} :
    Plain (front ++ back) ↔ Plain front ∧ Plain back := by
  unfold Plain
  rw [List.all_append, Bool.and_eq_true]

theorem plain_cons {c : Char} {text : List Char} :
    Plain (c :: text) ↔ isPlain c = true ∧ Plain text := by
  unfold Plain
  rw [List.all_cons, Bool.and_eq_true]

theorem Plain.not_mem {text : List Char} (h : Plain text) {c : Char} (hc : isPlain c = false) :
    c ∉ text := by
  intro hmem
  rw [plain_iff.mp h c hmem] at hc
  cases hc

theorem isAlphanum_of_isDigit {c : Char} (h : c.isDigit = true) : c.isAlphanum = true := by
  unfold Char.isAlphanum
  rw [h, Bool.or_true]

theorem isAlphanum_of_isAlpha {c : Char} (h : c.isAlpha = true) : c.isAlphanum = true := by
  unfold Char.isAlphanum
  rw [h, Bool.true_or]

theorem plain_of_isAlphanum {text : List Char} (h : ∀ c ∈ text, c.isAlphanum = true) :
    Plain text := by
  refine plain_iff.mpr fun c hc => ?_
  unfold isPlain
  rw [h c hc, Bool.true_or]

/-- A text that is one word, and plain. -/
structure IsWord (word : List Char) : Prop where
  ne_nil : word ≠ []
  plain : Plain word
  blank : ∀ c ∈ word, Text.isBlank c = false

theorem isWord_of_isAlphanum {word : List Char} (hne : word ≠ [])
    (h : ∀ c ∈ word, c.isAlphanum = true) : IsWord word :=
  ⟨hne, plain_of_isAlphanum h, fun c hc => Text.isBlank_of_isAlphanum (h c hc)⟩

theorem isWord_of_all {word : List Char} (hne : word ≠ [])
    (h : word.all (fun c => isPlain c && !Text.isBlank c) = true) : IsWord word := by
  have hall : ∀ c ∈ word, isPlain c = true ∧ Text.isBlank c = false := by
    intro c hc
    rw [← Bool.not_eq_true', ← Bool.and_eq_true]
    exact List.all_eq_true.mp h c hc
  exact ⟨hne, plain_iff.mpr fun c hc => (hall c hc).1, fun c hc => (hall c hc).2⟩

theorem words_of_isWord {ws : List (List Char)} (h : ∀ word ∈ ws, IsWord word) :
    Text.words ([' '].intercalate ws) = ws :=
  Text.words_intercalate fun word hword => ⟨(h word hword).ne_nil, (h word hword).blank⟩

theorem plain_of_isWord {ws : List (List Char)} (h : ∀ word ∈ ws, IsWord word) :
    Plain ([' '].intercalate ws) := by
  induction ws with
  | nil => rfl
  | cons word ws ih =>
    have hword := (h word List.mem_cons_self).plain
    have hrest := ih fun word hword => h word (List.mem_cons_of_mem _ hword)
    cases ws with
    | nil => rwa [List.intercalate_singleton]
    | cons next ws =>
      rw [List.intercalate_cons_cons]
      exact plain_append.mpr ⟨plain_append.mpr ⟨hword, by decide⟩, hrest⟩

end Listing

open Listing

/-! ## Numerals and mnemonics -/

theorem isAlphanum_of_mem_ofNat {n : Nat} {c : Char} (h : c ∈ Decimal.ofNat n) :
    c.isAlphanum = true :=
  isAlphanum_of_isDigit (Nat.isDigit_of_mem_toDigits (by decide) (by decide) h)

theorem isWord_ofNat (n : Nat) : IsWord (Decimal.ofNat n) :=
  isWord_of_isAlphanum Nat.toDigits_ne_nil fun _ hc => isAlphanum_of_mem_ofNat hc

theorem isNumeral_padded (width n : Nat) : Decimal.isNumeral (Decimal.padded width n) = true := by
  have hnumeral := Decimal.isNumeral_ofNat n
  unfold Decimal.isNumeral at hnumeral ⊢
  rw [Bool.and_eq_true, Bool.not_eq_true', List.isEmpty_eq_false_iff, List.all_eq_true]
    at hnumeral ⊢
  unfold Decimal.padded List.leftpad
  refine ⟨List.append_ne_nil_of_right_ne_nil _ hnumeral.1, fun c hc => ?_⟩
  rcases List.mem_append.mp hc with hc | hc
  · rw [List.eq_of_mem_replicate hc]
    rfl
  · exact hnumeral.2 c hc

theorem isAlphanum_of_isNumeral {word : List Char} (h : Decimal.isNumeral word = true) :
    word ≠ [] ∧ ∀ c ∈ word, c.isAlphanum = true := by
  unfold Decimal.isNumeral at h
  rw [Bool.and_eq_true, Bool.not_eq_true', List.isEmpty_eq_false_iff, List.all_eq_true] at h
  exact ⟨h.1, fun c hc => isAlphanum_of_isDigit (h.2 c hc)⟩

theorem isWord_padded (width n : Nat) : IsWord (Decimal.padded width n) := by
  obtain ⟨hne, halphanum⟩ := isAlphanum_of_isNumeral (isNumeral_padded width n)
  exact isWord_of_isAlphanum hne halphanum

theorem Opcode.isAlpha_of_mem_mnemonic (op : Opcode) :
    ∀ c ∈ op.mnemonic.toList, c.isAlpha = true := by
  have hall : op.mnemonic.toList.all Char.isAlpha = true := by cases op <;> decide
  exact List.all_eq_true.mp hall

theorem Opcode.isWord_mnemonic (op : Opcode) : IsWord op.mnemonic.toList := by
  refine isWord_of_isAlphanum ?_ fun c hc => isAlphanum_of_isAlpha (op.isAlpha_of_mem_mnemonic c hc)
  cases op <;> decide

theorem Instruction.isWord_of_mem (i : Instruction) :
    ∀ word ∈ i.opcode.mnemonic.toList :: i.operands.map Decimal.ofNat, IsWord word := by
  refine List.forall_mem_cons.mpr ⟨i.opcode.isWord_mnemonic, fun word hword => ?_⟩
  obtain ⟨n, -, rfl⟩ := List.mem_map.mp hword
  exact isWord_ofNat n

/-- The words of an instruction are what its text says. -/
theorem Instruction.words_text (i : Instruction) :
    Text.words i.text = i.opcode.mnemonic.toList :: i.operands.map Decimal.ofNat :=
  words_of_isWord i.isWord_of_mem

/-! ## Messages -/

namespace CodecError

theorem toList_message_unknownOpcode (byte : UInt8) : (unknownOpcode byte).message.toList
    = "opcode ".toList ++ Decimal.ofNat byte.toNat ++ " undefined".toList := by
  show ("opcode " ++ toString byte.toNat ++ " undefined").toList = _
  simp only [String.toList_append]
  simp [Decimal.ofNat]

theorem toList_message_operandCount (op : Opcode) (expected given : Nat) :
    (operandCount op expected given).message.toList
      = op.mnemonic.toList ++ " takes ".toList ++ Decimal.ofNat expected
        ++ " operands but was given ".toList ++ Decimal.ofNat given := by
  show (op.mnemonic ++ " takes " ++ toString expected ++ " operands but was given "
    ++ toString given).toList = _
  simp only [String.toList_append]
  simp [Decimal.ofNat]

theorem toList_message_unexpectedEnd (needed available : Nat) :
    (unexpectedEnd needed available).message.toList
      = "unexpected end of bytecode: needed ".toList ++ Decimal.ofNat needed
        ++ " bytes but only ".toList ++ Decimal.ofNat available ++ " remain".toList := by
  show ("unexpected end of bytecode: needed " ++ toString needed ++ " bytes but only "
    ++ toString available ++ " remain").toList = _
  simp only [String.toList_append]
  simp [Decimal.ofNat]

theorem plain_message (e : CodecError) : Plain e.message.toList := by
  cases e with
  | unknownOpcode byte =>
    simp only [toList_message_unknownOpcode, plain_append, (isWord_ofNat _).plain]
    decide
  | operandCount op expected given =>
    simp only [toList_message_operandCount, plain_append, (isWord_ofNat _).plain,
      op.isWord_mnemonic.plain]
    decide
  | unexpectedEnd needed available =>
    simp only [toList_message_unexpectedEnd, plain_append, (isWord_ofNat _).plain]
    decide

/-- A message ends with a letter or a digit. -/
theorem isAlphanum_of_getLast? (e : CodecError) :
    ∃ c, e.message.toList.getLast? = some c ∧ c.isAlphanum = true := by
  cases e with
  | unknownOpcode byte =>
    rw [toList_message_unknownOpcode, List.getLast?_append_of_ne_nil _ (by decide)]
    exact ⟨'d', by decide, by decide⟩
  | operandCount op expected given =>
    rw [toList_message_operandCount, List.getLast?_append_of_ne_nil _ (isWord_ofNat given).ne_nil]
    have hlast := List.getLast?_eq_getLast_of_ne_nil (isWord_ofNat given).ne_nil
    exact ⟨_, hlast, isAlphanum_of_mem_ofNat (List.mem_of_getLast? hlast)⟩
  | unexpectedEnd needed available =>
    rw [toList_message_unexpectedEnd, List.getLast?_append_of_ne_nil _ (by decide)]
    exact ⟨'n', by decide, by decide⟩

end CodecError

/-! ## Lines -/

namespace Listing.Entry

theorem plain_body (entry : Entry) : Plain entry.body := by
  cases entry with
  | instruction offset i => exact plain_of_isWord i.isWord_of_mem
  | error offset e => exact plain_append.mpr ⟨by decide, e.plain_message⟩

theorem plain_line (entry : Entry) : Plain entry.line := by
  have hbody : Plain (' ' :: entry.body) := plain_cons.mpr ⟨by decide, entry.plain_body⟩
  exact plain_append.mpr ⟨(isWord_padded 4 entry.offset).plain, hbody⟩

/-- The first word of a line is its offset. -/
theorem words_line (entry : Entry) :
    Text.words entry.line = Decimal.padded 4 entry.offset :: Text.words entry.body := by
  have hoffset := isWord_padded 4 entry.offset
  unfold line
  rw [Text.words_append_blank rfl, Text.words_eq_singleton hoffset.ne_nil hoffset.blank]
  rfl

theorem words_body_error (offset : Nat) (e : CodecError) :
    Text.words (error offset e).body = "ERROR:".toList :: Text.words e.message.toList := by
  show Text.words ("ERROR:".toList ++ ' ' :: e.message.toList) = _
  have herror : IsWord "ERROR:".toList := isWord_of_all (by decide) (by decide)
  rw [Text.words_append_blank rfl, Text.words_eq_singleton herror.ne_nil herror.blank]
  rfl

/-- A line that reports an error has no white space at its ends. -/
theorem trim_error (offset : Nat) (e : CodecError) :
    Text.trim (error offset e).line = (error offset e).line := by
  obtain ⟨hne, halphanum⟩ := isAlphanum_of_isNumeral (isNumeral_padded 4 offset)
  obtain ⟨c, hc, hlast⟩ := e.isAlphanum_of_getLast?
  have hmessage : e.message.toList ≠ [] := by
    rintro h
    rw [h] at hc
    cases hc
  refine Text.trim_eq_self (fun d hd => ?_) (fun d hd => ?_)
  · have hhead : (error offset e).line.head? = (Decimal.padded 4 offset).head? :=
      List.head?_append_of_ne_nil _ hne
    rw [hhead] at hd
    exact Text.isWhiteSpace_of_isAlphanum (halphanum d (List.mem_of_mem_head? hd))
  · have hline : (error offset e).line
        = (Decimal.padded 4 offset ++ ' ' :: "ERROR: ".toList) ++ e.message.toList := by
      unfold line body
      rw [List.append_assoc, List.cons_append]
      rfl
    rw [hline, List.getLast?_append_of_ne_nil _ hmessage, hc] at hd
    cases hd
    exact Text.isWhiteSpace_of_isAlphanum hlast

end Listing.Entry

namespace Assembly

/-- A line that holds no string is read by its words. -/
theorem Line.read?_of_words {text word : List Char} {ws : List (List Char)}
    (hstr : afterStr? (text.dropWhile Text.isBlank) = none) (hcomment : '%' ∉ text)
    (hwords : Text.words text = word :: ws) :
    read? text = Line.item <$> Item.ofWords? (word :: ws) := by
  have huncommented : uncommented? text = some text := by
    have hall : ∀ c ∈ text, (c != '%') = true := by
      intro c hc
      rw [bne_iff_ne]
      rintro rfl
      exact hcomment hc
    unfold uncommented?
    rw [List.span_eq_takeWhile_dropWhile, List.takeWhile_eq_self_iff.mpr hall,
      List.dropWhile_eq_nil_iff.mpr hall]
    rfl
  unfold read?
  rw [hstr, huncommented]
  simp only [Option.bind_eq_bind, Option.bind_some, hwords]

/-- An offset is not the word `.str`. -/
theorem Line.afterStr?_line (entry : Entry) :
    afterStr? (entry.line.dropWhile Text.isBlank) = none := by
  obtain ⟨hne, halphanum⟩ := isAlphanum_of_isNumeral (isNumeral_padded 4 entry.offset)
  obtain ⟨c, digits, hdigits⟩ := List.exists_cons_of_ne_nil hne
  have hc := halphanum c (hdigits ▸ List.mem_cons_self)
  have hdot : c ≠ '.' := by
    rintro rfl
    cases hc
  unfold Entry.line
  rw [hdigits, List.cons_append,
    List.dropWhile_cons_of_neg (by simp [Text.isBlank_of_isAlphanum hc])]
  unfold afterStr?
  split
  · next hline => exact absurd (List.cons.inj hline).1 hdot
  · rfl

theorem Line.read?_line {entry : Entry} {word : List Char} {ws : List (List Char)}
    (hwords : Text.words entry.line = word :: ws) :
    read? entry.line = Line.item <$> Item.ofWords? (word :: ws) :=
  read?_of_words (afterStr?_line entry) (entry.plain_line.not_mem (by decide)) hwords

/-- An offset in front of an instruction counts for nothing. -/
theorem Item.ofWords?_offset {word : List Char} (h : Decimal.isNumeral word = true)
    (name : List Char) (operands : List (List Char)) :
    ofWords? (word :: name :: operands) = instruction? name operands := by
  have hne : ∀ {directive : String}, Decimal.isNumeral directive.toList = false →
      word ≠ directive.toList := by
    rintro directive hdirective rfl
    rw [h] at hdirective
    cases hdirective
  unfold ofWords?
  dsimp only
  rw [if_neg (hne (by decide)), if_neg (hne (by decide)), if_neg (hne (by decide)), if_pos h]

theorem Line.read?_instruction (offset : Nat) (i : Instruction) :
    read? (Entry.instruction offset i).line
      = some (.item (.instruction i.opcode.mnemonic.toList (i.operands.map Decimal.ofNat))) := by
  have hwords := (Entry.instruction offset i).words_line
  rw [show (Entry.instruction offset i).body = i.text from rfl, i.words_text] at hwords
  have hname : i.opcode.mnemonic.toList.all Char.isAlpha = true :=
    List.all_eq_true.mpr i.opcode.isAlpha_of_mem_mnemonic
  have hoperands : (i.operands.map Decimal.ofNat).all Decimal.isNumeral = true := by
    rw [List.all_map, List.all_eq_true]
    exact fun n _ => Decimal.isNumeral_ofNat n
  rw [read?_line hwords, Item.ofWords?_offset (isNumeral_padded 4 _)]
  unfold Item.instruction?
  rw [if_pos ⟨hname, hoperands⟩]
  rfl

theorem Line.read?_error (offset : Nat) (e : CodecError) :
    read? (Entry.error offset e).line = none := by
  have hwords := (Entry.error offset e).words_line
  rw [Entry.words_body_error] at hwords
  rw [read?_line hwords, Item.ofWords?_offset (isNumeral_padded 4 _)]
  unfold Item.instruction?
  rw [if_neg fun h => absurd h.1 (by decide)]
  rfl

/-- Operands that fit are taken for the numbers that they denote. -/
theorem mapM_operands {f : Nat × List Char → Except AssemblyError.Cause Nat}
    (hf : ∀ {operand width}, Decimal.toNat operand < Nat.pow 256 width →
      f (width, operand) = .ok (Decimal.toNat operand))
    {operands : List (List Char)} {widths : List Nat}
    (h : List.Forall₂ (fun value width => value < Nat.pow 256 width)
      (operands.map Decimal.toNat) widths) :
    (widths.zip operands).mapM f = .ok (operands.map Decimal.toNat) := by
  induction operands generalizing widths with
  | nil =>
    cases h
    rfl
  | cons operand operands ih =>
    cases h with
    | cons hoperand hrest =>
      rw [List.zip_cons_cons, List.mapM_cons, hf hoperand, ih hrest]
      rfl

/-- What is encoded is what the operands denote, however they are written. -/
theorem encode_of_fits {op : Opcode} {operands : List (List Char)} {bytes : List UInt8}
    (hfits : Instruction.Fits ⟨op, operands.map Decimal.toNat⟩)
    (hbytes : Instruction.encode ⟨op, operands.map Decimal.toNat⟩ = .ok bytes) :
    encode op.mnemonic.toList operands = .ok bytes := by
  have hlen : operands.length = op.arity := by
    rw [← List.length_map Decimal.toNat]
    exact hfits.length_eq
  unfold encode
  rw [String.ofList_toList, Opcode.ofMnemonic?_mnemonic]
  dsimp only
  rw [if_neg (not_not_intro hlen)]
  show ((op.widths.zip operands).mapM _ >>= _) = _
  rw [mapM_operands (fun hoperand => if_pos hoperand) hfits]
  show (pure (operands.map Decimal.toNat) >>= _ : Except AssemblyError.Cause (List UInt8)) = _
  rw [pure_bind, hbytes]

theorem encode_instruction {i : Instruction} {bytes : List UInt8} (hfits : i.Fits)
    (hbytes : i.encode = .ok bytes) :
    encode i.opcode.mnemonic.toList (i.operands.map Decimal.ofNat) = .ok bytes := by
  have hvalues : (i.operands.map Decimal.ofNat).map Decimal.toNat = i.operands := by
    simp [Function.comp_def]
  exact encode_of_fits (by rwa [hvalues]) (by rwa [hvalues])

end Assembly

end ClosureMachine
