import ClosureMachine.Assembly.Printer
import ClosureMachine.Proofs.Assembly.Drafting
import ClosureMachine.Proofs.Assembly.Listing

/-!
# The programs that can be written

What is written for a program, if it can be written, is read back as it was: strings whatever is in
them, all integers and counts of 64 bits, and code as a listing.

* **`Program.lines_text`**: a text is split into the lines that were written.
* **`Draft.foldlM_constant`**: the lines that a constant is written as put it into the next place of
  the pool.
* **`assemble_printable`** says that what is assembled and what can be written are the same programs.
-/

namespace ClosureMachine

namespace Assembly

open Listing

/-! ### Strings -/

theorem Item.unquote?_escaped (text rest : List Char) :
    unquote? (escaped text ++ '\"' :: rest) = some (text, rest) := by
  induction text with
  | nil => rfl
  | cons c text ih =>
    unfold escaped at ih ⊢
    rw [List.flatMap_cons, List.append_assoc]
    generalize text.flatMap _ ++ '\"' :: rest = remaining at ih ⊢
    by_cases hc : c = '\"' ∨ c = '\\'
    · rw [if_pos hc]
      show unquote? ('\\' :: c :: remaining) = _
      rw [unquote?, if_pos hc, ih]
      rfl
    · rw [if_neg hc]
      obtain ⟨hquote, hslash⟩ := not_or.mp hc
      show unquote? (c :: remaining) = _
      rw [unquote?, if_neg hslash, ih]
      · rfl
      · exact hquote
      · exact fun _ _ h => absurd h hslash

/-- Escaping brings in nothing but backslashes. -/
theorem mem_escaped {c : Char} {text : List Char} (h : c ∈ escaped text) : c = '\\' ∨ c ∈ text := by
  unfold escaped at h
  obtain ⟨d, hd, hc⟩ := List.mem_flatMap.mp h
  split at hc
  · rcases List.mem_cons.mp hc with rfl | hc
    · exact Or.inl rfl
    · exact Or.inr (List.mem_singleton.mp hc ▸ hd)
  · exact Or.inr (List.mem_singleton.mp hc ▸ hd)

theorem Line.read?_string (text : List Char) :
    read? (".str ".toList ++ quoted text) = some (.item (.string text)) := by
  have hstr : afterStr? ((".str ".toList ++ quoted text).dropWhile Text.isBlank)
      = some ('\"' :: (escaped text ++ ['\"'])) := rfl
  unfold read?
  rw [hstr]
  show (Item.unquote? (escaped text ++ ['\"']) >>= _) = _
  rw [Item.unquote?_escaped]
  rfl

/-! ### Integers and counts -/

/-- A numeral for an integer is one word, the minus included. -/
theorem isWord_ofInt (n : Int) : IsWord (Decimal.ofInt n) := by
  have hdigits := isWord_ofNat n.natAbs
  unfold Decimal.ofInt
  split
  · exact ⟨List.cons_ne_nil _ _, plain_cons.mpr ⟨by decide, hdigits.plain⟩,
      List.forall_mem_cons.mpr ⟨by decide, hdigits.blank⟩⟩
  · exact hdigits

theorem Item.int64?_minus {digits : List Char} {n : Int64} (h : Decimal.isNumeral digits = true)
    (hn : -(Decimal.toNat digits : Int) = n.toInt) : int64? ('-' :: digits) = some n := by
  show (if Decimal.isNumeral digits ∧ Int64.minValue.toInt ≤ -(Decimal.toNat digits : Int)
      ∧ -(Decimal.toNat digits : Int) ≤ Int64.maxValue.toInt then
    some (Int64.ofInt (-(Decimal.toNat digits : Int))) else none) = _
  rw [hn, if_pos ⟨h, n.minValue_le_toInt, n.toInt_le⟩, Int64.ofInt_toInt]

theorem Item.int64?_numeral {digits : List Char} {n : Int64} (h : Decimal.isNumeral digits = true)
    (hn : (Decimal.toNat digits : Int) = n.toInt) : int64? digits = some n := by
  unfold int64?
  split
  next negative digits' hsign =>
    split at hsign
    · next digits' =>
      -- a minus is no digit
      have hminus := (isAlphanum_of_isNumeral h).2 '-' List.mem_cons_self
      cases hminus
    · cases hsign
      simp only [Bool.false_eq_true, if_false, hn]
      rw [if_pos ⟨h, n.minValue_le_toInt, n.toInt_le⟩, Int64.ofInt_toInt]

/-- All integers of 64 bits are read, the least one included. -/
theorem Item.int64?_ofInt (n : Int64) : int64? (Decimal.ofInt n.toInt) = some n := by
  have hnumeral := Decimal.isNumeral_ofNat n.toInt.natAbs
  unfold Decimal.ofInt
  split
  · next hneg =>
    refine int64?_minus hnumeral ?_
    rw [Decimal.toNat_ofNat]
    omega
  · next hpos =>
    refine int64?_numeral hnumeral ?_
    rw [Decimal.toNat_ofNat]
    omega

/-! ### Directives -/

theorem isWord_integer (n : Int64) :
    ∀ word ∈ [".int".toList, Decimal.ofInt n.toInt], IsWord word :=
  List.forall_mem_cons.mpr ⟨isWord_of_all (by decide) (by decide),
    List.forall_mem_singleton.mpr (isWord_ofInt _)⟩

theorem isWord_function (params locals : Nat) :
    ∀ word ∈ [".function".toList, Decimal.ofNat params, Decimal.ofNat locals], IsWord word :=
  List.forall_mem_cons.mpr ⟨isWord_of_all (by decide) (by decide),
    List.forall_mem_cons.mpr ⟨isWord_ofNat _, List.forall_mem_singleton.mpr (isWord_ofNat _)⟩⟩

theorem Line.read?_integer (n : Int64) :
    read? ([' '].intercalate [".int".toList, Decimal.ofInt n.toInt])
      = some (.item (.integer n)) := by
  have hws := isWord_integer n
  rw [read?_of_words rfl ((plain_of_isWord hws).not_mem (by decide)) (words_of_isWord hws)]
  show item <$> (Item.integer <$> Item.int64? (Decimal.ofInt n.toInt)) = _
  rw [Item.int64?_ofInt]
  rfl

theorem Line.read?_function (params locals : Nat) :
    read? ([' '].intercalate [".function".toList, Decimal.ofNat params, Decimal.ofNat locals])
      = some (.item (.function (Decimal.ofNat params) (Decimal.ofNat locals))) := by
  have hws := isWord_function params locals
  rw [read?_of_words rfl ((plain_of_isWord hws).not_mem (by decide)) (words_of_isWord hws)]
  show item <$> (if Decimal.isNumeral (Decimal.ofNat params)
      ∧ Decimal.isNumeral (Decimal.ofNat locals) then _ else _) = _
  rw [if_pos ⟨Decimal.isNumeral_ofNat _, Decimal.isNumeral_ofNat _⟩]
  rfl

theorem count_ofNat {n : Nat} (h : n < Nat.pow 2 64) : count (Decimal.ofNat n) = .ok n := by
  unfold count
  rw [Decimal.toNat_ofNat, if_pos h]

end Assembly

/-! ### Constants and programs -/

open Assembly Listing

/-- The lines that a constant is written as. -/
def Constant.lines : Constant → List (List Char)
  | integer n => [[' '].intercalate [".int".toList, Decimal.ofInt n.toInt]]
  | string text => [".str ".toList ++ quoted text.toList]
  | function routine =>
    [' '].intercalate
        [".function".toList, Decimal.ofNat routine.params, Decimal.ofNat routine.locals]
      :: ((entries routine.code.toList).map Entry.line ++ [".end".toList])

theorem toList_disassemble (bytes : List UInt8) : (disassemble bytes).toList
    = ((entries bytes).map Entry.line).flatMap (· ++ ['\n']) := by
  unfold disassemble
  rw [String.toList_ofList, text_eq_flatMap]

theorem Constant.text_eq_flatMap (constant : Constant) :
    constant.text = constant.lines.flatMap (· ++ ['\n']) := by
  cases constant with
  | integer n => exact (List.flatMap_singleton _ _).symm
  | string text => exact (List.flatMap_singleton _ _).symm
  | function routine =>
    show _ ++ '\n' :: (disassemble routine.code.toList).toList ++ ".end\n".toList = _
    rw [toList_disassemble]
    unfold lines
    rw [List.flatMap_cons, List.flatMap_append, List.flatMap_singleton, List.append_assoc,
      List.append_assoc]
    rfl

/-- A constant that can be written is written as lines that are read back as they are. -/
theorem Constant.line_ends {constant : Constant} (h : constant.Printable) :
    ∀ line ∈ constant.lines, '\n' ∉ line ∧ Text.dropReturn line = line := by
  cases constant with
  | integer n =>
    exact List.forall_mem_singleton.mpr (plain_of_isWord (isWord_integer n)).line_ends
  | string text =>
    -- the last character is a quote, whatever the string ends with
    refine List.forall_mem_singleton.mpr ⟨fun hfeed => ?_, if_neg fun hlast => ?_⟩
    · have hquoted : '\n' ∈ escaped text.toList := by simpa [quoted] using hfeed
      rcases mem_escaped hquoted with hslash | htext
      · exact absurd hslash (by decide)
      · exact h htext
    · have hquote : (".str ".toList ++ quoted text.toList).getLast? = some '\"' := by
        unfold quoted
        rw [← List.append_assoc, List.getLast?_concat]
      cases hquote.symm.trans hlast
  | function routine =>
    have hend : Plain ".end".toList := by decide
    refine List.forall_mem_cons.mpr ⟨(plain_of_isWord (isWord_function _ _)).line_ends, ?_⟩
    exact List.forall_mem_append.mpr
      ⟨Entry.line_ends _, List.forall_mem_singleton.mpr hend.line_ends⟩

theorem Program.lines_text {program : Program}
    (h : ∀ constant ∈ program.constants, constant.Printable) :
    Text.lines program.text.toList
      = program.constants.toList.flatMap Constant.lines
        ++ (entries program.main.toList).map Entry.line := by
  have hends : ∀ line ∈ program.constants.toList.flatMap Constant.lines
      ++ (entries program.main.toList).map Entry.line,
      '\n' ∉ line ∧ Text.dropReturn line = line := by
    refine List.forall_mem_append.mpr ⟨fun line hline => ?_, Entry.line_ends _⟩
    obtain ⟨constant, hconstant, hline⟩ := List.mem_flatMap.mp hline
    exact Constant.line_ends (h constant (Array.mem_toList_iff.mp hconstant)) line hline
  have htext : program.text.toList = (program.constants.toList.flatMap Constant.lines
      ++ (entries program.main.toList).map Entry.line).flatMap (· ++ ['\n']) := by
    unfold text
    rw [String.toList_ofList, toList_disassemble, List.flatMap_append, List.flatMap_assoc,
      funext Constant.text_eq_flatMap]
  have hlines := Text.lines_flatMap_append hends []
  rwa [List.append_nil, Text.lines_nil, List.append_nil, ← htext] at hlines

namespace Assembly.Draft

/-- The lines of a constant put it into the next place of the pool. -/
theorem foldlM_constant {constant : Constant} (h : constant.Printable) (number : Nat)
    {draft : Draft} (hclosed : draft.block? = none) :
    (constant.lines.zipIdx number).foldlM addLine draft
      = .ok { draft with pool := draft.pool.push constant } := by
  obtain ⟨main, pool, block?⟩ := draft
  cases hclosed
  cases constant with
  | integer n =>
    show List.foldlM addLine _ [(_, number)] = _
    rw [List.foldlM_cons, addLine_of_read? (Line.read?_integer n) rfl]
    rfl
  | string text =>
    show List.foldlM addLine _ [(_, number)] = _
    rw [List.foldlM_cons, addLine_of_read? (Line.read?_string text.toList) rfl]
    show Except.ok (Draft.mk main (pool.push (.string (String.ofList text.toList))) none) = _
    rw [String.ofList_toList]
  | function routine =>
    obtain ⟨code, locals, params⟩ := routine
    obtain ⟨hparams, hlocals, hcode⟩ := h
    have hopen : (Draft.mk main pool none).addItem number
        (.function (Decimal.ofNat params) (Decimal.ofNat locals))
        = .ok ⟨main, pool, some { line := number, params, locals }⟩ := by
      unfold addItem openBlock
      dsimp only
      rw [count_ofNat hparams, count_ofNat hlocals]
      rfl
    have hend : Line.read? ".end".toList = some (.item .endFunction) := by rfl
    unfold Constant.lines
    rw [List.zipIdx_cons, List.foldlM_cons, addLine_of_read? (Line.read?_function _ _) hopen]
    show List.foldlM addLine _ _ = _
    rw [List.zipIdx_append, List.foldlM_append, foldlM_of_complete hcode]
    show List.foldlM addLine _ _ = _
    rw [List.zipIdx_cons, List.foldlM_cons, addLine_of_read? hend rfl]
    show Except.ok (Draft.mk main (pool.push (.function ⟨#[] ++ code.toList, locals, params⟩) ++ #[])
      none) = _
    rw [empty_appendList, Array.toArray_toList, Array.append_empty]

theorem foldlM_constants {constants : List Constant} (h : ∀ c ∈ constants, c.Printable)
    (number : Nat) {draft : Draft} (hclosed : draft.block? = none) :
    ((constants.flatMap Constant.lines).zipIdx number).foldlM addLine draft
      = .ok { draft with pool := draft.pool ++ constants } := by
  induction constants generalizing number draft with
  | nil =>
    show Except.ok draft = _
    simp
  | cons constant constants ih =>
    obtain ⟨hconstant, hrest⟩ := List.forall_mem_cons.mp h
    rw [List.flatMap_cons, List.zipIdx_append, List.foldlM_append,
      foldlM_constant hconstant _ hclosed]
    show List.foldlM addLine _ _ = _
    rw [ih hrest]
    · simp
    · exact hclosed

end Assembly.Draft

/-- What can be written is assembled from what is written. -/
theorem assemble_text_of_printable {program : Program} (h : program.Printable) :
    assemble program.text = .ok program := by
  unfold assemble Draft.ofLines
  rw [Program.lines_text h.constants, List.zipIdx_append, List.foldlM_append,
    Draft.foldlM_constants (fun c hc => h.constants c (Array.mem_toList_iff.mp hc)) 1 rfl]
  show (List.foldlM _ _ _ >>= _) = _
  rw [Draft.foldlM_of_complete h.main]
  show Except.ok (Program.mk (#[] ++ program.main.toList) (#[] ++ program.constants.toList)) = _
  rw [Draft.empty_appendList, Array.toArray_toList]
  simp

/-- **The programs that some text assembles to are those that can be written**, and what is written
for one of them assembles to just that program. Of each text that assembles, all places of the pool
have been filled at the end. -/
theorem assemble_printable (program : Program) :
    (∀ text, assemble text = .ok program → program.Printable
      ∧ ∃ draft, Draft.ofLines (Text.lines text.toList) = .ok draft
        ∧ draft.places = program.constants.map some)
      ∧ (program.Printable → assemble program.text = .ok program) :=
  ⟨fun _ h => printable_of_assemble h, assemble_text_of_printable⟩

/-- A constant that is declared inside a block, and comes after its function; and the least integer,
a string with a quote, a backslash, a percent sign and a carriage return, a function with the
greatest number of parameters, and an addition. -/
theorem assemble_printable_extremes :
    assemble ".function 1 2\n.int 7\nAdd\n.end % closed\n"
        = .ok ⟨#[], #[.function ⟨#[21], 2, 1⟩, .integer 7]⟩
      ∧ Program.Printable ⟨#[], #[.function ⟨#[21], 2, 1⟩, .integer 7]⟩
      ∧ assemble (Program.text ⟨#[21], #[.integer Int64.minValue, .string "\"\\%\r",
          .function ⟨#[21], 0, 18446744073709551615⟩]⟩)
        = .ok ⟨#[21], #[.integer Int64.minValue, .string "\"\\%\r",
          .function ⟨#[21], 0, 18446744073709551615⟩]⟩ := by
  have hassemble : assemble ".function 1 2\n.int 7\nAdd\n.end % closed\n"
      = .ok ⟨#[], #[.function ⟨#[21], 2, 1⟩, .integer 7]⟩ := by decide +kernel
  have hadd : Complete [21] := .cons .add [] rfl .nil
  have hprintable : Program.Printable ⟨#[21], #[.integer Int64.minValue, .string "\"\\%\r",
      .function ⟨#[21], 0, 18446744073709551615⟩]⟩ := by
    refine ⟨hadd, fun constant hconstant => ?_⟩
    simp only [List.mem_toArray, List.mem_cons, List.not_mem_nil, or_false] at hconstant
    rcases hconstant with rfl | rfl | rfl
    · exact True.intro
    · show '\n' ∉ "\"\\%\r".toList
      decide
    · exact ⟨by decide, by decide, hadd⟩
  exact ⟨hassemble, ((assemble_printable _).1 _ hassemble).1,
    (assemble_printable _).2 hprintable⟩

end ClosureMachine
