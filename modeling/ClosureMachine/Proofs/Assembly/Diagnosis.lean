import ClosureMachine.Proofs.Assembly.Attribution
import ClosureMachine.Proofs.Assembly.Joining

/-!
# What is wrong with a text

The errors that a text can have, said without drafting a program from it.

* **`Offence`** is what is wrong with a line that stands inside a block or outside of every block.
* **`Unclosed`** is about the block that is open behind some lines, and **`Inside`** says that there is one.
* **`FirstOffence`** is the first thing that is wrong with the lines of a text.
* **`Draft.addLine_eq_error_iff`** and **`Draft.unclosed_of_addLine`** say what one line does, and
  **`Draft.ofLines_eq_error_iff`** and **`Draft.unclosed_iff`** follow for all of them.
* **`assemble_diagnosis`** is about whole texts.
-/

namespace ClosureMachine.Assembly

open Listing

/-! ## Offences -/

/-- What is wrong with an item that stands inside a block, or outside. What is looked at first counts: the
name of an instruction, then the number of its operands, then each operand in turn; and the place of a
block, then the number of its parameters, then that of its locals. -/
inductive Item.Offence (inside : Prop) : Item → AssemblyError.Cause → Prop
  | notAnOperation {name : List Char} {operands : List (List Char)}
      (h : ∀ op : Opcode, op.mnemonic.toList ≠ name) :
      Offence inside (.instruction name operands) (.notAnOperation (String.ofList name))
  | wrongArity {op : Opcode} {operands : List (List Char)} (h : operands.length ≠ op.arity) :
      Offence inside (.instruction op.mnemonic.toList operands)
        (.wrongArity op op.arity operands.length)
  | operandTooWide {op : Opcode} {operands : List (List Char)} {front back : List (Nat × List Char)}
      {width : Nat} {operand : List Char} (harity : operands.length = op.arity)
      (h : op.widths.zip operands = front ++ (width, operand) :: back)
      (hfront : ∀ fitting ∈ front, Decimal.toNat fitting.2 < Nat.pow 256 fitting.1)
      (hoperand : Nat.pow 256 width ≤ Decimal.toNat operand) :
      Offence inside (.instruction op.mnemonic.toList operands)
        (.operandTooWide (String.ofList operand) width)
  | nestedFunction {params locals : List Char} (h : inside) :
      Offence inside (.function params locals) .nestedFunction
  | params {params locals : List Char} (houtside : ¬inside) (h : Nat.pow 2 64 ≤ Decimal.toNat params) :
      Offence inside (.function params locals) (.malformed (String.ofList params))
  | locals {params locals : List Char} (houtside : ¬inside)
      (hparams : Decimal.toNat params < Nat.pow 2 64) (h : Nat.pow 2 64 ≤ Decimal.toNat locals) :
      Offence inside (.function params locals) (.malformed (String.ofList locals))
  | unmatchedEnd (h : ¬inside) : Offence inside .endFunction .unmatchedEnd

/-- What is wrong with a line: it spells nothing, or an item with which something is wrong. -/
inductive Offence (inside : Prop) : List Char → AssemblyError.Cause → Prop
  | malformed {line : List Char} (h : ∀ said : Line, ¬said.Spelled line) :
      Offence inside line (.malformed (String.ofList (Text.trim line)))
  | item {line : List Char} {item : Item} {cause : AssemblyError.Cause}
      (hline : Line.Spelled (.item item) line) (h : item.Offence inside cause) :
      Offence inside line cause

/-- The line opens a block. -/
def Opens (line : List Char) : Prop :=
  ∃ params locals, Line.Spelled (.item (.function params locals)) line

/-- The line closes a block. -/
def Closes (line : List Char) : Prop :=
  Line.Spelled (.item .endFunction) line

/-- The line with that number, the first one being 1, opens a block that no line behind it closes. -/
inductive Unclosed : List (List Char) → Nat → Prop
  | intro {before behind : List (List Char)} {line : List Char} (hline : Opens line)
      (hbehind : ∀ next ∈ behind, ¬Closes next) :
      Unclosed (before ++ line :: behind) (before.length + 1)

/-- What follows these lines stands inside a block. -/
def Inside (lines : List (List Char)) : Prop :=
  ∃ number, Unclosed lines number

/-- Nothing is wrong with any of the lines where it stands. -/
def Flawless (lines : List (List Char)) : Prop :=
  ∀ front line, front ++ [line] <+: lines → ∀ cause, ¬Offence (Inside front) line cause

/-- What is wrong with the first line with which anything is wrong, and its number. -/
inductive FirstOffence : List (List Char) → AssemblyError → Prop
  | intro {front back : List (List Char)} {line : List Char} {cause : AssemblyError.Cause}
      (hfront : Flawless front) (hline : Offence (Inside front) line cause) :
      FirstOffence (front ++ line :: back) ⟨front.length + 1, cause⟩

/-! ## Instructions -/

section Checks

variable {ε α β : Type} {f : α → Except ε β} {a : α} {as : List α} {y : α} {e e' : ε}

theorem ite_eq_error_iff {p : Prop} [Decidable p] :
    (if p then .ok y else .error e' : Except ε α) = .error e ↔ ¬p ∧ e = e' := by
  split <;> simp [*, eq_comm]

theorem exists_ite_eq_ok_iff {p : Prop} [Decidable p] :
    (∃ z, (if p then .ok y else .error e' : Except ε α) = .ok z) ↔ p := by
  split <;> simp [*]

theorem exists_eq_ok_iff {x : Except ε α} : (∃ y, x = .ok y) ↔ ∀ e, x ≠ .error e := by
  cases x <;> simp

theorem bind_eq_error_iff {x : Except ε α} {g : α → Except ε β} :
    x >>= g = .error e ↔ x = .error e ∨ ∃ y, x = .ok y ∧ g y = .error e := by
  cases x <;> simp [bind, Except.bind]

theorem mapM_cons_eq_error_iff : (a :: as).mapM f = .error e
    ↔ f a = .error e ∨ (∃ y, f a = .ok y) ∧ as.mapM f = .error e := by
  rw [List.mapM_cons]
  cases f a with
  | error e' => simp [bind, Except.bind]
  | ok y => cases as.mapM f <;> simp [bind, Except.bind, pure, Except.pure]

/-- What fails for some of a list fails as it does for the first of them. -/
theorem mapM_eq_error_iff : as.mapM f = .error e ↔ ∃ front a back, as = front ++ a :: back
    ∧ (∀ b ∈ front, ∃ y, f b = .ok y) ∧ f a = .error e := by
  induction as with
  | nil =>
    constructor
    · intro h
      cases h
    · rintro ⟨front, a, back, has, -⟩
      simp at has
  | cons a as ih =>
    rw [mapM_cons_eq_error_iff, ih]
    constructor
    · rintro (he | ⟨ha, front, a', back, rfl, hfront, he⟩)
      · exact ⟨[], a, as, rfl, List.forall_mem_nil _, he⟩
      · exact ⟨a :: front, a', back, rfl, List.forall_mem_cons.mpr ⟨ha, hfront⟩, he⟩
    · rintro ⟨front, a', back, has, hfront, he⟩
      cases front with
      | nil =>
        cases has
        exact Or.inl he
      | cons b front =>
        cases has
        obtain ⟨ha, hfront⟩ := List.forall_mem_cons.mp hfront
        exact Or.inr ⟨ha, front, a', back, rfl, hfront, he⟩

end Checks

/-- The number that an operand denotes, if it fits into its width. -/
def fit (operand : Nat × List Char) : Except AssemblyError.Cause Nat :=
  if Decimal.toNat operand.2 < Nat.pow 256 operand.1 then
    .ok (Decimal.toNat operand.2)
  else
    .error (.operandTooWide (String.ofList operand.2) operand.1)

theorem eq_toNat_of_fit {width value : Nat} {operand : List Char} (h : fit (width, operand) = .ok value) :
    value = Decimal.toNat operand ∧ value < Nat.pow 256 width := by
  unfold fit at h
  split at h
  · next hfits =>
    cases h
    exact ⟨rfl, hfits⟩
  · cases h

section Instruction

variable {name : List Char} {operands : List (List Char)} {op : Opcode} {cause : AssemblyError.Cause}

theorem encode_of_forall_ne (h : ∀ op : Opcode, op.mnemonic.toList ≠ name) :
    encode name operands = .error (.notAnOperation (String.ofList name)) := by
  unfold encode
  cases hop : Opcode.ofMnemonic? (String.ofList name) with
  | none => rfl
  | some op =>
    refine absurd ?_ (h op)
    rw [Opcode.mnemonic_of_ofMnemonic? hop, String.toList_ofList]

theorem encode_of_length_ne (h : operands.length ≠ op.arity) :
    encode op.mnemonic.toList operands = .error (.wrongArity op op.arity operands.length) := by
  unfold encode
  rw [String.ofList_toList, Opcode.ofMnemonic?_mnemonic]
  dsimp only
  rw [if_pos h]
  rfl

/-- With as many operands as the operation takes, only an operand can be wrong. -/
theorem encode_of_length_eq (h : operands.length = op.arity) :
    encode op.mnemonic.toList operands = .error cause
      ↔ (op.widths.zip operands).mapM fit = .error cause := by
  unfold encode
  rw [String.ofList_toList, Opcode.ofMnemonic?_mnemonic]
  dsimp only
  rw [if_neg (not_not_intro h)]
  show ((op.widths.zip operands).mapM fit >>= _) = _ ↔ _
  cases hvalues : (op.widths.zip operands).mapM fit with
  | error cause => simp [bind, Except.bind]
  | ok values =>
    obtain ⟨rfl, -⟩ := operands_of_mapM eq_toNat_of_fit h hvalues
    have hlen : (operands.map Decimal.toNat).length = op.arity := (List.length_map _).trans h
    simp [bind, Except.bind, Instruction.encode, hlen]

/-- **An instruction is refused for what is wrong with it**, wherever it stands. -/
theorem encode_eq_error_iff (inside : Prop) :
    encode name operands = .error cause ↔ Item.Offence inside (.instruction name operands) cause := by
  constructor
  · intro h
    by_cases hname : ∀ op : Opcode, op.mnemonic.toList ≠ name
    · rw [encode_of_forall_ne hname] at h
      cases h
      exact .notAnOperation hname
    · simp only [not_forall, not_not] at hname
      obtain ⟨op, rfl⟩ := hname
      by_cases harity : operands.length = op.arity
      · obtain ⟨front, ⟨width, operand⟩, back, hzip, hfront, hoperand⟩ :=
          mapM_eq_error_iff.mp ((encode_of_length_eq harity).mp h)
        obtain ⟨hwide, rfl⟩ := ite_eq_error_iff.mp hoperand
        have hfits := fun fitting hmem => exists_ite_eq_ok_iff.mp (hfront fitting hmem)
        exact .operandTooWide harity hzip hfits (Nat.not_lt.mp hwide)
      · rw [encode_of_length_ne harity] at h
        cases h
        exact .wrongArity harity
  · intro h
    cases h with
    | notAnOperation hname => exact encode_of_forall_ne hname
    | wrongArity harity => exact encode_of_length_ne harity
    | operandTooWide harity hzip hfront hoperand =>
      refine (encode_of_length_eq harity).mpr (mapM_eq_error_iff.mpr ⟨_, _, _, hzip, ?_, ?_⟩)
      · exact fun fitting hmem => exists_ite_eq_ok_iff.mpr (hfront fitting hmem)
      · exact ite_eq_error_iff.mpr ⟨Nat.not_lt.mpr hoperand, rfl⟩

end Instruction

/-! ## What one line does -/

theorem Line.Spelled.opens_iff {said : Line} {line : List Char} (h : said.Spelled line) :
    Opens line ↔ ∃ params locals, said = .item (.function params locals) := by
  constructor
  · rintro ⟨params, locals, hline⟩
    exact ⟨params, locals, h.unique hline⟩
  · rintro ⟨params, locals, rfl⟩
    exact ⟨params, locals, h⟩

theorem Line.Spelled.closes_iff {said : Line} {line : List Char} (h : said.Spelled line) :
    Closes line ↔ said = .item .endFunction := by
  constructor
  · exact h.unique
  · rintro rfl
    exact h

namespace Draft

variable {draft next : Draft} {line : List Char} {number : Nat} {cause : AssemblyError.Cause}

theorem openBlock_eq_error_iff {params locals : List Char} :
    draft.openBlock number params locals = .error cause
      ↔ Item.Offence (draft.block?.isSome = true) (.function params locals) cause := by
  unfold openBlock
  cases hblock : draft.block? with
  | some block =>
    constructor
    · intro h
      cases h
      exact .nestedFunction rfl
    · intro h
      cases h with
      | nestedFunction => rfl
      | params houtside => exact absurd rfl houtside
      | locals houtside => exact absurd rfl houtside
  | none =>
    dsimp only
    rw [bind_eq_error_iff]
    constructor
    · rintro (hparams | ⟨n, hparams, h⟩)
      · obtain ⟨hwide, rfl⟩ := ite_eq_error_iff.mp hparams
        exact .params Bool.false_ne_true (Nat.not_lt.mp hwide)
      · obtain ⟨rfl, hfits⟩ := eq_toNat_of_count hparams
        rcases bind_eq_error_iff.mp h with hlocals | ⟨m, -, h⟩
        · obtain ⟨hwide, rfl⟩ := ite_eq_error_iff.mp hlocals
          exact .locals Bool.false_ne_true hfits (Nat.not_lt.mp hwide)
        · cases h
    · intro h
      cases h with
      | nestedFunction hinside => cases hinside
      | params _ hwide => exact Or.inl (ite_eq_error_iff.mpr ⟨Nat.not_lt.mpr hwide, rfl⟩)
      | locals _ hfits hwide =>
        have hlocals : count locals = .error (.malformed (String.ofList locals)) :=
          ite_eq_error_iff.mpr ⟨Nat.not_lt.mpr hwide, rfl⟩
        exact Or.inr ⟨_, if_pos hfits, bind_eq_error_iff.mpr (Or.inl hlocals)⟩

theorem closeBlock_eq_error_iff :
    draft.closeBlock = .error cause
      ↔ Item.Offence (draft.block?.isSome = true) .endFunction cause := by
  unfold closeBlock
  cases hblock : draft.block? with
  | none =>
    constructor
    · intro h
      cases h
      exact .unmatchedEnd Bool.false_ne_true
    · intro h
      cases h
      rfl
  | some block =>
    constructor
    · intro h
      cases h
    · intro h
      cases h with
      | unmatchedEnd houtside => exact absurd rfl houtside

theorem addItem_eq_error_iff {item : Item} :
    draft.addItem number item = .error cause ↔ item.Offence (draft.block?.isSome = true) cause := by
  cases item with
  | instruction name operands =>
    rw [← encode_eq_error_iff]
    show draft.emit <$> encode name operands = _ ↔ _
    cases encode name operands <;> simp [Functor.map, Except.map]
  -- a constant is never refused
  | integer n => exact ⟨(nomatch ·), (nomatch ·)⟩
  | string text => exact ⟨(nomatch ·), (nomatch ·)⟩
  | function params locals => exact openBlock_eq_error_iff
  | endFunction => exact closeBlock_eq_error_iff

/-- **A line is refused for what is wrong with it.** -/
theorem addText_eq_error_iff :
    draft.addText number line = .error cause ↔ Offence (draft.block?.isSome = true) line cause := by
  unfold addText
  constructor
  · intro h
    split at h
    · next hread =>
      cases h
      refine .malformed fun said hsaid => ?_
      rw [Line.read?_eq_some_iff.mpr hsaid] at hread
      cases hread
    · cases h
    · next item hread =>
      exact .item (Line.read?_eq_some_iff.mp hread) (addItem_eq_error_iff.mp h)
  · intro h
    cases h with
    | malformed hline =>
      have hread : Line.read? line = none :=
        Option.eq_none_iff_forall_ne_some.mpr fun said h => hline said (Line.read?_eq_some_iff.mp h)
      rw [hread]
    | item hline hitem =>
      rw [Line.read?_eq_some_iff.mpr hline]
      exact addItem_eq_error_iff.mpr hitem

theorem addLine_eq_error_iff {e : AssemblyError} :
    draft.addLine (line, number) = .error e
      ↔ e.line = number ∧ Offence (draft.block?.isSome = true) line e.cause := by
  rw [← @addText_eq_error_iff draft line number]
  unfold addLine
  cases draft.addText number line with
  | ok next => simp [Except.mapError]
  | error cause =>
    obtain ⟨n, cause'⟩ := e
    simp [Except.mapError, eq_comm]

theorem block?_emit (draft : Draft) (bytes : List UInt8) :
    (draft.emit bytes).block?.map Block.line = draft.block?.map Block.line := by
  obtain ⟨main, pool, block?⟩ := draft
  cases block? with
  | none => rfl
  | some block => rfl

theorem block?_declare (draft : Draft) (constant : Constant) :
    (draft.declare constant).block?.map Block.line = draft.block?.map Block.line := by
  obtain ⟨main, pool, block?⟩ := draft
  cases block? with
  | none => rfl
  | some block => rfl

/-- **A block is open behind a line** that opens it, or behind a line that does not close it. -/
theorem unclosed_of_addLine (h : draft.addLine (line, number) = .ok next) (n : Nat) :
    next.block?.map Block.line = some n
      ↔ Opens line ∧ n = number ∨ draft.block?.map Block.line = some n ∧ ¬Closes line := by
  rcases read?_of_addLine h with ⟨hread, rfl⟩ | ⟨item, hread, hadd⟩
  · have hline := Line.read?_eq_some_iff.mp hread
    simp [hline.opens_iff, hline.closes_iff]
  · have hline := Line.read?_eq_some_iff.mp hread
    rw [hline.opens_iff, hline.closes_iff]
    cases item with
    | instruction name operands =>
      change draft.emit <$> encode name operands = .ok next at hadd
      cases hbytes : encode name operands with
      | error cause =>
        rw [hbytes] at hadd
        cases hadd
      | ok bytes =>
        rw [hbytes] at hadd
        cases hadd
        simp [block?_emit]
    | integer n =>
      cases hadd
      simp [block?_declare]
    | string text =>
      cases hadd
      simp [block?_declare]
    | function params locals =>
      obtain ⟨hclosed, -, -, rfl⟩ := eq_of_openBlock hadd
      simp [hclosed, eq_comm]
    | endFunction =>
      change draft.closeBlock = .ok next at hadd
      unfold closeBlock at hadd
      split at hadd
      · cases hadd
        simp
      · cases hadd

end Draft

/-! ## What many lines do -/

theorem not_unclosed_nil (n : Nat) : ¬Unclosed [] n := by
  intro h
  generalize hlines : ([] : List (List Char)) = lines at h
  cases h with
  | intro => simp at hlines

theorem unclosed_concat_iff {lines : List (List Char)} {line : List Char} {n : Nat} :
    Unclosed (lines ++ [line]) n
      ↔ Opens line ∧ n = lines.length + 1 ∨ Unclosed lines n ∧ ¬Closes line := by
  constructor
  · intro h
    generalize hlines : lines ++ [line] = all at h
    cases h with
    | @intro before behind opening hopening hbehind =>
      -- the last line opens the block itself, or is the last of those behind the line that does
      rcases List.eq_nil_or_concat' behind with rfl | ⟨behind, last, rfl⟩
      · obtain ⟨rfl, heq⟩ := List.append_inj' hlines rfl
        cases heq
        exact Or.inl ⟨hopening, rfl⟩
      · rw [← List.cons_append, ← List.append_assoc] at hlines
        obtain ⟨rfl, heq⟩ := List.append_inj' hlines rfl
        cases heq
        obtain ⟨hbehind, hline⟩ := List.forall_mem_append.mp hbehind
        exact Or.inr ⟨.intro hopening hbehind, hline line (List.mem_singleton_self line)⟩
  · rintro (⟨hline, rfl⟩ | ⟨h, hline⟩)
    · exact .intro hline (List.forall_mem_nil _)
    · cases h with
      | intro hopening hbehind =>
        rw [List.append_assoc, List.cons_append]
        exact .intro hopening
          (List.forall_mem_append.mpr ⟨hbehind, List.forall_mem_singleton.mpr hline⟩)

theorem flawless_nil : Flawless [] := by
  intro front line hinitial
  simp at hinitial

theorem flawless_concat_iff {lines : List (List Char)} {line : List Char} :
    Flawless (lines ++ [line])
      ↔ Flawless lines ∧ ∀ cause, ¬Offence (Inside lines) line cause := by
  constructor
  · intro h
    refine ⟨fun front line' hinitial => ?_, h lines line List.prefix_rfl⟩
    exact h front line' (hinitial.trans (List.prefix_append _ _))
  · rintro ⟨h, hline⟩ front line' hinitial
    rcases List.prefix_concat_iff.mp hinitial with heq | hinitial
    · obtain ⟨rfl, rfl⟩ := List.append_singleton_inj.mp heq
      exact hline
    · exact h front line' hinitial

namespace Draft

variable {draft : Draft} {lines : List (List Char)} {e : AssemblyError}

theorem ofLines_concat (lines : List (List Char)) (line : List Char) :
    ofLines (lines ++ [line])
      = ofLines lines >>= fun draft => draft.addLine (line, lines.length + 1) := by
  unfold ofLines
  rw [List.zipIdx_append, List.foldlM_append, Nat.add_comm]
  simp

/-- The block that is open in a draft is the one that is open behind its lines. -/
theorem unclosed_iff (h : ofLines lines = .ok draft) (n : Nat) :
    draft.block?.map Block.line = some n ↔ Unclosed lines n := by
  induction lines using List.reverseRecOn generalizing draft n with
  | nil =>
    cases h
    simp [not_unclosed_nil]
  | append_singleton lines line ih =>
    rw [ofLines_concat] at h
    cases hlines : ofLines lines with
    | error e =>
      rw [hlines] at h
      cases h
    | ok before =>
      rw [hlines] at h
      rw [unclosed_of_addLine h, unclosed_concat_iff, ih hlines]

theorem inside_iff (h : ofLines lines = .ok draft) : draft.block?.isSome = true ↔ Inside lines := by
  rw [Option.isSome_iff_exists]
  constructor
  · rintro ⟨block, hblock⟩
    exact ⟨block.line, (unclosed_iff h _).mp (congrArg (Option.map Block.line) hblock)⟩
  · rintro ⟨n, hn⟩
    obtain ⟨block, hblock, -⟩ := Option.map_eq_some_iff.mp ((unclosed_iff h n).mpr hn)
    exact ⟨block, hblock⟩

theorem addLine_of_ofLines (h : ofLines lines = .ok draft) {line : List Char} {number : Nat} :
    draft.addLine (line, number) = .error e
      ↔ e.line = number ∧ Offence (Inside lines) line e.cause := by
  rw [addLine_eq_error_iff, inside_iff h]

/-- Lines with which nothing is wrong are the lines of a draft. -/
theorem exists_ofLines_iff : (∃ draft, ofLines lines = .ok draft) ↔ Flawless lines := by
  induction lines using List.reverseRecOn with
  | nil => exact ⟨fun _ => flawless_nil, fun _ => ⟨_, rfl⟩⟩
  | append_singleton lines line ih =>
    rw [flawless_concat_iff, ← ih, ofLines_concat]
    cases hlines : ofLines lines with
    | error e => simp [bind, Except.bind]
    | ok draft =>
      have hline : (∃ next, draft.addLine (line, lines.length + 1) = .ok next)
          ↔ ∀ cause, ¬Offence (Inside lines) line cause := by
        simp only [exists_eq_ok_iff, ne_eq, addLine_of_ofLines hlines]
        exact ⟨fun h cause hcause => h ⟨_, cause⟩ ⟨rfl, hcause⟩, fun h e he => h e.cause he.2⟩
      show (∃ next, draft.addLine (line, lines.length + 1) = .ok next) ↔ _
      simp [hline]

theorem ofLines_of_isPrefix {front : List (List Char)} (h : ofLines front = .error e)
    (hinitial : front <+: lines) : ofLines lines = .error e := by
  obtain ⟨back, rfl⟩ := hinitial
  unfold ofLines at h ⊢
  rw [List.zipIdx_append, List.foldlM_append, h]
  rfl

/-- **What is wrong with some lines is the first thing that is wrong.** -/
theorem ofLines_eq_error_iff : ofLines lines = .error e ↔ FirstOffence lines e := by
  constructor
  · intro h
    induction lines using List.reverseRecOn with
    | nil => cases h
    | append_singleton lines line ih =>
      rw [ofLines_concat] at h
      rcases bind_eq_error_iff.mp h with hlines | ⟨draft, hlines, hline⟩
      · cases ih hlines with
        | intro hfront hoffence =>
          rw [List.append_assoc, List.cons_append]
          exact .intro hfront hoffence
      · obtain ⟨n, cause⟩ := e
        obtain ⟨rfl, hoffence⟩ := (addLine_of_ofLines hlines).mp hline
        exact .intro (exists_ofLines_iff.mp ⟨draft, hlines⟩) hoffence
  · intro h
    cases h with
    | @intro front back line cause hfront hoffence =>
      -- the lines in front are drafted, and whatever stands behind is not looked at
      obtain ⟨draft, hlines⟩ := exists_ofLines_iff.mpr hfront
      have hline := (addLine_of_ofLines (e := ⟨front.length + 1, cause⟩) hlines).mpr ⟨rfl, hoffence⟩
      have herror : ofLines (front ++ [line]) = .error ⟨front.length + 1, cause⟩ := by
        rw [ofLines_concat, hlines]
        exact hline
      exact ofLines_of_isPrefix herror ⟨back, by simp⟩

end Draft

/-! ## What is wrong with a line -/

section Line

variable {inside : Prop} {line : List Char} {cause cause' : AssemblyError.Cause}

/-- One thing at most is wrong with a line. -/
theorem Offence.unique (h : Offence inside line cause) (h' : Offence inside line cause') :
    cause = cause' := by
  -- a draft with an open block, or one without, refuses the line for both causes
  obtain ⟨draft, hdraft⟩ : ∃ draft : Draft, draft.block?.isSome = true ↔ inside := by
    by_cases hinside : inside
    · exact ⟨{ block? := some ⟨0, 0, 0, #[], #[]⟩ }, iff_of_true rfl hinside⟩
    · exact ⟨{}, iff_of_false Bool.false_ne_true hinside⟩
  rw [← hdraft, ← @Draft.addText_eq_error_iff draft line 0] at h h'
  rw [h] at h'
  exact Except.error.inj h'

theorem Offence.ne_unterminatedFunction (h : Offence inside line cause) :
    cause ≠ .unterminatedFunction := by
  rintro rfl
  cases h with
  | item _ h => cases h

/-- What an instruction is encoded from is never wrong. -/
theorem Offence.ne_encoding (h : Offence inside line cause) (e : CodecError) : cause ≠ .encoding e := by
  rintro rfl
  cases h with
  | item _ h => cases h

/-- The line of a function holds more than either of its counts. -/
theorem Line.Spelled.ne_trim {params locals : List Char}
    (h : Line.Spelled (.item (.function params locals)) line) :
    params ≠ Text.trim line ∧ locals ≠ Text.trim line := by
  obtain ⟨hdot, hparams, hlocals⟩ : '.' ∈ line ∧ Decimal.isNumeral params = true
      ∧ Decimal.isNumeral locals = true := by
    cases h with
    | item _ h =>
      cases h with
      | words hwords hspaced =>
        cases hwords with
        | function hparams hlocals =>
          obtain ⟨tail, rfl, -⟩ := hspaced.first
          exact ⟨by simp, hparams, hlocals⟩
  have hmem : '.' ∈ Text.trim line := Text.mem_trim hdot (by decide)
  have hne : ∀ digits, Decimal.isNumeral digits = true → digits ≠ Text.trim line := by
    rintro _ hdigits rfl
    cases (isAlphanum_of_isNumeral hdigits).2 _ hmem
  exact ⟨hne params hparams, hne locals hlocals⟩

/-- It is the whole line that is malformed, and not a count in it, only if the line spells nothing. -/
theorem malformed_iff : Offence inside line (.malformed (String.ofList (Text.trim line)))
    ↔ ∀ said : Line, ¬said.Spelled line := by
  refine ⟨fun h => ?_, .malformed⟩
  generalize hcause : AssemblyError.Cause.malformed _ = cause at h
  cases h with
  | malformed h => exact h
  | item hline h =>
    cases h with
    | params =>
      have htext := AssemblyError.Cause.malformed.inj hcause
      exact absurd (String.ofList_inj.mp htext).symm hline.ne_trim.1
    | locals =>
      have htext := AssemblyError.Cause.malformed.inj hcause
      exact absurd (String.ofList_inj.mp htext).symm hline.ne_trim.2
    | _ => cases hcause

end Line

/-! ## Texts -/

section Text

variable {lines : List (List Char)} {text : String} {e : AssemblyError}

/-- The lines in front of the first offence. -/
theorem FirstOffence.flawless_take (h : FirstOffence lines e) : Flawless (lines.take (e.line - 1)) := by
  cases h with
  | intro hfront => simpa using hfront

theorem Flawless.exists_spelled (h : Flawless lines) :
    ∀ line ∈ lines, ∃ said : Line, said.Spelled line := by
  intro line hline
  obtain ⟨front, back, rfl⟩ := List.append_of_mem hline
  by_contra hspelled
  refine h front line ⟨back, by simp⟩ _ (.malformed fun said hsaid => hspelled ⟨said, hsaid⟩)

/-- Lines with which nothing is wrong are lines of some text. -/
theorem Flawless.exists_text (h : Flawless lines) (hfeed : ∀ line ∈ lines, '\n' ∉ line) :
    ∃ alone : String, Text.lines alone.toList = lines := by
  have hreturn : ∀ line ∈ lines, Text.dropReturn line = line := by
    intro line hline
    obtain ⟨said, hsaid⟩ := h.exists_spelled line hline
    unfold Text.dropReturn
    refine if_neg fun hlast => ?_
    have hread := Line.read?_eq_some_iff.mpr hsaid
    rw [Line.read?_of_return hlast] at hread
    cases hread
  refine ⟨String.ofList (lines.flatMap (· ++ ['\n'])), ?_⟩
  have hlines := Text.lines_flatMap_append (fun line hline => ⟨hfeed line hline, hreturn line hline⟩) []
  simpa using hlines

theorem Draft.finish_eq_error_iff {draft : Draft} : draft.finish = .error e
    ↔ e.cause = .unterminatedFunction ∧ draft.block?.map Block.line = some e.line := by
  obtain ⟨n, cause⟩ := e
  unfold finish
  cases draft.block? <;> simp [eq_comm, and_comm]

theorem assemble_eq_error_iff : assemble text = .error e
    ↔ FirstOffence (Text.lines text.toList) e
      ∨ Flawless (Text.lines text.toList) ∧ e.cause = .unterminatedFunction
        ∧ Unclosed (Text.lines text.toList) e.line := by
  show Draft.ofLines (Text.lines text.toList) >>= Draft.finish = .error e ↔ _
  rw [bind_eq_error_iff, Draft.ofLines_eq_error_iff, ← Draft.exists_ofLines_iff]
  refine or_congr_right ⟨?_, ?_⟩
  · rintro ⟨draft, hdraft, hfinish⟩
    obtain ⟨hcause, hblock⟩ := Draft.finish_eq_error_iff.mp hfinish
    exact ⟨⟨draft, hdraft⟩, hcause, (Draft.unclosed_iff hdraft _).mp hblock⟩
  · rintro ⟨⟨draft, hdraft⟩, hcause, hopen⟩
    have hblock := (Draft.unclosed_iff hdraft _).mpr hopen
    exact ⟨draft, hdraft, Draft.finish_eq_error_iff.mpr ⟨hcause, hblock⟩⟩

/-- Lines with which nothing is wrong are a program, but for a block that may still be open. -/
theorem Flawless.assembles (h : Flawless (Text.lines text.toList)) :
    (∃ program, assemble text = .ok program)
      ∨ ∃ number, assemble text = .error ⟨number, .unterminatedFunction⟩ := by
  cases htext : assemble text with
  | ok program => exact Or.inl ⟨program, rfl⟩
  | error e =>
    obtain ⟨number, cause⟩ := e
    rcases assemble_eq_error_iff.mp htext with hfirst | ⟨-, rfl, -⟩
    · have hlines := Draft.ofLines_eq_error_iff.mpr hfirst
      obtain ⟨draft, hdraft⟩ := Draft.exists_ofLines_iff.mpr h
      rw [hdraft] at hlines
      cases hlines
    · exact Or.inr ⟨number, rfl⟩

theorem FirstOffence.exists_offence (h : FirstOffence lines e) :
    ∃ inside line, Offence inside line e.cause := by
  cases h with
  | intro _ hline => exact ⟨_, _, hline⟩

end Text

end ClosureMachine.Assembly

namespace ClosureMachine

open Assembly

/-- **The first thing that is wrong with a text is what is reported**, with the number of its line. What
is wrong with a line depends on the line and on whether a block is open in front of it, and on nothing
else; the whole line is malformed exactly if it spells nothing. The lines in front of it are a program, but
for a block that may still be open. A block that is never closed is reported if nothing else is wrong, and
no instruction is refused when it is encoded. -/
theorem assemble_diagnosis (text : String) :
    (∀ e : AssemblyError, e.cause ≠ .unterminatedFunction →
      (assemble text = .error e ↔ FirstOffence (Text.lines text.toList) e))
    ∧ (∀ number, assemble text = .error ⟨number, .unterminatedFunction⟩
      ↔ Flawless (Text.lines text.toList) ∧ Unclosed (Text.lines text.toList) number)
    ∧ (∀ e : AssemblyError, e.cause ≠ .unterminatedFunction → assemble text = .error e →
      (∃ alone : String, Text.lines alone.toList = (Text.lines text.toList).take (e.line - 1))
      ∧ ∀ alone : String, Text.lines alone.toList = (Text.lines text.toList).take (e.line - 1) →
        (∃ program, assemble alone = .ok program)
          ∨ ∃ number, assemble alone = .error ⟨number, .unterminatedFunction⟩)
    ∧ (∀ inside line cause cause', Offence inside line cause → Offence inside line cause' →
      cause = cause')
    ∧ (∀ inside line, Offence inside line (.malformed (String.ofList (Text.trim line)))
      ↔ ∀ said : Line, ¬said.Spelled line)
    ∧ ∀ number e, assemble text ≠ .error ⟨number, .encoding e⟩ := by
  have hfirst : ∀ e : AssemblyError, e.cause ≠ .unterminatedFunction →
      (assemble text = .error e ↔ FirstOffence (Text.lines text.toList) e) := by
    intro e hcause
    rw [assemble_eq_error_iff]
    exact or_iff_left fun h => hcause h.2.1
  refine ⟨hfirst, fun number => ?_, fun e hcause herror => ?_, fun _ _ _ _ h h' => h.unique h',
    fun _ _ => malformed_iff, fun number e herror => ?_⟩
  · rw [assemble_eq_error_iff]
    constructor
    · rintro (h | ⟨hlines, -, hopen⟩)
      · obtain ⟨inside, line, hline⟩ := h.exists_offence
        exact absurd rfl hline.ne_unterminatedFunction
      · exact ⟨hlines, hopen⟩
    · rintro ⟨hlines, hopen⟩
      exact Or.inr ⟨hlines, rfl, hopen⟩
  · have hfront := ((hfirst e hcause).mp herror).flawless_take
    refine ⟨hfront.exists_text fun line hline => ?_, fun alone halone => ?_⟩
    · exact Text.not_mem_of_mem_lines (List.mem_of_mem_take hline)
    · rw [← halone] at hfront
      exact hfront.assembles
  · obtain ⟨inside, line, hline⟩ := ((hfirst _ (by simp)).mp herror).exists_offence
    exact absurd rfl (hline.ne_encoding e)

/-- An unknown name inside a block. In front of it there is only the block, which is still open. -/
theorem assemble_diagnosis_unnamed :
    assemble "Pop\n.function 1 2\nHalt" = .error ⟨3, .notAnOperation "Halt"⟩
      ∧ FirstOffence ["Pop".toList, ".function 1 2".toList, "Halt".toList] ⟨3, .notAnOperation "Halt"⟩
      ∧ (∀ cause, Offence True "Halt".toList cause → cause = .notAnOperation "Halt")
      ∧ ((∃ program, assemble "Pop\n.function 1 2" = .ok program)
        ∨ ∃ number, assemble "Pop\n.function 1 2" = .error ⟨number, .unterminatedFunction⟩) := by
  have herror : assemble "Pop\n.function 1 2\nHalt" = .error ⟨3, .notAnOperation "Halt"⟩ := by
    decide +kernel
  have hspelled : Line.Spelled (.item (.instruction "Halt".toList [])) "Halt".toList :=
    Line.read?_eq_some_iff.mp (by decide +kernel)
  have hname : ∀ op : Opcode, op.mnemonic.toList ≠ "Halt".toList := by
    intro op
    cases op <;> decide
  obtain ⟨hfirst, -, halone, hunique, -, -⟩ := assemble_diagnosis "Pop\n.function 1 2\nHalt"
  refine ⟨herror, (hfirst _ (by decide)).mp herror, fun cause hcause => ?_, ?_⟩
  · exact hunique True "Halt".toList _ _ hcause (.item hspelled (.notAnOperation hname))
  · exact (halone _ (by decide) herror).2 _ (by decide +kernel)

end ClosureMachine
