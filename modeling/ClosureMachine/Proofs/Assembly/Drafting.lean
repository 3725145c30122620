import ClosureMachine.Assembly.Draft
import ClosureMachine.Proofs.Code.Complete

/-!
# What a text can describe

* **`Program.Printable`** says which programs can be written at all: strings without line feeds,
  counts of 64 bits, and code that is complete instructions.
* **`instruction_of_encode`**: the bytes of a line with an instruction are those of the operation that
  it names, with the numbers that it gives.
* **`Draft.adds_of_addLine`** is all that a line can do to a draft. That what is drafted can be
  written follows (`Draft.Printable.addLine`), and so does which place each constant gets
  (`Draft.places_addLine`).
* **`printable_of_assemble`** is about whole texts.
-/

namespace ClosureMachine

/-- A function can be written if its counts are numbers of 64 bits and its code is complete. -/
structure Routine.Printable (routine : Routine) : Prop where
  params : routine.params < Nat.pow 2 64
  locals : routine.locals < Nat.pow 2 64
  code : Complete routine.code.toList

/-- An integer can be written, a string if it has no line feed, and a function as above. -/
def Constant.Printable : Constant → Prop
  | integer _ => True
  | string text => '\n' ∉ text.toList
  | function routine => routine.Printable

structure Program.Printable (program : Program) : Prop where
  main : Complete program.main.toList
  constants : ∀ constant ∈ program.constants, constant.Printable

theorem Opcode.mnemonic_of_ofMnemonic? {text : String} {op : Opcode}
    (h : ofMnemonic? text = some op) : op.mnemonic = text := by
  have hfound := List.find?_some h
  simpa using hfound

namespace Assembly

/-! ## What a line says -/

/-- A string holds no other characters than its line. -/
theorem Item.mem_of_unquote? {quoted text rest : List Char}
    (h : unquote? quoted = some (text, rest)) : ∀ c ∈ text, c ∈ quoted := by
  fun_induction unquote? quoted generalizing text rest with
  | case1 => cases h
  | case2 rest' =>
    cases h
    intro c hc
    cases hc
  | case3 c rest' hc ih =>
    obtain ⟨⟨text', rest''⟩, hread, hpair⟩ := Option.map_eq_some_iff.mp h
    cases hpair
    intro d hd
    rcases List.mem_cons.mp hd with rfl | hd
    · exact List.mem_cons_of_mem _ List.mem_cons_self
    · exact List.mem_cons_of_mem _ (List.mem_cons_of_mem _ (ih hread d hd))
  | case4 => cases h
  | case5 => cases h
  | case6 c rest' _ _ hc ih =>
    obtain ⟨⟨text', rest''⟩, hread, hpair⟩ := Option.map_eq_some_iff.mp h
    cases hpair
    intro d hd
    rcases List.mem_cons.mp hd with rfl | hd
    · exact List.mem_cons_self
    · exact List.mem_cons_of_mem _ (ih hread d hd)

theorem Line.mem_of_afterStr? {text rest : List Char} (h : afterStr? text = some rest) :
    ∀ c ∈ rest, c ∈ text := by
  unfold afterStr? at h
  split at h
  · split at h
    · cases h
      intro c hc
      have hrest := (List.dropWhile_sublist _).subset hc
      exact List.mem_append_right [_, _, _, _, _] hrest
    · cases h
  · cases h

/-- Only what follows `.str` is read as a string. -/
theorem Item.ofWords?_ne_string (ws : List (List Char)) (text : List Char) :
    ofWords? ws ≠ some (.string text) := by
  have hinstruction : ∀ name operands, instruction? name operands ≠ some (.string text) := by
    intro name operands h
    unfold instruction? at h
    split at h <;> cases h
  intro h
  unfold ofWords? at h
  split at h
  · cases h
  · split at h
    · split at h
      · obtain ⟨n, -, hn⟩ := Option.map_eq_some_iff.mp h
        cases hn
      · cases h
    · split at h
      · split at h
        · split at h <;> cases h
        · cases h
      · split at h
        · split at h <;> cases h
        · split at h
          · split at h
            · cases h
            · exact hinstruction _ _ h
          · exact hinstruction _ _ h

theorem Line.mem_of_read?_string {line text : List Char}
    (h : read? line = some (.item (.string text))) : ∀ c ∈ text, c ∈ line := by
  unfold read? at h
  split at h
  · next quoted hquoted =>
    obtain ⟨⟨text', rest⟩, hread, h⟩ := Option.bind_eq_some_iff.mp h
    obtain ⟨content, -, h⟩ := Option.bind_eq_some_iff.mp h
    split at h
    · cases h
      intro c hc
      have hstr := mem_of_afterStr? hquoted c
        (List.mem_cons_of_mem _ (Item.mem_of_unquote? hread c hc))
      exact (List.dropWhile_sublist _).subset hstr
    · cases h
  · cases h
  · obtain ⟨content, -, h⟩ := Option.bind_eq_some_iff.mp h
    split at h
    · cases h
    · obtain ⟨item, hitem, hline⟩ := Option.map_eq_some_iff.mp h
      cases hline
      exact absurd hitem (Item.ofWords?_ne_string _ text)

/-- Operands that are taken are all of them, and all fit. -/
theorem operands_of_mapM {f : Nat × List Char → Except AssemblyError.Cause Nat}
    (hf : ∀ {width operand value}, f (width, operand) = .ok value →
      value = Decimal.toNat operand ∧ value < Nat.pow 256 width)
    {widths : List Nat} {operands : List (List Char)} {values : List Nat}
    (hlen : operands.length = widths.length) (h : (widths.zip operands).mapM f = .ok values) :
    values = operands.map Decimal.toNat
      ∧ List.Forall₂ (fun value width => value < Nat.pow 256 width) values widths := by
  induction widths generalizing operands values with
  | nil =>
    rw [List.length_eq_zero_iff.mp hlen] at h ⊢
    cases h
    exact ⟨rfl, .nil⟩
  | cons width widths ih =>
    cases operands with
    | nil => cases hlen
    | cons operand operands =>
      rw [List.zip_cons_cons, List.mapM_cons] at h
      cases hvalue : f (width, operand) with
      | error cause =>
        rw [hvalue] at h
        cases h
      | ok value =>
        rw [hvalue] at h
        cases hvalues : (widths.zip operands).mapM f with
        | error cause =>
          rw [hvalues] at h
          cases h
        | ok rest =>
          rw [hvalues] at h
          cases h
          obtain ⟨rfl, hfits⟩ := hf hvalue
          obtain ⟨rfl, hrest⟩ := ih (Nat.succ.inj hlen) hvalues
          exact ⟨rfl, .cons hfits hrest⟩

/-- What is encoded is the instruction that was written, and its operands fit. -/
theorem instruction_of_encode {name : List Char} {operands : List (List Char)} {bytes : List UInt8}
    (h : encode name operands = .ok bytes) :
    ∃ op : Opcode, op.mnemonic.toList = name
      ∧ Instruction.Fits ⟨op, operands.map Decimal.toNat⟩
      ∧ Instruction.encode ⟨op, operands.map Decimal.toNat⟩ = .ok bytes := by
  unfold encode at h
  cases hop : Opcode.ofMnemonic? (String.ofList name) with
  | none =>
    rw [hop] at h
    cases h
  | some op =>
    rw [hop] at h
    have hname : op.mnemonic.toList = name := by
      rw [Opcode.mnemonic_of_ofMnemonic? hop, String.toList_ofList]
    dsimp only at h
    split at h
    · cases h
    · next harity =>
      generalize hvalues : (List.mapM _ _ : Except AssemblyError.Cause (List Nat)) = values at h
      cases values with
      | error cause => cases h
      | ok values =>
        change (pure values >>= _ : Except AssemblyError.Cause (List UInt8)) = _ at h
        rw [pure_bind] at h
        obtain ⟨rfl, hfits⟩ := operands_of_mapM (fun hvalue => by
          dsimp only at hvalue
          split at hvalue
          · next hfits =>
            cases hvalue
            exact ⟨rfl, hfits⟩
          · cases hvalue) (not_not.mp harity) hvalues
        refine ⟨op, hname, hfits, ?_⟩
        split at h
        · next hencode =>
          cases h
          exact hencode
        · cases h

theorem complete_of_encode {name : List Char} {operands : List (List Char)} {bytes : List UInt8}
    (h : encode name operands = .ok bytes) : Complete bytes := by
  obtain ⟨op, -, -, hencode⟩ := instruction_of_encode h
  exact ClosureMachine.complete_of_encode hencode

theorem eq_toNat_of_count {digits : List Char} {n : Nat} (h : count digits = .ok n) :
    n = Decimal.toNat digits ∧ n < Nat.pow 2 64 := by
  unfold count at h
  split at h
  · next hlt =>
    cases h
    exact ⟨rfl, hlt⟩
  · cases h

/-! ## What a line does -/

/-- What a line can do to a draft. -/
inductive Draft.Adds (line : List Char) (draft : Draft) : Draft → Prop
  | nothing : Adds line draft draft
  | instruction {bytes : List UInt8} (complete : Complete bytes) :
    Adds line draft (draft.emit bytes)
  | constant {constant : Constant} (printable : '\n' ∉ line → constant.Printable) :
    Adds line draft (draft.declare constant)
  | opens {number params locals : Nat} (closed : draft.block? = none)
    (hparams : params < Nat.pow 2 64) (hlocals : locals < Nat.pow 2 64) :
    Adds line draft { draft with block? := some { line := number, params, locals } }
  | closes {block : Block} (opened : draft.block? = some block) :
    Adds line draft { draft with
      pool := draft.pool.push (.function block.routine) ++ block.inner
      block? := none }

namespace Draft

variable {draft draft' : Draft}

/-- A block is opened with the counts that are written, where no other is open. -/
theorem eq_of_openBlock {number : Nat} {params locals : List Char}
    (h : draft.openBlock number params locals = .ok draft') :
    draft.block? = none
      ∧ Decimal.toNat params < Nat.pow 2 64 ∧ Decimal.toNat locals < Nat.pow 2 64
      ∧ draft' = { draft with
        block? := some ⟨number, Decimal.toNat params, Decimal.toNat locals, #[], #[]⟩ } := by
  unfold openBlock at h
  cases hblock : draft.block? with
  | some block =>
    rw [hblock] at h
    cases h
  | none =>
    rw [hblock] at h
    cases hparams : count params with
    | error cause =>
      simp only [hparams] at h
      cases h
    | ok p =>
      cases hlocals : count locals with
      | error cause =>
        simp only [hparams, hlocals] at h
        cases h
      | ok l =>
        simp only [hparams, hlocals] at h
        cases h
        obtain ⟨rfl, hp⟩ := eq_toNat_of_count hparams
        obtain ⟨rfl, hl⟩ := eq_toNat_of_count hlocals
        exact ⟨rfl, hp, hl, rfl⟩

theorem adds_of_closeBlock (line : List Char) (h : draft.closeBlock = .ok draft') :
    Adds line draft draft' := by
  unfold closeBlock at h
  cases hblock : draft.block? with
  | none =>
    rw [hblock] at h
    cases h
  | some block =>
    rw [hblock] at h
    cases h
    exact .closes hblock

theorem adds_of_addItem {line : List Char} {number : Nat} {item : Item}
    (hread : Line.read? line = some (.item item)) (h : draft.addItem number item = .ok draft') :
    Adds line draft draft' := by
  cases item with
  | instruction name operands =>
    change draft.emit <$> encode name operands = .ok draft' at h
    cases hbytes : encode name operands with
    | error cause =>
      rw [hbytes] at h
      cases h
    | ok bytes =>
      rw [hbytes] at h
      cases h
      exact .instruction (complete_of_encode hbytes)
  | integer n =>
    cases h
    exact .constant fun _ => trivial
  | string text =>
    cases h
    refine .constant fun hline => ?_
    show '\n' ∉ (String.ofList text).toList
    rw [String.toList_ofList]
    exact fun hfeed => hline (Line.mem_of_read?_string hread _ hfeed)
  | function params locals =>
    obtain ⟨hclosed, hparams, hlocals, rfl⟩ := eq_of_openBlock h
    exact .opens hclosed hparams hlocals
  | endFunction => exact adds_of_closeBlock line h

/-- A line that is added is blank, or holds an item that is added. -/
theorem read?_of_addLine {line : List Char} {number : Nat}
    (h : draft.addLine (line, number) = .ok draft') :
    (Line.read? line = some .blank ∧ draft' = draft)
      ∨ ∃ item, Line.read? line = some (.item item) ∧ draft.addItem number item = .ok draft' := by
  have htext : draft.addText number line = .ok draft' := by
    unfold addLine at h
    cases hr : draft.addText number line with
    | ok d =>
      rw [hr] at h
      cases h
      rfl
    | error cause =>
      rw [hr] at h
      cases h
  unfold addText at htext
  split at htext
  · cases htext
  · next hread =>
    cases htext
    exact Or.inl ⟨hread, rfl⟩
  · next item hread => exact Or.inr ⟨item, hread, htext⟩

theorem adds_of_addLine {numbered : List Char × Nat} (h : draft.addLine numbered = .ok draft') :
    Adds numbered.1 draft draft' := by
  rcases read?_of_addLine h with ⟨-, rfl⟩ | ⟨item, hread, hadd⟩
  · exact .nothing
  · exact adds_of_addItem hread hadd

end Draft

structure Block.Printable (block : Block) : Prop where
  routine : block.routine.Printable
  inner : ∀ constant ∈ block.inner, constant.Printable

/-- All that a draft holds can be written. -/
structure Draft.Printable (draft : Draft) : Prop where
  main : Complete draft.main.toList
  pool : ∀ constant ∈ draft.pool, constant.Printable
  block : ∀ block, draft.block? = some block → block.Printable

namespace Draft.Printable

variable {draft draft' : Draft}

theorem empty : Draft.Printable {} :=
  ⟨.nil, by simp, by simp⟩

theorem emit (h : draft.Printable) {bytes : List UInt8} (hbytes : Complete bytes) :
    (draft.emit bytes).Printable := by
  have happend : ∀ {code : Code}, Complete code.toList → Complete (code ++ bytes).toList := by
    intro code hcode
    rw [Array.toList_appendList]
    exact hcode.append hbytes
  obtain ⟨main, pool, block?⟩ := draft
  cases block? with
  | none => exact ⟨happend h.main, h.pool, fun block hb => h.block block hb⟩
  | some block =>
    have hopen := h.block block rfl
    refine ⟨h.main, h.pool, fun block' hb => ?_⟩
    cases hb
    exact ⟨⟨hopen.routine.params, hopen.routine.locals, happend hopen.routine.code⟩, hopen.inner⟩

theorem declare (h : draft.Printable) {constant : Constant} (hconstant : constant.Printable) :
    (draft.declare constant).Printable := by
  have hpush : ∀ {pool : Array Constant}, (∀ c ∈ pool, c.Printable) →
      ∀ c ∈ pool.push constant, c.Printable := by
    intro pool hpool c hc
    rcases Array.mem_or_eq_of_mem_push hc with hc | rfl
    · exact hpool c hc
    · exact hconstant
  obtain ⟨main, pool, block?⟩ := draft
  cases block? with
  | none => exact ⟨h.main, hpush h.pool, fun block hb => h.block block hb⟩
  | some block =>
    have hopen := h.block block rfl
    refine ⟨h.main, h.pool, fun block' hb => ?_⟩
    cases hb
    exact ⟨hopen.routine, hpush hopen.inner⟩

/-- **What a line adds can be written**, if the draft so far can. -/
theorem addLine (h : draft.Printable) {numbered : List Char × Nat} (hline : '\n' ∉ numbered.1)
    (hadd : draft.addLine numbered = .ok draft') : draft'.Printable := by
  cases adds_of_addLine hadd with
  | nothing => exact h
  | instruction hbytes => exact h.emit hbytes
  | constant hconstant => exact h.declare (hconstant hline)
  | opens hclosed hparams hlocals =>
    refine ⟨h.main, h.pool, fun block hblock => ?_⟩
    cases hblock
    exact ⟨⟨hparams, hlocals, .nil⟩, by simp⟩
  | closes hopened =>
    have hblock := h.block _ hopened
    refine ⟨h.main, fun c hc => ?_, fun block hnone => by cases hnone⟩
    rcases Array.mem_append.mp hc with hc | hc
    · rcases Array.mem_or_eq_of_mem_push hc with hc | rfl
      · exact h.pool c hc
      · exact hblock.routine
    · exact hblock.inner c hc

/-- So can what many lines add. -/
theorem foldlM (h : draft.Printable)
    {numbered : List (List Char × Nat)} (hlines : ∀ line ∈ numbered, '\n' ∉ line.1)
    (hfold : numbered.foldlM Draft.addLine draft = .ok draft') : draft'.Printable := by
  induction numbered generalizing draft with
  | nil =>
    cases hfold
    exact h
  | cons line numbered ih =>
    obtain ⟨hline, hrest⟩ := List.forall_mem_cons.mp hlines
    rw [List.foldlM_cons] at hfold
    cases hadd : draft.addLine line with
    | error e =>
      rw [hadd] at hfold
      cases hfold
    | ok next =>
      rw [hadd] at hfold
      exact ih (h.addLine hline hadd) hrest hfold

end Draft.Printable

/-! ## Places

Where a constant will stand is settled when its line is read, and for a function that is when its
block is opened. Its place stays empty until the block is closed.
-/

namespace Draft

variable {draft draft' : Draft}

/-- The places of the pool that are taken so far. That of an open block is still empty. -/
def places (draft : Draft) : Array (Option Constant) :=
  match draft.block? with
  | none => draft.pool.map some
  | some block => (draft.pool.map some).push none ++ block.inner.map some

@[simp]
theorem places_emit (draft : Draft) (bytes : List UInt8) :
    (draft.emit bytes).places = draft.places := by
  obtain ⟨main, pool, block?⟩ := draft
  cases block? with
  | none => rfl
  | some block => rfl

theorem places_declare (draft : Draft) (constant : Constant) :
    (draft.declare constant).places = draft.places.push (some constant) := by
  obtain ⟨main, pool, block?⟩ := draft
  cases block? with
  | none => exact Array.map_push
  | some block =>
    show (pool.map some).push none ++ (block.inner.push constant).map some
      = ((pool.map some).push none ++ block.inner.map some).push (some constant)
    rw [Array.map_push, Array.append_push]

theorem getElem?_push_append {α : Type} (front back : Array α) (a : α) :
    (front.push a ++ back)[front.size]? = some a := by
  rw [Array.getElem?_append_left (by simp)]
  exact Array.getElem?_push_size

theorem setIfInBounds_push_append {α : Type} (front back : Array α) (a b : α) :
    (front.push a ++ back).setIfInBounds front.size b = front.push b ++ back := by
  apply Array.ext'
  simp

/-- A line takes at most the next place. A function fills the place that was taken when its block was
opened, and what the other places hold stays as it is. -/
theorem places_addLine {numbered : List Char × Nat} (h : draft.addLine numbered = .ok draft') :
    draft'.places = draft.places
      ∨ (∃ place, draft'.places = draft.places.push place)
      ∨ draft.places[draft.pool.size]? = some none ∧ ∃ routine, draft'.places
        = draft.places.setIfInBounds draft.pool.size (some (.function routine)) := by
  cases adds_of_addLine h with
  | nothing => exact Or.inl rfl
  | instruction => exact Or.inl (draft.places_emit _)
  | constant => exact Or.inr (Or.inl ⟨_, draft.places_declare _⟩)
  | opens hclosed =>
    refine Or.inr (Or.inl ⟨none, ?_⟩)
    unfold places
    rw [hclosed]
    simp
  | @closes block hopened =>
    have hsize : draft.pool.size = (draft.pool.map some).size := Array.size_map.symm
    refine Or.inr (Or.inr ?_)
    unfold places
    rw [hopened, hsize]
    refine ⟨getElem?_push_append _ _ _, block.routine, ?_⟩
    dsimp only
    rw [setIfInBounds_push_append, Array.map_append, Array.map_push]

/-- No place is empty when all lines have been read. -/
theorem places_finish {program : Program} (h : draft.finish = .ok program) :
    draft.places = program.constants.map some := by
  unfold finish at h
  unfold places
  cases hblock : draft.block? with
  | none =>
    rw [hblock] at h
    cases h
    rfl
  | some block =>
    rw [hblock] at h
    cases h

end Draft

end Assembly

open Assembly in
/-- What is assembled can be written, and no place in it was left empty. -/
theorem printable_of_assemble {text : String} {program : Program}
    (h : assemble text = .ok program) : program.Printable
      ∧ ∃ draft, Draft.ofLines (Text.lines text.toList) = .ok draft
        ∧ draft.places = program.constants.map some := by
  unfold assemble at h
  cases hdraft : Draft.ofLines (Text.lines text.toList) with
  | error e =>
    rw [hdraft] at h
    cases h
  | ok draft =>
    rw [hdraft] at h
    change draft.finish = _ at h
    have hprintable : draft.Printable := by
      refine Draft.Printable.empty.foldlM (fun line hline => ?_) hdraft
      exact Text.not_mem_of_mem_lines (List.fst_mem_of_mem_zipIdx hline)
    refine ⟨?_, draft, rfl, Draft.places_finish h⟩
    unfold Draft.finish at h
    split at h
    · cases h
    · cases h
      exact ⟨hprintable.main, hprintable.pool⟩

end ClosureMachine
