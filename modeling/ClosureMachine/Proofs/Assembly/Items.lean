import ClosureMachine.Proofs.Assembly.Attribution
import ClosureMachine.Proofs.Assembly.Joining

/-!
# What a text amounts to

Only the items of a text decide which program it assembles to, and of their numbers only the values.

* **`toOption_assemble`**: a text assembles to what its items amount to (`program?`). On which lines
  they stand matters to the errors alone.
* **`Item.Alike`** relates items whose numbers are written in different ways, and **`program?_congr`**
  says that they amount to the same.
-/

namespace ClosureMachine

namespace Assembly

/-- The items of some lines, if every line can be read. -/
def readItems? (lines : List (List Char)) : Option (List Item) := do
  let said ← lines.mapM Line.read?
  return said.filterMap Line.item?

/-- The draft without the number of the line where its block begins. -/
def Draft.unnumbered (draft : Draft) : Draft :=
  draft.moved ⟨#[], #[]⟩ fun _ => 0

/-- Adds items of which nobody knows the lines. -/
def Draft.addItems? (draft : Draft) (items : List Item) : Option Draft :=
  items.foldlM (fun draft item => (draft.addItem 0 item).toOption) draft

/-- The program that some items amount to. -/
def program? (items : List Item) : Option Program := do
  let draft ← Draft.addItems? {} items
  draft.finish.toOption

/-! ## Lines and their items -/

@[simp]
theorem readItems?_nil : readItems? [] = some [] :=
  rfl

theorem readItems?_cons (line : List Char) (lines : List (List Char)) :
    readItems? (line :: lines)
      = (Line.read? line).bind fun said => (readItems? lines).map (said.item?.toList ++ ·) := by
  unfold readItems?
  rw [List.mapM_cons]
  cases Line.read? line with
  | none => rfl
  | some said =>
    cases lines.mapM Line.read? with
    | none => rfl
    | some rest => cases said <;> rfl

theorem readItems?_cons_eq_some_iff {line : List Char} {lines : List (List Char)}
    {items : List Item} : readItems? (line :: lines) = some items
      ↔ ∃ said rest, Line.read? line = some said ∧ readItems? lines = some rest
        ∧ items = said.item?.toList ++ rest := by
  rw [readItems?_cons, Option.bind_eq_some_iff]
  simp only [Option.map_eq_some_iff, eq_comm (a := items), exists_and_left]

theorem readItems?_append_eq_some_iff {front back : List (List Char)} {items : List Item} :
    readItems? (front ++ back) = some items
      ↔ ∃ before after, readItems? front = some before ∧ readItems? back = some after
        ∧ items = before ++ after := by
  induction front generalizing items with
  | nil => simp [eq_comm]
  | cons line front ih =>
    simp only [List.cons_append, readItems?_cons_eq_some_iff, ih]
    constructor
    · rintro ⟨said, _, hsaid, ⟨before, after, hbefore, hafter, rfl⟩, rfl⟩
      exact ⟨_, after, ⟨said, before, hsaid, hbefore, rfl⟩, hafter, (List.append_assoc ..).symm⟩
    · rintro ⟨_, after, ⟨said, before, hsaid, hbefore, rfl⟩, hafter, rfl⟩
      exact ⟨said, _, hsaid, ⟨before, after, hbefore, hafter, rfl⟩, List.append_assoc ..⟩

/-! ## Drafts without line numbers -/

namespace Draft

variable (draft : Draft) (number : Nat)

theorem addItem_unnumbered (item : Item) :
    draft.unnumbered.addItem 0 item = (draft.addItem number item).map unnumbered :=
  draft.addItem_moved ⟨#[], #[]⟩ (fun _ => 0) number item

theorem addItems?_append (front back : List Item) :
    draft.addItems? (front ++ back)
      = (draft.addItems? front).bind fun next => next.addItems? back :=
  List.foldlM_append ..

/-- A line drafts what its item does, if it has one. -/
theorem toOption_addLine (line : List Char) :
    (draft.addLine (line, number)).toOption.map unnumbered
      = (Line.read? line).bind fun said => draft.unnumbered.addItems? said.item?.toList := by
  simp only [addLine, addText]
  cases Line.read? line with
  | none => rfl
  | some said =>
    cases said with
    | blank => rfl
    | item item =>
      have hitem := draft.addItem_unnumbered number item
      dsimp only
      cases hadd : draft.addItem number item with
      | error cause =>
        rw [hadd] at hitem
        simp [addItems?, Line.item?, hitem, Except.map, Except.mapError, Except.toOption]
      | ok next =>
        rw [hadd] at hitem
        simp [addItems?, Line.item?, hitem, Except.map, Except.mapError, Except.toOption]

/-- **Some lines draft what their items do.** -/
theorem toOption_foldlM (lines : List (List Char)) :
    ((lines.zipIdx number).foldlM addLine draft).toOption.map unnumbered
      = (readItems? lines).bind draft.unnumbered.addItems? := by
  induction lines generalizing draft number with
  | nil => rfl
  | cons line lines ih =>
    have hline := draft.toOption_addLine number line
    rw [List.zipIdx_cons, List.foldlM_cons, readItems?_cons]
    cases hread : Line.read? line with
    | none =>
      rw [hread] at hline
      cases hadd : draft.addLine (line, number) with
      | error e => rfl
      | ok next =>
        rw [hadd] at hline
        cases hline
    | some said =>
      rw [hread] at hline
      simp only [Option.bind_some, Option.bind_map, Function.comp_def, addItems?_append]
      cases hadd : draft.addLine (line, number) with
      | error e =>
        rw [hadd] at hline
        have hnone : draft.unnumbered.addItems? said.item?.toList = none := hline.symm
        simp only [hnone, Option.bind_none, Option.bind_fun_none]
        rfl
      | ok next =>
        rw [hadd] at hline
        have hnext : draft.unnumbered.addItems? said.item?.toList = some next.unnumbered := hline.symm
        simp only [hnext, Option.bind_some]
        exact ih next (number + 1)

theorem toOption_finish : draft.finish.toOption = draft.unnumbered.finish.toOption := by
  obtain ⟨main, pool, block?⟩ := draft
  cases block? with
  | none => simp [finish, unnumbered, moved]
  | some block => rfl

end Draft

/-- **What a text assembles to is decided by its items.** -/
theorem toOption_assemble (text : String) :
    (assemble text).toOption = (items? text).bind program? := by
  have hlines := Draft.toOption_foldlM {} 1 (Text.lines text.toList)
  have hbind : (items? text).bind program?
      = ((readItems? (Text.lines text.toList)).bind (Draft.addItems? {})).bind
        fun draft => draft.finish.toOption := by
    rw [Option.bind_assoc]
    rfl
  rw [hbind, show Draft.addItems? {} = (Draft.unnumbered {}).addItems? from rfl, ← hlines]
  unfold assemble Draft.ofLines
  cases ((Text.lines text.toList).zipIdx 1).foldlM Draft.addLine {} with
  | error e => rfl
  | ok draft => exact draft.toOption_finish

/-! ## Items that mean the same -/

/-- Two items that are the same but for how their operands or counts are written. -/
inductive Item.Alike : Item → Item → Prop
  | same (item : Item) : Alike item item
  | instruction {operands operands' : List (List Char)} (name : List Char)
      (h : operands'.map Decimal.toNat = operands.map Decimal.toNat) :
      Alike (.instruction name operands) (.instruction name operands')
  | function {params locals params' locals' : List Char}
      (hparams : Decimal.toNat params' = Decimal.toNat params)
      (hlocals : Decimal.toNat locals' = Decimal.toNat locals) :
      Alike (.function params locals) (.function params' locals')

theorem encode_eq_ok_iff {name : List Char} {operands : List (List Char)} {bytes : List UInt8} :
    encode name operands = .ok bytes ↔ ∃ op : Opcode, op.mnemonic.toList = name
      ∧ Instruction.Fits ⟨op, operands.map Decimal.toNat⟩
      ∧ Instruction.encode ⟨op, operands.map Decimal.toNat⟩ = .ok bytes := by
  refine ⟨instruction_of_encode, ?_⟩
  rintro ⟨op, rfl, hfits, hbytes⟩
  exact encode_of_fits hfits hbytes

theorem toOption_eq_some_iff {ε α : Type} {x : Except ε α} {a : α} :
    x.toOption = some a ↔ x = .ok a := by
  cases x <;> simp [Except.toOption]

theorem toOption_map {ε α β : Type} (f : α → β) (x : Except ε α) :
    (f <$> x).toOption = x.toOption.map f := by
  cases x <;> rfl

theorem Draft.toOption_addItem_congr {item item' : Item} (h : item.Alike item') (draft : Draft)
    (number : Nat) :
    (draft.addItem number item').toOption = (draft.addItem number item).toOption := by
  cases h with
  | same => rfl
  | @instruction operands operands' name h =>
    have hencode : (encode name operands').toOption = (encode name operands).toOption := by
      refine Option.ext fun bytes => ?_
      simp only [toOption_eq_some_iff, encode_eq_ok_iff, h]
    simp only [addItem, toOption_map, hencode]
  | function hparams hlocals =>
    simp only [addItem, openBlock, Assembly.count, hparams, hlocals]
    cases draft.block? with
    | some block => rfl
    | none =>
      dsimp only
      split
      · split <;> rfl
      · rfl

/-- Items that mean the same amount to the same. -/
theorem program?_congr {items items' : List Item} (h : List.Forall₂ Item.Alike items items') :
    program? items' = program? items := by
  have hadd : ∀ draft : Draft, draft.addItems? items' = draft.addItems? items := by
    induction h with
    | nil => exact fun draft => rfl
    | cons hitem _ ih =>
      intro draft
      unfold Draft.addItems?
      rw [List.foldlM_cons, List.foldlM_cons, draft.toOption_addItem_congr hitem]
      exact congrArg _ (funext ih)
  unfold program?
  rw [hadd]

end Assembly

end ClosureMachine
