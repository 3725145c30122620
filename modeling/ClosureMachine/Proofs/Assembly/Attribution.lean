import ClosureMachine.Proofs.Assembly.Drafting
import ClosureMachine.Proofs.Code.Walk
import Mathlib.Data.List.Infix

/-!
# What stems from which line

Every part of an assembled program stems from a line of its text: the bytes of a stream from the
lines with instructions that go to it, and each constant from the line that declares it.

* **`encodings`** lays the instructions among some items end to end. A frame that goes over such a
  stream fetches just what was written (`carries_of_encodings`).
* **`Describes`** says what a program has to do with the items of its text.
* **`Draft.completes_of_addItem`** follows the lines backwards: if what is drafted after an item
  comes to be the program with the items that follow, so does what was drafted before it.
* **`describes_of_assemble`** is about whole texts.
-/

namespace ClosureMachine

namespace Assembly

/-! ## Instructions -/

/-- The encodings of the instructions among some items, one after the other. -/
def encodings : List Item → Except AssemblyError.Cause (List UInt8)
  | [] => .ok []
  | .instruction name operands :: rest => do
    let bytes ← encode name operands
    return bytes ++ (← encodings rest)
  | _ :: rest => encodings rest

theorem encodings_instruction {name : List Char} {operands : List (List Char)} {rest : List Item}
    {bytes : List UInt8} :
    encodings (.instruction name operands :: rest) = .ok bytes
      ↔ ∃ front back, encode name operands = .ok front ∧ encodings rest = .ok back
        ∧ bytes = front ++ back := by
  rw [encodings]
  cases encode name operands with
  | error cause => simp [bind, Except.bind]
  | ok front =>
    cases encodings rest with
    | error cause => simp [bind, Except.bind]
    | ok back => simp [bind, Except.bind, pure, Except.pure, eq_comm]

theorem encodings_append {front back : List Item} {bytes : List UInt8} :
    encodings (front ++ back) = .ok bytes
      ↔ ∃ bytes₁ bytes₂, encodings front = .ok bytes₁ ∧ encodings back = .ok bytes₂
        ∧ bytes = bytes₁ ++ bytes₂ := by
  induction front generalizing bytes with
  | nil => simp [encodings]
  | cons item front ih =>
    cases item with
    | instruction name operands =>
      simp only [List.cons_append, encodings_instruction, ih]
      constructor
      · rintro ⟨first, _, hfirst, ⟨bytes₁, bytes₂, h₁, h₂, rfl⟩, rfl⟩
        exact ⟨first ++ bytes₁, bytes₂, ⟨first, bytes₁, hfirst, h₁, rfl⟩, h₂,
          (List.append_assoc ..).symm⟩
      · rintro ⟨_, bytes₂, ⟨first, bytes₁, hfirst, h₁, rfl⟩, h₂, rfl⟩
        exact ⟨first, bytes₁ ++ bytes₂, hfirst, ⟨bytes₁, bytes₂, h₁, h₂, rfl⟩,
          List.append_assoc ..⟩
    | integer n => exact ih
    | string text => exact ih
    | function params locals => exact ih
    | endFunction => exact ih

/-- A stream is what some items with instructions amount to. Where those in front of such a line end,
a frame fetches the operation that the line names with the numbers that it gives, and is then where
its instruction ends. -/
structure Carries (code : Code) (items : List Item) : Prop where
  bytes : encodings items = .ok code.toList
  fetch : ∀ front name operands back, items = front ++ .instruction name operands :: back →
    ∃ op : Opcode, op.mnemonic.toList = name
      ∧ ∃ before past, encodings front = .ok before
        ∧ encodings (front ++ [.instruction name operands]) = .ok past
        ∧ ∀ frame : Frame, frame.code = code → frame.ip = before.length →
          frame.fetch
            = .ok (⟨op, operands.map Decimal.toNat⟩, { frame with ip := past.length })

/-- **What is fetched is what was written.** -/
theorem carries_of_encodings {code : Code} {items : List Item}
    (h : encodings items = .ok code.toList) : Carries code items := by
  refine ⟨h, fun front name operands back hitems => ?_⟩
  rw [hitems] at h
  obtain ⟨before, _, hfront, hrest, hcode⟩ := encodings_append.mp h
  obtain ⟨bytes, after, hbytes, -, rfl⟩ := encodings_instruction.mp hrest
  obtain ⟨op, hname, hfits, hencode⟩ := instruction_of_encode hbytes
  obtain ⟨hsize, hdecode⟩ := Instruction.decode_of_encode hfits hencode
  have hpast : encodings (front ++ [.instruction name operands]) = .ok (before ++ bytes) := by
    apply encodings_append.mpr
    refine ⟨before, bytes, hfront, ?_, rfl⟩
    exact encodings_instruction.mpr ⟨bytes, [], hbytes, rfl, (List.append_nil _).symm⟩
  refine ⟨op, hname, before, _, hfront, hpast, fun frame hframe hip => ?_⟩
  apply Frame.fetch_eq_ok_iff.mpr
  rw [hframe, hip, hcode, List.drop_left, List.length_append, hsize]
  exact ⟨hdecode after, rfl⟩

/-! ## Items -/

/-- The item that a line holds, if it is not blank. -/
def Line.item? : Line → Option Item
  | .blank => none
  | .item said => some said

/-- The items of a text in the order of its lines, if every line can be read. -/
def items? (text : String) : Option (List Item) := do
  let lines ← (Text.lines text.toList).mapM Line.read?
  return lines.filterMap Line.item?

/-- The items that stand outside every block, when the first one stands within a block or not. -/
def outside : (within : Bool) → List Item → List Item
  | _, [] => []
  | _, .function _ _ :: rest => outside true rest
  | _, .endFunction :: rest => outside false rest
  | true, _ :: rest => outside true rest
  | false, item :: rest => item :: outside false rest

/-- Whether the first of some items declares a constant. -/
def declares : List Item → Bool
  | .integer _ :: _ | .string _ :: _ | .function _ _ :: _ => true
  | _ => false

/-- The items from each declaration on. -/
def declarations (items : List Item) : List (List Item) :=
  items.tails.filter declares

/-- The constant that the first of some items declares. A function has the code between its item and
the end of its block. -/
inductive Declares : List Item → Constant → Prop
  | integer (n : Int64) (rest : List Item) : Declares (.integer n :: rest) (.integer n)
  | string (text : List Char) (rest : List Item) :
    Declares (.string text :: rest) (.string (String.ofList text))
  | function {params locals : List Char} {body rest : List Item} {code : Code}
    (hbody : .endFunction ∉ body) (hcode : Carries code body) :
    Declares (.function params locals :: (body ++ .endFunction :: rest))
      (.function { code, params := Decimal.toNat params, locals := Decimal.toNat locals })

/-- What a program has to do with the items of its text: the instructions outside every block are its
main stream, and its constants are those that are declared, in order. -/
structure Describes (items : List Item) (program : Program) : Prop where
  main : Carries program.main (outside false items)
  constants : List.Forall₂ Declares (declarations items) program.constants.toList

theorem declarations_of_declares {item : Item} {items : List Item}
    (h : declares (item :: items) = true) :
    declarations (item :: items) = (item :: items) :: declarations items := by
  unfold declarations
  rw [List.tails_cons, List.filter_cons_of_pos h]

theorem declarations_of_not_declares {item : Item} {items : List Item}
    (h : declares (item :: items) = false) :
    declarations (item :: items) = declarations items := by
  unfold declarations
  rw [List.tails_cons, List.filter_cons_of_neg (by simp [h])]

/-! ## Drafts -/

/-- What the pool of a draft comes to if the items that follow declare those constants: the function
of an open block takes its place in front of what was declared inside. -/
def Draft.Fills (draft : Draft) (items : List Item) (declared constants : List Constant) : Prop :=
  match draft.block? with
  | none => constants = draft.pool.toList ++ declared
  | some block => ∃ body rest bytes, items = body ++ .endFunction :: rest
    ∧ .endFunction ∉ body ∧ encodings body = .ok bytes
    ∧ constants = draft.pool.toList
      ++ .function ⟨block.code ++ bytes, block.locals, block.params⟩
        :: (block.inner.toList ++ declared)

/-- What a draft comes to with the items that follow. -/
structure Draft.Completes (draft : Draft) (items : List Item) (program : Program) : Prop where
  main : ∃ bytes, encodings (outside draft.block?.isSome items) = .ok bytes
    ∧ program.main = draft.main ++ bytes
  constants : ∃ declared, List.Forall₂ Declares (declarations items) declared
    ∧ draft.Fills items declared program.constants.toList

namespace Draft

variable {draft next : Draft} {items : List Item} {program : Program}

theorem completes_of_finish (h : draft.finish = .ok program) : draft.Completes [] program := by
  obtain ⟨main, pool, block?⟩ := draft
  cases block? with
  | none =>
    cases h
    exact ⟨⟨[], rfl, by simp⟩, [], .nil, by simp [Fills]⟩
  | some block => cases h

theorem completes_of_emit {name : List Char} {operands : List (List Char)} {bytes : List UInt8}
    (hbytes : encode name operands = .ok bytes) (h : (draft.emit bytes).Completes items program) :
    draft.Completes (.instruction name operands :: items) program := by
  obtain ⟨⟨after, hafter, hmain⟩, declared, hdeclared, hfills⟩ := h
  obtain ⟨main, pool, block?⟩ := draft
  cases block? with
  | none =>
    refine ⟨⟨bytes ++ after, ?_, ?_⟩, declared, ?_, hfills⟩
    · exact encodings_instruction.mpr ⟨bytes, after, hbytes, hafter, rfl⟩
    · rw [append_appendList]
      exact hmain
    · rwa [declarations_of_not_declares rfl]
  | some block =>
    obtain ⟨body, rest, code, rfl, hbody, hcode, hconstants⟩ := hfills
    refine ⟨⟨after, hafter, hmain⟩, declared, ?_, ?_⟩
    · rwa [declarations_of_not_declares rfl]
    · refine ⟨.instruction name operands :: body, rest, bytes ++ code, rfl, ?_, ?_, ?_⟩
      · simp [hbody]
      · exact encodings_instruction.mpr ⟨bytes, code, hbytes, hcode, rfl⟩
      · rw [append_appendList]
        exact hconstants

/-- An item that is a constant of its own, be it within a block or not. -/
theorem completes_of_declare {item : Item} {constant : Constant}
    (hitem : ∀ rest, declares (item :: rest) = true ∧ Declares (item :: rest) constant)
    (hplain : ∀ rest, encodings (item :: rest) = encodings rest
      ∧ outside true (item :: rest) = outside true rest
      ∧ outside false (item :: rest) = item :: outside false rest)
    (hend : item ≠ .endFunction) (h : (draft.declare constant).Completes items program) :
    draft.Completes (item :: items) program := by
  obtain ⟨⟨after, hafter, hmain⟩, declared, hdeclared, hfills⟩ := h
  obtain ⟨main, pool, block?⟩ := draft
  have hdeclarations : List.Forall₂ Declares (declarations (item :: items)) (constant :: declared) := by
    rw [declarations_of_declares (hitem items).1]
    exact .cons (hitem items).2 hdeclared
  cases block? with
  | none =>
    refine ⟨⟨after, ?_, hmain⟩, constant :: declared, hdeclarations, ?_⟩
    · show encodings (outside false (item :: items)) = _
      rw [(hplain items).2.2, (hplain _).1]
      exact hafter
    · simpa [Fills, declare] using hfills
  | some block =>
    obtain ⟨body, rest, code, rfl, hbody, hcode, hconstants⟩ := hfills
    refine ⟨⟨after, ?_, hmain⟩, constant :: declared, hdeclarations, ?_⟩
    · show encodings (outside true (item :: _)) = _
      rw [(hplain _).2.1]
      exact hafter
    · refine ⟨item :: body, rest, code, rfl, ?_, ?_, ?_⟩
      · simp [hbody, hend.symm]
      · rw [(hplain body).1]
        exact hcode
      · simpa [declare] using hconstants

theorem completes_of_openBlock {number : Nat} {params locals : List Char}
    (hopen : draft.openBlock number params locals = .ok next) (h : next.Completes items program) :
    draft.Completes (.function params locals :: items) program := by
  obtain ⟨hclosed, -, -, rfl⟩ := eq_of_openBlock hopen
  obtain ⟨⟨after, hafter, hmain⟩, declared, hdeclared, hfills⟩ := h
  obtain ⟨main, pool, block?⟩ := draft
  cases hclosed
  obtain ⟨body, rest, code, rfl, hbody, hcode, hconstants⟩ := hfills
  let routine : Routine := ⟨code.toArray, Decimal.toNat locals, Decimal.toNat params⟩
  have hcarries : Carries routine.code body := carries_of_encodings hcode
  refine ⟨⟨after, hafter, hmain⟩, .function routine :: declared, ?_, ?_⟩
  · rw [declarations_of_declares rfl]
    exact .cons (.function hbody hcarries) hdeclared
  · simpa [Fills, empty_appendList] using hconstants

theorem completes_of_closeBlock (hclose : draft.closeBlock = .ok next)
    (h : next.Completes items program) : draft.Completes (.endFunction :: items) program := by
  obtain ⟨⟨after, hafter, hmain⟩, declared, hdeclared, hfills⟩ := h
  obtain ⟨main, pool, block?⟩ := draft
  cases block? with
  | none => cases hclose
  | some block =>
    cases hclose
    refine ⟨⟨after, hafter, hmain⟩, declared, ?_, [], items, [], rfl, ?_, rfl, ?_⟩
    · rwa [declarations_of_not_declares rfl]
    · simp
    · simpa [Fills, Block.routine] using hfills

/-- **Backwards over an item.** -/
theorem completes_of_addItem {number : Nat} {item : Item}
    (hadd : draft.addItem number item = .ok next) (h : next.Completes items program) :
    draft.Completes (item :: items) program := by
  cases item with
  | instruction name operands =>
    change draft.emit <$> encode name operands = .ok next at hadd
    cases hbytes : encode name operands with
    | error cause =>
      rw [hbytes] at hadd
      cases hadd
    | ok bytes =>
      rw [hbytes] at hadd
      cases hadd
      exact completes_of_emit hbytes h
  | integer n =>
    cases hadd
    exact completes_of_declare (fun rest => ⟨rfl, .integer n rest⟩) (fun rest => ⟨rfl, rfl, rfl⟩)
      nofun h
  | string text =>
    cases hadd
    exact completes_of_declare (fun rest => ⟨rfl, .string text rest⟩) (fun rest => ⟨rfl, rfl, rfl⟩)
      nofun h
  | function params locals => exact completes_of_openBlock hadd h
  | endFunction => exact completes_of_closeBlock hadd h

/-- The lines of a text, from any of them on. -/
theorem completes_of_foldlM {lines : List (List Char)} {number : Nat}
    (hfold : (lines.zipIdx number).foldlM addLine draft = .ok next)
    (hfinish : next.finish = .ok program) :
    ∃ said, lines.mapM Line.read? = some said
      ∧ draft.Completes (said.filterMap Line.item?) program := by
  induction lines generalizing draft number with
  | nil =>
    cases hfold
    exact ⟨[], rfl, completes_of_finish hfinish⟩
  | cons line lines ih =>
    rw [List.zipIdx_cons, List.foldlM_cons] at hfold
    cases hline : draft.addLine (line, number) with
    | error e =>
      rw [hline] at hfold
      cases hfold
    | ok after =>
      rw [hline] at hfold
      obtain ⟨said, hsaid, hcompletes⟩ := ih hfold
      rcases read?_of_addLine hline with ⟨hread, rfl⟩ | ⟨item, hread, hadd⟩
      · exact ⟨.blank :: said, by simp [hread, hsaid], hcompletes⟩
      · exact ⟨.item item :: said, by simp [hread, hsaid], completes_of_addItem hadd hcompletes⟩

end Draft

end Assembly

open Assembly in
/-- **Everything in a program stems from its lines.** If a text assembles, then every line of it can be
read. The instructions outside every block are the main stream, in order; each line that declares a
constant has one in the pool, in order, what is declared inside a block coming after its function;
and a function has the instructions of its block and the counts that are written where it begins.
What a frame fetches from any of these streams is what was written, operands in full. -/
theorem describes_of_assemble {text : String} {program : Program}
    (h : assemble text = .ok program) :
    ∃ items, items? text = some items ∧ Describes items program := by
  unfold assemble at h
  cases hdraft : Draft.ofLines (Text.lines text.toList) with
  | error e =>
    rw [hdraft] at h
    cases h
  | ok draft =>
    rw [hdraft] at h
    obtain ⟨said, hsaid, ⟨bytes, hbytes, hmain⟩, declared, hdeclared, hfills⟩ :=
      Draft.completes_of_foldlM hdraft h
    have hstream : program.main.toList = bytes := by simp [hmain]
    have hpool : program.constants.toList = declared := by simpa [Draft.Fills] using hfills
    refine ⟨said.filterMap Line.item?, by simp [items?, hsaid], ?_, ?_⟩
    · apply carries_of_encodings
      rw [hstream]
      exact hbytes
    · rwa [hpool]

open Assembly in
theorem describes_of_assemble_block :
    ∃ program, program.main = #[Opcode.loadConstant.toByte, 2, 1]
      ∧ program.constants
        = #[.integer 7, .function ⟨#[Opcode.loadLocal.toByte, 200], 3, 2⟩, .string "a"]
      ∧ assemble ".int 7\n.function 2 3\nLoadLocal 200\n.str \"a\"\n.end\nLoadConstant 513"
        = .ok program
      ∧ ∃ items, items? ".int 7\n.function 2 3\nLoadLocal 200\n.str \"a\"\n.end\nLoadConstant 513"
          = some items
        ∧ Describes items program := by
  have h : assemble ".int 7\n.function 2 3\nLoadLocal 200\n.str \"a\"\n.end\nLoadConstant 513"
      = .ok ⟨#[Opcode.loadConstant.toByte, 2, 1],
        #[.integer 7, .function ⟨#[Opcode.loadLocal.toByte, 200], 3, 2⟩, .string "a"]⟩ := by
    decide +kernel
  exact ⟨_, rfl, rfl, h, describes_of_assemble h⟩

end ClosureMachine
