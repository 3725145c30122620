import ClosureMachine.Program
import ClosureMachine.Text.Lines
import ClosureMachine.Assembly.Error
import ClosureMachine.Assembly.Line

/-!
# Assembling a program

A program is drafted line by line. Instructions go to the main stream, or to the open block if
there is one. Each constant takes the next place in the pool, and so does a function when its
block is opened: what is declared inside the block comes after it.

A text assembles to a program, or to the first error in it (`assemble`).
-/

namespace ClosureMachine

namespace Assembly

/-- A function whose block is still open. -/
structure Block where
  line : Nat
  params : Nat
  locals : Nat
  code : Code := #[]
  inner : Array Constant := #[]

def Block.routine (block : Block) : Routine :=
  ⟨block.code, block.locals, block.params⟩

/-- The bytes of an instruction, given by its name and its operands in decimal. Every operand has
to fit into the width that the operation gives it. -/
def encode (name : List Char) (operands : List (List Char)) :
    Except AssemblyError.Cause (List UInt8) := do
  let some op := Opcode.ofMnemonic? (String.ofList name)
    | .error (.notAnOperation (String.ofList name))
  if operands.length ≠ op.arity then
    .error (.wrongArity op op.arity operands.length)
  let values ← (op.widths.zip operands).mapM fun (width, operand) =>
    if Decimal.toNat operand < Nat.pow 256 width then
      .ok (Decimal.toNat operand)
    else
      .error (.operandTooWide (String.ofList operand) width)
  match Instruction.encode ⟨op, values⟩ with
  | .ok bytes => .ok bytes
  | .error e => .error (.encoding e)

/-- The count that a numeral denotes. Counts are 64 bit numbers. -/
def count (digits : List Char) : Except AssemblyError.Cause Nat :=
  if Decimal.toNat digits < Nat.pow 2 64 then
    .ok (Decimal.toNat digits)
  else
    .error (.malformed (String.ofList digits))

/-- A program of which some lines have been read. -/
structure Draft where
  main : Code := #[]
  /-- The constants in front of the open block, or all constants if no block is open. -/
  pool : Array Constant := #[]
  block? : Option Block := none

namespace Draft

/-- Appends an instruction to the open block, or else to the main stream. -/
def emit (draft : Draft) (bytes : List UInt8) : Draft :=
  match draft.block? with
  | some block => { draft with block? := some { block with code := block.code ++ bytes } }
  | none => { draft with main := draft.main ++ bytes }

/-- Puts a constant into the next place of the pool. -/
def declare (draft : Draft) (constant : Constant) : Draft :=
  match draft.block? with
  | some block => { draft with block? := some { block with inner := block.inner.push constant } }
  | none => { draft with pool := draft.pool.push constant }

def openBlock (draft : Draft) (line : Nat) (params locals : List Char) :
    Except AssemblyError.Cause Draft :=
  match draft.block? with
  | some _ => .error .nestedFunction
  | none => do
    let params ← count params
    let locals ← count locals
    return { draft with block? := some { line, params, locals } }

/-- Closes the open block: its function takes the next place of the pool, and the constants
declared inside come after it. -/
def closeBlock (draft : Draft) : Except AssemblyError.Cause Draft :=
  match draft.block? with
  | some block =>
    .ok { draft with
      pool := draft.pool.push (.function block.routine) ++ block.inner
      block? := none }
  | none => .error .unmatchedEnd

def addItem (draft : Draft) (line : Nat) : Item → Except AssemblyError.Cause Draft
  | .instruction name operands => draft.emit <$> encode name operands
  | .integer n => .ok (draft.declare (.integer n))
  | .string text => .ok (draft.declare (.string (String.ofList text)))
  | .function params locals => draft.openBlock line params locals
  | .endFunction => draft.closeBlock

def addText (draft : Draft) (line : Nat) (text : List Char) : Except AssemblyError.Cause Draft :=
  match Line.read? text with
  | none => .error (.malformed (String.ofList (Text.trim text)))
  | some .blank => .ok draft
  | some (.item item) => draft.addItem line item

/-- Adds a numbered line of text, and puts its number to an error. -/
def addLine (draft : Draft) (numbered : List Char × Nat) : Except AssemblyError Draft :=
  (draft.addText numbered.2 numbered.1).mapError (⟨numbered.2, ·⟩)

/-- The program that a draft amounts to once all lines have been read. -/
def finish (draft : Draft) : Except AssemblyError Program :=
  match draft.block? with
  | some block => .error ⟨block.line, .unterminatedFunction⟩
  | none => .ok ⟨draft.main, draft.pool⟩

def ofLines (lines : List (List Char)) : Except AssemblyError Draft :=
  (lines.zipIdx 1).foldlM addLine {}

end Draft

end Assembly

/-- The program that a text of assembly describes. -/
def assemble (text : String) : Except AssemblyError Program := do
  (← Assembly.Draft.ofLines (Text.lines text.toList)).finish

end ClosureMachine
