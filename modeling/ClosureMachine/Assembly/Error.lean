import ClosureMachine.Instruction

/-!
# Errors in assembly text

What is wrong with a text, and on which line.
-/

namespace ClosureMachine

/-- What can be wrong with a line of assembly, or with a block that it opens. -/
inductive AssemblyError.Cause where
  /-- No operation has this name. -/
  | notAnOperation (name : String)
  /-- The operation takes another number of operands. -/
  | wrongArity (opcode : Opcode) (expected given : Nat)
  /-- The operand needs more bytes than the operation gives it. -/
  | operandTooWide (operand : String) (width : Nat)
  /-- The text is not a line of assembly, or not a count. -/
  | malformed (text : String)
  /-- A block is closed where none is open. -/
  | unmatchedEnd
  /-- A block is opened inside another. -/
  | nestedFunction
  /-- A block is never closed. -/
  | unterminatedFunction
  /-- The instruction cannot be encoded. -/
  | encoding (e : CodecError)
  deriving DecidableEq, Repr

/-- An error and the number of the line that it is on, the first line being 1. -/
structure AssemblyError where
  line : Nat
  cause : AssemblyError.Cause
  deriving DecidableEq, Repr

namespace AssemblyError

def Cause.message : Cause → String
  | notAnOperation name => s!"{name} is not an operation."
  | wrongArity opcode expected given =>
    s!"{opcode.mnemonic} requires {expected} operands but was given {given}."
  | operandTooWide operand width => s!"operand {operand} does not fit in {width} bytes."
  | malformed text => "cannot parse `" ++ text ++ "`."
  | unmatchedEnd => ".end without a matching .function."
  | nestedFunction => ".function blocks cannot nest."
  | unterminatedFunction => ".function is never closed with .end."
  | encoding e => e.message

/-- The wording of an error. An error of the codec speaks for itself. -/
def message (e : AssemblyError) : String :=
  match e.cause with
  | .encoding e => e.message
  | cause => s!"Error on line {e.line}: " ++ cause.message

end AssemblyError

end ClosureMachine
