import ClosureMachine.Opcode
import ClosureMachine.BigEndian
import ClosureMachine.Text.Decimal

/-!
# Instructions

An instruction is an operation with its operands. Encoded, it is the byte of the operation and
then the operands, each big endian at the width that the operation gives it. Encoding checks how
many operands there are and keeps the low bytes of each; decoding reads one instruction off the
front of a sequence of bytes.
-/

namespace ClosureMachine

/-- A stream of encoded instructions, laid end to end. -/
abbrev Code := Array UInt8

/-- What can be wrong with an instruction that is to be encoded or decoded. -/
inductive CodecError where
  /-- No operation has this byte. -/
  | unknownOpcode (byte : UInt8)
  /-- The operation takes another number of operands. -/
  | operandCount (opcode : Opcode) (expected given : Nat)
  /-- The bytes end before the instruction does. -/
  | unexpectedEnd (needed available : Nat)
  deriving DecidableEq, Repr

def CodecError.message : CodecError → String
  | unknownOpcode byte => s!"opcode {byte} undefined"
  | operandCount opcode expected given =>
    s!"{opcode.mnemonic} takes {expected} operands but was given {given}"
  | unexpectedEnd needed available =>
    s!"unexpected end of bytecode: needed {needed} bytes but only {available} remain"

def Opcode.lookup (byte : UInt8) : Except CodecError Opcode :=
  match ofByte? byte with
  | some op => .ok op
  | none => .error (.unknownOpcode byte)

structure Instruction where
  opcode : Opcode
  operands : List Nat
  deriving DecidableEq, Repr

namespace Instruction

/-- Operands at the given widths, laid end to end. -/
def encodeOperands (widths operands : List Nat) : List UInt8 :=
  (List.zipWith BigEndian.encode widths operands).flatten

/-- The operands at the given widths, read off the front of `bytes`. -/
def decodeOperands : List Nat → List UInt8 → List Nat
  | [], _ => []
  | width :: widths, bytes =>
    BigEndian.decode (bytes.take width) :: decodeOperands widths (bytes.drop width)

/-- The first `width` bytes, if there are as many. -/
def takeBytes (width : Nat) (bytes : List UInt8) : Except CodecError (List UInt8) :=
  let block := bytes.take width
  if block.length < width then .error (.unexpectedEnd width block.length) else .ok block

def readNumber (width : Nat) (bytes : List UInt8) : Except CodecError Nat :=
  BigEndian.decode <$> takeBytes width bytes

/-- The operands of `op`, read off the front of the bytes that follow the byte of `op`. -/
def readOperands (op : Opcode) (bytes : List UInt8) : Except CodecError (List Nat) :=
  decodeOperands op.widths <$> takeBytes op.operandBytes bytes

/-- Operands at the given widths, read one after the other off the front of `bytes`, and how many
bytes they take up. -/
def readEach : List Nat → List UInt8 → Except CodecError (List Nat × Nat)
  | [], _ => .ok ([], 0)
  | width :: widths, bytes => do
    let operand ← readNumber width bytes
    let (operands, read) ← readEach widths (bytes.drop width)
    return (operand :: operands, width + read)

/-- As `readOperands`, one operand after the other, with the number of bytes that they take up. -/
def readBlock (op : Opcode) (bytes : List UInt8) : Except CodecError (List Nat × Nat) := do
  readEach op.widths (← takeBytes op.operandBytes bytes)

def size (i : Instruction) : Nat :=
  i.opcode.size

/-- The bytes of an instruction. Its operands have to be as many as its operation takes; of each,
the bytes above its width are dropped. -/
def encode (i : Instruction) : Except CodecError (List UInt8) :=
  if i.operands.length = i.opcode.arity then
    .ok (i.opcode.toByte :: encodeOperands i.opcode.widths i.operands)
  else
    .error (.operandCount i.opcode i.opcode.arity i.operands.length)

/-- The bytes of an instruction that is given by the byte of its operation. -/
def encodeRaw (byte : UInt8) (operands : List Nat) : Except CodecError (List UInt8) := do
  encode ⟨← Opcode.lookup byte, operands⟩

/-- The instruction at the front of a sequence of bytes. -/
def decode : List UInt8 → Except CodecError Instruction
  | [] => .error (.unexpectedEnd 1 0)
  | byte :: bytes => do
    let op ← Opcode.lookup byte
    return ⟨op, ← readOperands op bytes⟩

/-- The instruction at `offset` in `code`. No instruction is longer than four bytes, so no more
are looked at. -/
def decodeAt (code : Code) (offset : Nat) : Except CodecError Instruction :=
  decode (code.extract offset (offset + 4)).toList

/-- The first operand, or 0. -/
def first (i : Instruction) : Nat :=
  i.operands.headD 0

/-- The second operand, or 0. -/
def second (i : Instruction) : Nat :=
  i.operands.tail.headD 0

/-- The mnemonic and the operands, a space between each. -/
def text (i : Instruction) : List Char :=
  [' '].intercalate (i.opcode.mnemonic.toList :: i.operands.map Decimal.ofNat)

end Instruction

end ClosureMachine
