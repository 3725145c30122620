/-!
# Opcodes

The operations of the machine: the byte that encodes each, the mnemonic that names it, and the
widths in bytes of its operands. Everything else that walks a stream of instructions recovers
their boundaries from the widths given here.

The small lemmas say that bytes and mnemonics name at most one operation (`ofByte?_toByte`,
`toByte_of_ofByte?`, `ofMnemonic?_mnemonic`).
-/

namespace ClosureMachine

/-- The operations, in the order of their bytes. -/
inductive Opcode where
  -- Scopes
  | loadConstant | loadBuiltin | assignGlobal | assignLocal | loadGlobal | bindGlobal
  | loadLocal | bindLocal | loadFree | loadModule | setSelf
  -- Literals
  | loadTrue | loadFalse | loadNull
  -- Collections
  | getItem | setItem | makeArray | makeHash | makeClosure
  -- Stack hygiene
  | pop | noop
  -- Arithmetic and logic
  | add | sub | mul | div | mod | or | and | not | bitwiseOr | bitwiseXor | bitwiseAnd
  | bitwiseNot | leftShift | rightShift | equal | notEqual | greaterThan | greaterThanEqual
  | minus
  -- Control flow
  | jumpIfFalse | jump | call | bareReturn | returnValue
  deriving DecidableEq, Repr, Inhabited

namespace Opcode

def all : List Opcode :=
  [.loadConstant, .loadBuiltin, .assignGlobal, .assignLocal, .loadGlobal, .bindGlobal,
   .loadLocal, .bindLocal, .loadFree, .loadModule, .setSelf, .loadTrue, .loadFalse, .loadNull,
   .getItem, .setItem, .makeArray, .makeHash, .makeClosure, .pop, .noop, .add, .sub, .mul, .div,
   .mod, .or, .and, .not, .bitwiseOr, .bitwiseXor, .bitwiseAnd, .bitwiseNot, .leftShift,
   .rightShift, .equal, .notEqual, .greaterThan, .greaterThanEqual, .minus, .jumpIfFalse, .jump,
   .call, .bareReturn, .returnValue]

/-- The byte that encodes an operation: its place in the order. -/
def toByte (op : Opcode) : UInt8 :=
  op.ctorIdx.toUInt8

def ofByte? (byte : UInt8) : Option Opcode :=
  all[byte.toNat]?

/-- The name of an operation in listings and assembly text. -/
def mnemonic : Opcode → String
  | loadConstant => "LoadConstant"
  | loadBuiltin => "LoadBuiltin"
  | assignGlobal => "AssignGlobal"
  | assignLocal => "AssignLocal"
  | loadGlobal => "LoadGlobal"
  | bindGlobal => "BindGlobal"
  | loadLocal => "LoadLocal"
  | bindLocal => "BindLocal"
  | loadFree => "LoadFree"
  | loadModule => "LoadModule"
  | setSelf => "SetSelf"
  | loadTrue => "LoadTrue"
  | loadFalse => "LoadFalse"
  | loadNull => "LoadNull"
  | getItem => "GetItem"
  | setItem => "SetItem"
  | makeArray => "MakeArray"
  | makeHash => "MakeHash"
  | makeClosure => "MakeClosure"
  | pop => "Pop"
  | noop => "Noop"
  | add => "Add"
  | sub => "Sub"
  | mul => "Mul"
  | div => "Div"
  | mod => "Mod"
  | or => "Or"
  | and => "And"
  | not => "Not"
  | bitwiseOr => "BitwiseOR"
  | bitwiseXor => "BitwiseXOR"
  | bitwiseAnd => "BitwiseAND"
  | bitwiseNot => "BitwiseNOT"
  | leftShift => "LeftShift"
  | rightShift => "RightShift"
  | equal => "Equal"
  | notEqual => "NotEqual"
  | greaterThan => "GreaterThan"
  | greaterThanEqual => "GreaterThanEqual"
  | minus => "Minus"
  | jumpIfFalse => "JumpIfFalse"
  | jump => "Jump"
  | call => "Call"
  | bareReturn => "Return"
  | returnValue => "ReturnValue"

/-- The operation that a text names, letter for letter. -/
def ofMnemonic? (text : String) : Option Opcode :=
  all.find? (·.mnemonic == text)

/-- The widths in bytes of the operands, in operand order. -/
def widths : Opcode → List Nat
  | loadConstant | assignGlobal | loadGlobal | bindGlobal | makeArray | makeHash
  | jumpIfFalse | jump => [2]
  | loadBuiltin | assignLocal | loadLocal | bindLocal | loadFree | setSelf | call => [1]
  | makeClosure => [2, 1]
  | _ => []

def arity (op : Opcode) : Nat :=
  op.widths.length

def operandBytes (op : Opcode) : Nat :=
  op.widths.foldr (· + ·) 0

def size (op : Opcode) : Nat :=
  1 + op.operandBytes

/-! ### Bytes and mnemonics name operations -/

@[simp]
theorem ofByte?_toByte (op : Opcode) : ofByte? op.toByte = some op := by
  cases op <;> rfl

theorem toNat_toByte_get_all : ∀ i : Fin all.length, (all.get i).toByte.toNat = i := by
  decide

theorem toByte_of_ofByte? {byte : UInt8} {op : Opcode} (h : ofByte? byte = some op) :
    op.toByte = byte := by
  obtain ⟨hlt, hget⟩ := List.getElem?_eq_some_iff.1 h
  apply UInt8.toNat_inj.1
  rw [← hget]
  exact toNat_toByte_get_all ⟨byte.toNat, hlt⟩

theorem ofMnemonic?_mnemonic (op : Opcode) : ofMnemonic? op.mnemonic = some op := by
  cases op <;> rfl

theorem size_le_four (op : Opcode) : op.size ≤ 4 := by
  cases op <;> decide

end Opcode

end ClosureMachine
