import ClosureMachine.Instruction

/-!
# Listings

The text of a stream: one line for each instruction, with the offset at which it starts. A byte
that no operation has gets a line of its own and is stepped over, so that what follows is still
listed; an instruction that the stream cuts short ends the listing.
-/

namespace ClosureMachine

namespace Listing

/-- One line of a listing: what stands at an offset of the stream. -/
inductive Entry where
  | instruction (offset : Nat) (i : Instruction)
  | error (offset : Nat) (e : CodecError)
  deriving DecidableEq, Repr

namespace Entry

def offset : Entry → Nat
  | instruction offset _ => offset
  | error offset _ => offset

def body : Entry → List Char
  | instruction _ i => i.text
  | error _ e => "ERROR: ".toList ++ e.message.toList

/-- The text of an entry: its offset in at least four digits, a space, its body. -/
def line (entry : Entry) : List Char :=
  Decimal.padded 4 entry.offset ++ ' ' :: entry.body

end Entry

/-- The entries of a stream whose first byte stands at `offset`. -/
def entriesFrom (offset : Nat) : List UInt8 → List Entry
  | [] => []
  | byte :: bytes =>
    match Instruction.decode (byte :: bytes) with
    | .ok i =>
      .instruction offset i :: entriesFrom (offset + i.size) (bytes.drop i.opcode.operandBytes)
    | .error (.unknownOpcode b) =>
      .error offset (.unknownOpcode b) :: entriesFrom (offset + 1) bytes
    | .error e => [.error offset e]
  termination_by bytes => bytes.length
  decreasing_by all_goals simp only [List.length_cons, List.length_drop]; omega

def entries (bytes : List UInt8) : List Entry :=
  entriesFrom 0 bytes

/-- Lines of text, a line feed after each. -/
def text (entries : List Entry) : List Char :=
  entries.flatMap fun entry => entry.line ++ ['\n']

end Listing

def disassemble (bytes : List UInt8) : String :=
  String.ofList (Listing.text (Listing.entries bytes))

/-- Joins encoded instructions into one stream. -/
def Code.ofInstructions (chunks : List (List UInt8)) : Code :=
  chunks.flatten.toArray

/-- Appends an encoded instruction. It starts where the stream ended. -/
def Code.pushInstruction (code : Code) (bytes : List UInt8) : Nat × Code :=
  (code.size, code ++ bytes)

/-- Appends encoded instructions one by one, and answers where each of them starts. -/
def Code.pushAll (code : Code) : List (List UInt8) → List Nat × Code
  | [] => ([], code)
  | bytes :: chunks =>
    let (offset, code) := code.pushInstruction bytes
    let (offsets, code) := pushAll code chunks
    (offset :: offsets, code)

end ClosureMachine
