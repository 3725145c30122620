import ClosureMachine.Heap
import ClosureMachine.Text.Utf8

/-!
# Operations on values

Arithmetic, bitwise and ordering operations. Integers are 64 bits wide and wrap around; division
goes toward zero, and its remainder has the sign of the dividend. Strings and arrays can be joined;
an array that comes of joining is new. Integers and strings are ordered, strings by their bytes.
-/

namespace ClosureMachine

/-- The amount of a shift, which has to be less than the width of an integer. -/
def shiftAmount (n : Int64) : Except Fault Int64 :=
  if 0 ≤ n ∧ n ≤ 63 then .ok n else .error (.invalidShift n)

def integerOperation (op : Opcode) (l r : Int64) : Except Fault Value :=
  match op with
  | .add => .ok (.integer (l + r))
  | .sub => .ok (.integer (l - r))
  | .mul => .ok (.integer (l * r))
  | .div => if r = 0 then .error .divisionByZero else .ok (.integer (l / r))
  | .mod => if r = 0 then .error .divisionByZero else .ok (.integer (l % r))
  | .bitwiseOr => .ok (.integer (l ||| r))
  | .bitwiseXor => .ok (.integer (l ^^^ r))
  | .bitwiseAnd => .ok (.integer (l &&& r))
  | .leftShift => (fun n => .integer (l <<< n)) <$> shiftAmount r
  | .rightShift => (fun n => .integer (l >>> n)) <$> shiftAmount r
  | .greaterThan => .ok (.boolean (r < l))
  | .greaterThanEqual => .ok (.boolean (r ≤ l))
  | _ => .error (.typeMismatch .integer .integer)

def stringOperation (op : Opcode) (l r : String) : Except Fault Value :=
  match op with
  | .add => .ok (.string (l ++ r))
  | .greaterThan => .ok (.boolean (Text.precedes r l))
  | .greaterThanEqual => .ok (.boolean (!Text.precedes l r))
  | _ => .error (.typeMismatch .string .string)

def Heap.binary (heap : Heap) (op : Opcode) (left right : Value) : Except Fault (Value × Heap) :=
  match left, right with
  | .integer l, .integer r => (·, heap) <$> integerOperation op l r
  | .string l, .string r => (·, heap) <$> stringOperation op l r
  | .array l, .array r =>
    if op = .add then
      .ok (heap.newArray (heap.array l ++ heap.array r))
    else
      .error (.typeMismatch .array .array)
  | _, _ => .error (.typeMismatch left.kind right.kind)

def Value.unary (op : Opcode) (operand : Value) : Except Fault Value :=
  match op, operand with
  | .not, _ => .ok (.boolean !operand.isTruthy)
  | .minus, .integer n => .ok (.integer (-n))
  | .bitwiseNot, .integer n => .ok (.integer (~~~n))
  | _, _ => .error (.unsupportedOperand operand.kind)

end ClosureMachine
