import ClosureMachine.Program

/-!
# Values

What lies on the operand stack, in the globals and in the pool of constants. Scalars and strings
are values outright. Arrays, hashes and modules are references into a heap. Functions, closures
and builtins carry what never changes about them and an identity that tells them apart; the
captures of a closure can change, so its identity is the place of its captures in the heap.
-/

namespace ClosureMachine

inductive Kind where
  | integer | boolean | null | string | array | hash | function | closure | builtin | module
  deriving DecidableEq, Repr

def Kind.name : Kind → String
  | integer => "INTEGER"
  | boolean => "BOOLEAN"
  | null => "NULL"
  | string => "STRING"
  | array => "ARRAY"
  | hash => "HASH"
  | function => "FUNCTION"
  | closure => "CLOSURE"
  | builtin => "BUILTIN"
  | module => "MODULE"

/-- A routine together with the variables it captured, which stand in the heap at `id`. -/
structure Closure where
  id : Nat
  routine : Routine
  deriving DecidableEq, Repr

/-- A function of the host: an identity, the name that programs and listings know it by, and the
label that the host knows it by. -/
structure Builtin where
  id : Nat
  name : String
  label : String
  deriving DecidableEq, Repr

inductive Value where
  | integer (n : Int64)
  | boolean (b : Bool)
  /-- What an uninitialized local, a bare return or a missing element amounts to. -/
  | null
  | string (text : String)
  | array (id : Nat)
  | hash (id : Nat)
  | function (id : Nat) (routine : Routine)
  | closure (closure : Closure)
  | builtin (builtin : Builtin)
  | module (id : Nat)
  deriving DecidableEq, Inhabited

/-- The values that can be the key of a hash. -/
inductive Key where
  | integer (n : Int64)
  | boolean (b : Bool)
  | string (text : String)
  deriving DecidableEq

def Key.toValue : Key → Value
  | integer n => .integer n
  | boolean b => .boolean b
  | string text => .string text

namespace Value

def kind : Value → Kind
  | integer _ => .integer
  | boolean _ => .boolean
  | null => .null
  | string _ => .string
  | array _ => .array
  | hash _ => .hash
  | function _ _ => .function
  | closure _ => .closure
  | builtin _ => .builtin
  | module _ => .module

/-- Everything but `false` and `null` is truthy, 0 and empty containers included. -/
def isTruthy : Value → Bool
  | boolean b => b
  | null => false
  | _ => true

/-- The key that a value can serve as. -/
def key? : Value → Option Key
  | integer n => some (.integer n)
  | boolean b => some (.boolean b)
  | string text => some (.string text)
  | _ => none

/-- Equality as programs see it: scalars and strings by value, all else by identity. The identity of
an array, a hash or a module is its place in the heap, and so all there is to its value. -/
def equals : Value → Value → Bool
  | function a _, function b _ => a == b
  | closure a, closure b => a.id == b.id
  | builtin a, builtin b => a.id == b.id
  | v, w => v == w

theorem key?_toValue (key : Key) : key.toValue.key? = some key := by
  cases key <;> rfl

theorem equals_refl (v : Value) : v.equals v = true := by
  cases v <;> simp [equals]

theorem equals_comm (v w : Value) : v.equals w = w.equals v := by
  rw [Bool.eq_iff_iff]
  cases v <;> cases w <;> simp [equals] <;> exact eq_comm

end Value

end ClosureMachine
