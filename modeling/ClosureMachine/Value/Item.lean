import ClosureMachine.Heap

/-!
# Items of containers

Reading and writing `container[index]`. What is missing reads as null. An array is written only
within its length; a hash takes any key. Strings and modules can be read but not written.
-/

namespace ClosureMachine

/-- The place that an integer index denotes, if it is not negative. -/
def place? (n : Int64) : Option Nat :=
  if n < 0 then none else some n.toInt.toNat

namespace Heap

def getItem (heap : Heap) (container index : Value) : Except Fault Value :=
  match container, index with
  | .array id, .integer n =>
    .ok (((place? n).bind fun i => (heap.array id)[i]?).getD .null)
  | .string text, .integer n =>
    .ok (((place? n).bind fun i => text.toList[i]?).elim .null (.string <| .singleton ·))
  | .hash id, key => do
    let key ← key.hashKey
    return ((heap.hash id).find? key).getD .null
  | .module id, .string name => .ok (((heap.module id).members.find? name).getD .null)
  | _, _ => .error (.typeMismatch container.kind index.kind)

/-- A place in a container that can be written. -/
inductive Place where
  | element (id slot : Nat)
  | entry (id : Nat) (key : Key)

/-- The place that `container[index]` denotes. -/
def locate (heap : Heap) (container index : Value) : Except Fault Place :=
  match container, index with
  | .array id, .integer n =>
    let length := (heap.array id).size
    match (place? n).filter (· < length) with
    | some slot => .ok (.element id slot)
    | none => .error (.indexOutOfRange n length)
  | .hash id, key => .entry id <$> key.hashKey
  | _, _ => .error (.typeMismatch container.kind index.kind)

def write (heap : Heap) (place : Place) (value : Value) : Heap :=
  match place with
  | .element id slot => heap.setElement id slot value
  | .entry id key => heap.setEntry id key value

def setItem (heap : Heap) (container index value : Value) : Except Fault Heap :=
  (heap.write · value) <$> heap.locate container index

end Heap

end ClosureMachine
