import ClosureMachine.Machine
import ClosureMachine.Text.Terminal
import ClosureMachine.Value.Render

/-!
# The picture of a machine

The value that was discarded last, and a table of the operand stack beside a table of the frames.
Each slot is a row with its address; the last one, which is the top or the active frame, has an
arrow. The picture is there only if all of its tables can be drawn.
-/

namespace ClosureMachine

/-- What a picture shows of a machine: the texts of values and frames. -/
structure View where
  lastPopped : String
  /-- The operand stack, from the bottom up. -/
  stack : List String
  /-- The call stack, the active frame last. -/
  frames : List String
  deriving DecidableEq, Repr

namespace View

def slotGrid (name : String) (slots : List String) : Grid where
  columns := [⟨"Address".toList, .right⟩, ⟨"Contents".toList, .left⟩]
  rows := slots.zipIdx.map fun (text, i) =>
    let address := s!"{name}[{i}] ="
    let address := if i + 1 = slots.length then "* --> " ++ address else address
    [address.toList, text.toList]

/-- The tables side by side, as a typesetter draws them, or the words with which that fails. -/
def tables (draw : Typesetter) (view : View) : Except String (List Char) := do
  let stack ← draw (slotGrid "S" view.stack)
  let frames ← draw (slotGrid "F" view.frames)
  draw ⟨[⟨"Stack".toList, .left⟩, ⟨"Frames".toList, .left⟩], [[stack, frames]]⟩

def picture (draw : Typesetter) (view : View) : Except String String := do
  let tables ← view.tables draw
  return s!"Last popped: {view.lastPopped}\n" ++ String.ofList tables

end View

namespace Machine

def view (m : Machine) : View where
  lastPopped := m.heap.display m.lastPopped
  stack := m.stack.toList.map m.heap.display
  frames := m.frames.reverse.map Frame.display

/-- The picture for a terminal. It is empty if it cannot be drawn. -/
def display (m : Machine) : String :=
  (m.view.picture Grid.draw).toOption.getD ""

end Machine

end ClosureMachine
