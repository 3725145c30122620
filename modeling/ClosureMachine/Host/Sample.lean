import ClosureMachine.Value.Render

/-!
# A sample host

A few functions for programs to call. Where they speak of one argument, it is the first, or null
if there is none.
-/

namespace ClosureMachine.Host.Sample

def argument (arguments : List Value) : Value :=
  arguments.headD .null

/-- The sum of the arguments, which have to be integers. -/
def sum (arguments : List Value) : Except Fault Value :=
  Value.integer <$> arguments.foldlM
    (fun total argument =>
      match argument with
      | .integer n => .ok (total + n)
      | value => .error (.host s!"cannot sum {value.kind.name}"))
    0

/-- Appends all arguments but the first to the first, which has to be an array. -/
def append (heap : Heap) (arguments : List Value) : Except Fault Value × Heap :=
  match argument arguments with
  | .array id => (.ok (.array id), heap.appendTo id arguments.tail.toArray)
  | value => (.error (.host s!"cannot append to {value.kind.name}"), heap)

end ClosureMachine.Host.Sample

namespace ClosureMachine.Host

def sample : Host := fun label heap arguments =>
  match label with
  | "first" => (.ok (Sample.argument arguments), heap)
  | "args" =>
    let (value, heap) := heap.newArray arguments.toArray
    (.ok value, heap)
  | "fail" => (.error (.host (heap.display (Sample.argument arguments))), heap)
  | "divzero" => (.error .divisionByZero, heap)
  | "typename" => (.ok (.string (Sample.argument arguments).kind.name), heap)
  | "show" => (.ok (.string (heap.display (Sample.argument arguments))), heap)
  | "sum" => (Sample.sum arguments, heap)
  | "append" => Sample.append heap arguments
  | _ => (.error (.host s!"no function {label}"), heap)

end ClosureMachine.Host
