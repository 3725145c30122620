import ClosureMachine.Value.Render

/-!
# Descriptions of values

The text of a value with its constructor named, for the eyes of whoever debugs a host: strings are
quoted, routines are shown in full, and the captures of a closure are only counted.
-/

namespace ClosureMachine

def Routine.describe (routine : Routine) : String :=
  let bytes := ", ".intercalate (routine.code.toList.map toString)
  "CompiledFunction \x7b instructions: Instructions([" ++ bytes
    ++ s!"]), num_locals: {routine.locals}, num_parameters: {routine.params} \x7d"

def Heap.describe (heap : Heap) (v : Value) : String :=
  let text := String.ofList (heap.render [] v)
  match v with
  | .integer _ => s!"Integer({text})"
  | .boolean _ => s!"Boolean({text})"
  | .null => "Null"
  | .string _ => s!"Str({text})"
  | .array _ => s!"Array({text})"
  | .hash _ => s!"Hash({text})"
  | .function _ routine => s!"Function({routine.describe})"
  | .closure closure =>
    "Closure \x7b function: " ++ closure.routine.describe
      ++ s!", free: {(heap.captured closure).size} \x7d"
  | .builtin builtin => s!"Builtin({builtin.name})"
  | .module id => s!"Module({(heap.module id).name})"

end ClosureMachine
