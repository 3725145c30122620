import ClosureMachine.Instruction

/-!
# Programs

What the machine is given to run: a main stream and a pool of constants, which its instructions
name by their place.
-/

namespace ClosureMachine

/-- A compiled function: its code, its local slots (parameters included) and its parameters. -/
structure Routine where
  code : Code := #[]
  locals : Nat := 0
  params : Nat := 0
  deriving DecidableEq, Repr

/-- How many slots a call of the routine takes on the stack for parameters and locals. -/
def Routine.slots (routine : Routine) : Nat :=
  max routine.locals routine.params

/-- A constant as a program declares it. -/
inductive Constant where
  | integer (n : Int64)
  | string (text : String)
  | function (routine : Routine)
  deriving DecidableEq

/-- A main stream and the constants that it and the routines among them refer to. -/
structure Program where
  main : Code
  constants : Array Constant
  deriving DecidableEq

end ClosureMachine
