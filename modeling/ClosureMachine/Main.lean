import ClosureMachine.Cli

/-!
# The program

Reads the file that its arguments name, and prints what comes of the invocation.
-/

namespace ClosureMachine.Cli

/-- Steps enough for every run that a machine can finish. -/
def fuel : Nat :=
  Nat.pow 2 62

/-- The wording for arguments that ask for nothing. -/
def usage : String :=
  "usage: closure-machine FILE [--disassemble] [--state] [--trace]"

def readSource (file : String) : IO (Except ReadError String) := do
  match ← (IO.FS.readBinFile file).toBaseIO with
  | .ok bytes => return decodeFile bytes
  | .error (.noFileOrDirectory ..) => return .error .missing
  | .error e => return .error (.system (toString e))

def invoke (options : Options) (file : String) : IO UInt32 := do
  match run fuel options file (← readSource file) with
  | none => return 1
  | some result =>
    IO.print result.stdout
    IO.eprint result.stderr
    return result.status

end ClosureMachine.Cli

/-- Carries out what the arguments ask for. Arguments that ask for nothing end with status 2. -/
def main (arguments : List String) : IO UInt32 := do
  match ClosureMachine.Cli.Options.ofArguments arguments with
  | some (options, file) => ClosureMachine.Cli.invoke options file
  | none =>
    IO.eprintln ClosureMachine.Cli.usage
    return 2
