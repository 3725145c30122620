import ClosureMachine.Assembly.Draft
import ClosureMachine.Listing
import ClosureMachine.Machine.Trace

/-!
# The command line

Reads a file of assembly, runs it, and says what came of it: the value on top of the stack, or else
the value that was discarded last. On request it shows the listings of the program first, the
picture of the machine after the run, and a trace in between. How its tables are drawn is up to a
typesetter.
-/

namespace ClosureMachine.Cli

structure Options where
  disassemble : Bool := false
  state : Bool := false
  trace : Bool := false
  deriving DecidableEq, Repr

/-- The options with one more of them asked for, if there is one of that name. -/
def Options.ask (options : Options) : String → Option Options
  | "--disassemble" => some { options with disassemble := true }
  | "--state" => some { options with state := true }
  | "--trace" => some { options with trace := true }
  | _ => none

/-- The options and the file that a list of arguments asks for. It is `none` unless there is exactly
one file and every option is known. -/
def Options.ofArguments (arguments : List String) : Option (Options × String) := do
  let (flags, files) := arguments.partition (·.startsWith "--")
  let options ← flags.foldlM Options.ask {}
  match files with
  | [file] => some (options, file)
  | _ => none

structure Result where
  status : UInt32
  stdout : String
  stderr : String
  deriving DecidableEq, Repr

inductive ReadError where
  | missing
  | notUtf8
  | system (text : String)
  deriving DecidableEq, Repr

def ReadError.message : ReadError → String
  | missing => "No such file or directory (os error 2)"
  | notUtf8 => "stream did not contain valid UTF-8"
  | system text => text

def decodeFile (bytes : ByteArray) : Except ReadError String :=
  match String.fromUTF8? bytes with
  | some text => .ok text
  | none => .error .notUtf8

/-- The listing of a constant and its number, if it is a function. -/
def functionListing : Constant × Nat → String
  | (.function routine, i) =>
    s!"constant {i} (fn/{routine.params}):\n" ++ disassemble routine.code.toList ++ "\n"
  | _ => ""

/-- The listings of the main stream and of every function among the constants. -/
def listings (program : Program) : String :=
  let main := "main:\n" ++ disassemble program.main.toList ++ "\n"
  main ++ String.join (program.constants.toList.zipIdx.map functionListing)

/-- The host of the command line, which offers nothing. -/
def noHost : Host := fun label heap _ =>
  (.error (.host s!"no function {label}"), heap)

def banner (options : Options) : String :=
  if options.trace then "Computation Tracing ENABLED\n" else ""

/-- The result of a program that a typesetter has brought down. -/
def broken (stdout message : String) : Result :=
  ⟨101, stdout, message⟩

/-- The picture of the machine after the run, if it is asked for. -/
def stateText (draw : Typesetter) (options : Options) (m : Machine) : Except String String :=
  if options.state then (· ++ "\n") <$> m.view.picture draw else .ok ""

/-- What comes of a run that has ended, after what has been put out so far. -/
def conclude (draw : Typesetter) (options : Options) (stdout : String) (m : Machine)
    (outcome : Outcome) : Result :=
  match stateText draw options m with
  | .error message => broken stdout message
  | .ok state =>
    match outcome with
    | .failed e => ⟨1, stdout ++ state, e.message ++ "\n"⟩
    | .finished =>
      let value := m.heap.display (m.top?.getD m.lastPopped)
      ⟨0, stdout ++ state ++ value ++ "\n", ""⟩

/-- What comes of running a program; no answer if the fuel does not last. -/
def runProgram (draw : Typesetter) (fuel : Nat) (options : Options) (program : Program) :
    Option Result := do
  let m := Machine.load {} {} program
  let (told, ending, m) ←
    if options.trace then m.runTraced draw noHost fuel ""
    else (fun (outcome, m) => ("", .ran outcome, m)) <$> m.run noHost fuel
  let listings := if options.disassemble then listings program else ""
  let stdout := banner options ++ listings ++ told
  match ending with
  | .ran outcome => return conclude draw options stdout m outcome
  | .undrawn message => return broken stdout message

/-- What comes of an invocation on a file, given what reading it came to; no answer if the fuel
does not last. -/
def runWith (draw : Typesetter) (fuel : Nat) (options : Options) (file : String)
    (source : Except ReadError String) : Option Result :=
  match source with
  | .error e => some ⟨1, banner options, s!"Cannot read {file}: {e.message}\n"⟩
  | .ok text =>
    match assemble text with
    | .error e => some ⟨1, banner options, e.message ++ "\n"⟩
    | .ok program => runProgram draw fuel options program

/-- What comes of an invocation whose tables are drawn for a terminal. -/
def run : Nat → Options → String → Except ReadError String → Option Result :=
  runWith Grid.draw

end ClosureMachine.Cli
