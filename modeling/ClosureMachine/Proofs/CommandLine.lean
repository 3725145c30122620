import ClosureMachine.Cli
import ClosureMachine.Proofs.Machine.Tracing

/-!
# What the command line puts out

The output of an invocation is made of parts, one after the other: the listings of the program if they
were asked for, the trace of the run if that was, and then the rest. A trace comes in between and
changes nothing else, as long as the pictures in it can be drawn.

* **`listings_eq`** gives the listings line by line.
* **`runProgram_of_told`** gives the result of a program part by part.
* **`trace_only_adds`** compares an invocation with the same invocation when it is traced.
* **`trace_breaks_off`** is about a picture that cannot be drawn.
-/

namespace ClosureMachine.Cli

/-! ## Listings -/

/-- The lines about a stream: a heading, a line for each entry of its listing, and an empty line. -/
def block (heading : String) (code : Code) : List String :=
  heading :: (Listing.entries code.toList).map (fun entry => String.ofList entry.line) ++ [""]

/-- The lines about the functions among constants of which the first one has this number. -/
def functionLines : Nat → List Constant → List String
  | _, [] => []
  | i, .function routine :: constants =>
    block s!"constant {i} (fn/{routine.params}):" routine.code ++ functionLines (i + 1) constants
  | i, _ :: constants => functionLines (i + 1) constants

/-- The lines about a program. -/
def listingLines (program : Program) : List String :=
  block "main:" program.main ++ functionLines 0 program.constants.toList

/-- Lines with a line feed after each. -/
def unlines (lines : List String) : String :=
  String.join (lines.map (· ++ "\n"))

theorem unlines_append (lines lines' : List String) :
    unlines (lines ++ lines') = unlines lines ++ unlines lines' := by
  unfold unlines
  rw [List.map_append, String.join_append]

theorem unlines_ofList (lines : List (List Char)) :
    unlines (lines.map String.ofList) = String.ofList (lines.flatMap (· ++ ['\n'])) := by
  induction lines with
  | nil => rfl
  | cons line lines ih =>
    rw [List.map_cons, ← List.singleton_append, unlines_append, ih]
    simp [unlines, String.ofList_append, String.append_assoc]

theorem unlines_entries (entries : List Listing.Entry) :
    unlines (entries.map fun entry => String.ofList entry.line)
      = String.ofList (Listing.text entries) := by
  have h := unlines_ofList (entries.map Listing.Entry.line)
  rwa [List.map_map, List.flatMap_map] at h

theorem unlines_block (heading : String) (code : Code) :
    unlines (block heading code) = heading ++ "\n" ++ disassemble code.toList ++ "\n" := by
  rw [block, ← List.singleton_append, unlines_append, unlines_append, unlines_entries]
  simp [unlines, disassemble, String.append_assoc]

theorem unlines_functionLines (i : Nat) (constants : List Constant) :
    unlines (functionLines i constants)
      = String.join ((constants.zipIdx i).map functionListing) := by
  induction constants generalizing i with
  | nil => rfl
  | cons constant constants ih =>
    rw [List.zipIdx_cons, List.map_cons, String.join_cons, ← ih]
    cases constant with
    | function routine =>
      rw [functionLines, unlines_append, unlines_block, functionListing]
      simp [toString, String.append_assoc]
    | _ => simp [functionLines, functionListing]

theorem listings_eq (program : Program) : listings program = unlines (listingLines program) := by
  rw [listingLines, unlines_append, unlines_block, unlines_functionLines]
  rfl

/-! ## The parts of the output -/

/-- The program in a source that can be read and assembled. -/
def program? (source : Except ReadError String) : Option Program :=
  source.toOption.bind fun text => (assemble text).toOption

/-- The first part of the output: the listings of the program, if they are asked for. -/
def listingPart (options : Options) (program : Program) : String :=
  if options.disassemble then unlines (listingLines program) else ""

/-- What there is to tell of the run of a program. -/
def account (fuel : Nat) (program : Program) : List Event :=
  (Machine.load {} {} program).account noHost fuel

variable {draw : Typesetter} {fuel : Nat} {options : Options} {program : Program}

/-- What is put out after a run comes behind what has been put out before. -/
theorem conclude_eq (draw : Typesetter) (options : Options) (stdout : String) (m : Machine)
    (outcome : Outcome) :
    conclude draw options stdout m outcome = { conclude draw options "" m outcome with
      stdout := stdout ++ (conclude draw options "" m outcome).stdout } := by
  unfold conclude broken
  cases stateText draw options m with
  | error message => simp
  | ok state => cases outcome <;> simp [String.append_assoc]

theorem runProgram_of_not_trace (h : options.trace = false) :
    runProgram draw fuel options program =
      ((Machine.load {} {} program).run noHost fuel).map fun (outcome, m) =>
        conclude draw options (listingPart options program) m outcome := by
  unfold runProgram listingPart
  rw [← listings_eq]
  simp only [h, Bool.false_eq_true, if_false, banner]
  cases (Machine.load {} {} program).run noHost fuel with
  | none => rfl
  | some result => simp

theorem runProgram_of_told {trace : String} (h : Told draw (account fuel program) trace) :
    runProgram draw fuel { options with trace := true } program =
      ((Machine.load {} {} program).run noHost fuel).map fun (outcome, m) =>
        conclude draw options
          ("Computation Tracing ENABLED\n" ++ listingPart options program ++ trace) m outcome := by
  unfold runProgram listingPart
  rw [← listings_eq]
  simp only [if_true, Machine.runTraced_of_told h, banner]
  cases (Machine.load {} {} program).run noHost fuel with
  | none => rfl
  | some result => simp; rfl

theorem runProgram_traced {plain : Result} {trace : String} (hplain : options.trace = false)
    (hrun : runProgram draw fuel options program = some plain)
    (htold : Told draw (account fuel program) trace) :
    ∃ rest, plain.stdout = listingPart options program ++ rest
      ∧ runProgram draw fuel { options with trace := true } program = some { plain with
          stdout := "Computation Tracing ENABLED\n" ++ listingPart options program ++ trace
            ++ rest } := by
  rw [runProgram_of_not_trace hplain] at hrun
  obtain ⟨⟨outcome, m⟩, hm, rfl⟩ := Option.map_eq_some_iff.mp hrun
  refine ⟨_, congrArg Result.stdout (conclude_eq draw options _ m outcome), ?_⟩
  rw [runProgram_of_told htold, hm]
  simp only [Option.map_some]
  rw [conclude_eq draw options (listingPart options program), conclude_eq]

/-! ## Traced invocations -/

/-- An invocation on a source without a program comes to the same whatever runs programs. -/
theorem runWith_of_none {file : String} {source : Except ReadError String}
    (h : program? source = none) :
    ∃ stderr, ∀ options, runWith draw fuel options file source
      = some ⟨1, banner options, stderr⟩ := by
  unfold program? at h
  cases source with
  | error e => exact ⟨_, fun _ => rfl⟩
  | ok text =>
    cases hassemble : assemble text with
    | error e => exact ⟨_, fun _ => by rw [runWith, hassemble]⟩
    | ok program =>
      simp [Except.toOption, hassemble] at h

theorem runWith_of_some {file : String} {source : Except ReadError String}
    (h : program? source = some program) (options : Options) :
    runWith draw fuel options file source = runProgram draw fuel options program := by
  unfold program? at h
  cases source with
  | error e => cases h
  | ok text =>
    cases hassemble : assemble text with
    | error e => simp [Except.toOption, hassemble] at h
    | ok assembled =>
      simp only [Except.toOption, hassemble, Option.bind_some] at h
      cases h
      rw [runWith, hassemble]

/-- **A trace breaks off** at the first picture that cannot be drawn, and the invocation with it. -/
theorem trace_breaks_off {file : String} {source : Except ReadError String} {view : View}
    {front back : List Event} {text message : String} (hprogram : program? source = some program)
    (haccount : account fuel program = front ++ .picture view :: back)
    (hfront : Told draw front text) (hundrawn : view.picture draw = .error message) :
    runWith draw fuel { options with trace := true } file source = some (broken
      ("Computation Tracing ENABLED\n" ++ listingPart options program ++ text) message) := by
  obtain ⟨shown, -, hrun⟩ := Machine.runTraced_of_undrawn haccount hfront hundrawn ""
  rw [runWith_of_some hprogram]
  unfold runProgram listingPart
  rw [← listings_eq]
  simp [hrun, banner]

/-- **A trace only adds**, if all that it shows can be drawn; for a terminal it is enough that there is no
escape in it (`View.exists_picture`). Where an invocation comes to a result, the traced one comes to the
same status and the same errors, and its output has the trace after the listings.
The trace is what there is to tell of the run, event by event (`Tells`, `Told`): it names the instructions
that the machine executes, each once and in their order, by the lines that they have in the listings of
their streams, and shows the machine where a call has entered a function and where one has been left. -/
theorem trace_only_adds {file : String} {source : Except ReadError String} {plain : Result}
    (hplain : options.trace = false) (hrun : runWith draw fuel options file source = some plain)
    (hdraw : ∀ program view, program? source = some program →
      .picture view ∈ account fuel program → ∃ text, view.picture draw = .ok text) :
    ∃ listing trace rest,
      plain.stdout = listing ++ rest
      ∧ runWith draw fuel { options with trace := true } file source = some { plain with
          stdout := "Computation Tracing ENABLED\n" ++ listing ++ trace ++ rest }
      ∧ (program? source = none → listing = "" ∧ trace = "")
      ∧ ∀ program, program? source = some program →
        listing = (if options.disassemble then unlines (listingLines program) else "")
        ∧ Tells noHost (Machine.load {} {} program) (account fuel program)
        ∧ Told draw (account fuel program) trace
        ∧ (account fuel program).filterMap Event.executed?
          = (Machine.load {} {} program).history noHost fuel
        ∧ ∀ executed code text, .instruction executed code ∈ account fuel program →
          Event.Reads draw (.instruction executed code) text →
          ∀ entry ∈ Listing.entries code.toList, entry.offset = executed.offset →
            text = String.ofList ((Decimal.ofNat executed.depth).leftpad 3 ' ') ++ " "
              ++ String.ofList entry.line ++ "\n" := by
  cases hprogram : program? source with
  | none =>
    -- nothing runs, and the two differ in the banner only
    obtain ⟨stderr, hruns⟩ : ∃ stderr, ∀ options, runWith draw fuel options file source
        = some ⟨1, banner options, stderr⟩ := runWith_of_none hprogram
    rw [hruns] at hrun
    cases hrun
    refine ⟨"", "", "", by simp [banner, hplain], ?_, fun _ => ⟨rfl, rfl⟩, by simp⟩
    rw [hruns]
    rfl
  | some program =>
    have hwf : WellFormed (Machine.load {} {} program) :=
      .of_fresh (Machine.fresh_load {} {} program)
    rw [runWith_of_some hprogram] at hrun ⊢
    have htells : Tells noHost (Machine.load {} {} program) (account fuel program) := by
      rw [runProgram_of_not_trace hplain] at hrun
      obtain ⟨result, hresult, -⟩ := Option.map_eq_some_iff.mp hrun
      exact Machine.tells_account hwf hresult
    obtain ⟨trace, htold⟩ := htells.told fun view => hdraw program view hprogram
    obtain ⟨rest, hstdout, htraced⟩ := runProgram_traced hplain hrun htold
    refine ⟨listingPart options program, trace, rest, hstdout, htraced, by simp, ?_⟩
    rintro _ ⟨⟩
    refine ⟨rfl, htells, htold, Machine.executed_account .., ?_⟩
    -- the entry that an instruction is told with is the one that the whole listing has there
    intro executed code text _ hreads entry hentry hoffset
    obtain ⟨hshown⟩ := hreads
    rw [← hoffset, Listing.entryAt?_of_mem_entries hentry] at hshown
    cases hshown
    rfl

/-! ### A function is called and returns -/

/-- A typesetter for a terminal on which every character takes one column. -/
def drawPlain : Typesetter :=
  Grid.drawBy fun line => some line.length

def callSource : String :=
  ".function 0 0\nLoadTrue\nReturnValue\n.end\nMakeClosure 0 0\nCall 0\n"

def callProgram : Program where
  main := #[18, 0, 0, 0, 42, 0]
  constants := #[.function { code := #[11, 44] }]

def callListing : List String :=
  ["main:", "0000 MakeClosure 0 0", "0004 Call 0", "",
    "constant 0 (fn/0):", "0000 LoadTrue", "0001 ReturnValue", ""]

/-- What there is to see in the function. -/
def entered : View :=
  ⟨"null", ["closure/0"], ["closure/0 ip=0006 bp=0", "closure/0 ip=0000 bp=1"]⟩

def enteredTables : List String := [
  "  Stack                        │ Frames                                     ",
  " ──────────────────────────────┼─────────────────────────────────────────── ",
  "         Address │ Contents    │        Address │ Contents                  ",
  "   ──────────────┼───────────  │  ──────────────┼────────────────────────   ",
  "    * --> S[0] = │ closure/0   │         F[0] = │ closure/0 ip=0006 bp=0    ",
  "   ──────────────┴───────────  │   * --> F[1] = │ closure/0 ip=0000 bp=1    ",
  "                               │  ──────────────┴────────────────────────   ",
  " ──────────────────────────────┴─────────────────────────────────────────── "]

/-- What there is to see behind it, before its value is on the stack. -/
def returned : View :=
  ⟨"null", [], ["closure/0 ip=0006 bp=0"]⟩

def returnedTables : List String := [
  "  Stack                  │ Frames                                     ",
  " ────────────────────────┼─────────────────────────────────────────── ",
  "    Address │ Contents   │        Address │ Contents                  ",
  "   ─────────┼──────────  │  ──────────────┼────────────────────────   ",
  "   ─────────┴──────────  │   * --> F[0] = │ closure/0 ip=0006 bp=0    ",
  "                         │  ──────────────┴────────────────────────   ",
  " ────────────────────────┴─────────────────────────────────────────── "]

def callTrace : String :=
  String.join [
    "  1 0000 MakeClosure 0 0\n",
    "  1 0004 Call 0\n",
    "Last popped: null\n" ++ unlines enteredTables ++ "\n",
    "  2 0000 LoadTrue\n",
    "  2 0001 ReturnValue\n",
    "Last popped: null\n" ++ unlines returnedTables ++ "\n"]

theorem account_call : account 8 callProgram = [
    .instruction ⟨1, 0, ⟨.makeClosure, [0, 0]⟩⟩ callProgram.main,
    .instruction ⟨1, 4, ⟨.call, [0]⟩⟩ callProgram.main,
    .picture entered,
    .instruction ⟨2, 0, ⟨.loadTrue, []⟩⟩ #[11, 44],
    .instruction ⟨2, 1, ⟨.returnValue, []⟩⟩ #[11, 44],
    .picture returned] := by
  decide +kernel

theorem picture_of_tables {view : View} (lines : List (List Char)) (hpopped : view.lastPopped = "null")
    (h : view.tables draw = .ok (lines.flatMap (· ++ ['\n']))) :
    view.picture draw = .ok ("Last popped: null\n" ++ unlines (lines.map String.ofList)) := by
  unfold View.picture
  rw [h, hpopped, unlines_ofList]
  rfl

-- the characters of the tables are written out, one inside the other, to be compared
set_option maxRecDepth 4000 in
theorem picture_entered :
    entered.picture drawPlain = .ok ("Last popped: null\n" ++ unlines enteredTables) :=
  picture_of_tables [_, _, _, _, _, _, _, _] rfl (by decide +kernel)

set_option maxRecDepth 4000 in
theorem picture_returned :
    returned.picture drawPlain = .ok ("Last popped: null\n" ++ unlines returnedTables) :=
  picture_of_tables [_, _, _, _, _, _, _] rfl (by decide +kernel)

theorem told_call : Told drawPlain (account 8 callProgram) callTrace := by
  have hmake : Event.Reads drawPlain
      (.instruction ⟨1, 0, ⟨.makeClosure, [0, 0]⟩⟩ callProgram.main) "  1 0000 MakeClosure 0 0\n" :=
    Event.reads_instruction_iff.mpr
      ⟨.instruction 0 ⟨.makeClosure, [0, 0]⟩, by decide +kernel, by decide +kernel⟩
  have hcall : Event.Reads drawPlain
      (.instruction ⟨1, 4, ⟨.call, [0]⟩⟩ callProgram.main) "  1 0004 Call 0\n" :=
    Event.reads_instruction_iff.mpr
      ⟨.instruction 4 ⟨.call, [0]⟩, by decide +kernel, by decide +kernel⟩
  have hentered := Event.reads_picture_iff.mpr ⟨_, picture_entered, rfl⟩
  have hload : Event.Reads drawPlain
      (.instruction ⟨2, 0, ⟨.loadTrue, []⟩⟩ #[11, 44]) "  2 0000 LoadTrue\n" :=
    Event.reads_instruction_iff.mpr
      ⟨.instruction 0 ⟨.loadTrue, []⟩, by decide +kernel, by decide +kernel⟩
  have hreturn : Event.Reads drawPlain
      (.instruction ⟨2, 1, ⟨.returnValue, []⟩⟩ #[11, 44]) "  2 0001 ReturnValue\n" :=
    Event.reads_instruction_iff.mpr
      ⟨.instruction 1 ⟨.returnValue, []⟩, by decide +kernel, by decide +kernel⟩
  have hreturned := Event.reads_picture_iff.mpr ⟨_, picture_returned, rfl⟩
  rw [account_call]
  exact Told.join <| .cons hmake <| .cons hcall <| .cons hentered <| .cons hload <| .cons hreturn <|
    .cons hreturned .nil

/-- The trace goes into the function and comes back. -/
theorem trace_only_adds_call :
    program? (.ok callSource) = some callProgram
      ∧ (∀ view, .picture view ∈ account 8 callProgram → ∃ text, view.picture drawPlain = .ok text)
      ∧ runWith drawPlain 8 { disassemble := true } "call" (.ok callSource)
        = some ⟨0, unlines callListing ++ "true\n", ""⟩
      ∧ runWith drawPlain 8 { disassemble := true, trace := true } "call" (.ok callSource)
        = some ⟨0, "Computation Tracing ENABLED\n" ++ unlines callListing ++ callTrace ++ "true\n", ""⟩ := by
  have hprogram : program? (.ok callSource) = some callProgram := by decide +kernel
  have hrun : runWith drawPlain 8 { disassemble := true } "call" (.ok callSource)
      = some ⟨0, unlines callListing ++ "true\n", ""⟩ := by decide +kernel
  have hdraw : ∀ view, .picture view ∈ account 8 callProgram →
      ∃ text, view.picture drawPlain = .ok text := by
    intro view hmem
    simp only [account_call, List.mem_cons, Event.picture.injEq, reduceCtorEq, false_or,
      List.not_mem_nil, or_false] at hmem
    rcases hmem with rfl | rfl
    · exact ⟨_, picture_entered⟩
    · exact ⟨_, picture_returned⟩
  obtain ⟨listing, trace, rest, hstdout, htraced, -, hparts⟩ := trace_only_adds rfl hrun
    fun program view h => by
      obtain rfl := Option.some.inj (hprogram.symm.trans h)
      exact hdraw view
  obtain ⟨hlisting, -, htold, -⟩ := hparts callProgram hprogram
  have hlines : listingLines callProgram = callListing := by decide +kernel
  obtain rfl : listing = unlines callListing := hlines ▸ hlisting
  obtain rfl := htold.unique told_call
  obtain rfl : "true\n" = rest := by simpa using hstdout
  exact ⟨hprogram, hdraw, hrun, htraced⟩

end ClosureMachine.Cli
