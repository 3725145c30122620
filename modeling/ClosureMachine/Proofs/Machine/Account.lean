import ClosureMachine.Proofs.Code.Walk
import ClosureMachine.Proofs.Machine.Invariant
import ClosureMachine.Proofs.Machine.Picture

/-!
# What there is to tell of a run

A trace tells of the instructions that are executed, and shows the machine where frames are entered or
left.

* **`Event`** is something to tell, **`Told`** says how a list of events reads.
* **`Announces`** says what there is to tell of a step, by what its frame does next, and **`Tells`** of a
  run, step by step.
* **`Machine.account`** computes it, and **`Machine.tells_account`** says that this is right for every
  run that ends.
-/

namespace ClosureMachine

/-! ## Lines of a listing -/

namespace Listing

/-- What a listing of the stream has for what stands at an offset. -/
def entryAt? (code : Code) (offset : Nat) : Option Entry :=
  (entriesFrom offset (code.toList.drop offset)).head?

/-- A listing may as well begin at any of its entries. -/
theorem head?_entriesFrom_offset {entry : Entry} {offset : Nat} {bytes : List UInt8}
    (h : entry ∈ entriesFrom offset bytes) :
    ∃ count, entry.offset = offset + count
      ∧ (entriesFrom entry.offset (bytes.drop count)).head? = some entry := by
  -- along the listing: the entry is the first one, or one of those after it
  fun_induction entriesFrom offset bytes with
  | case1 offset => simp at h
  | case2 offset byte bytes i hdecode ih =>
    rcases List.mem_cons.mp h with rfl | h
    · exact ⟨0, rfl, by rw [List.drop_zero, Entry.offset, entriesFrom, hdecode]; rfl⟩
    · obtain ⟨count, hoffset, hhead⟩ := ih h
      refine ⟨i.size + count, by rw [hoffset, Nat.add_assoc], ?_⟩
      rw [List.drop_drop] at hhead
      rw [show i.size + count = i.opcode.operandBytes + count + 1 from by
        show 1 + i.opcode.operandBytes + count = _
        omega, List.drop_succ_cons]
      exact hhead
  | case3 offset byte bytes b hdecode ih =>
    rcases List.mem_cons.mp h with rfl | h
    · exact ⟨0, rfl, by rw [List.drop_zero, Entry.offset, entriesFrom, hdecode]; rfl⟩
    · obtain ⟨count, hoffset, hhead⟩ := ih h
      refine ⟨1 + count, by rw [hoffset, Nat.add_assoc], ?_⟩
      rw [Nat.add_comm 1, List.drop_succ_cons]
      exact hhead
  | case4 offset byte bytes e hknown hdecode =>
    obtain rfl := List.mem_singleton.mp h
    refine ⟨0, rfl, ?_⟩
    rw [List.drop_zero, Entry.offset, entriesFrom, hdecode]
    cases e <;> rfl

/-- Where the listing of a whole stream has an entry, it is the one that is shown there. -/
theorem entryAt?_of_mem_entries {code : Code} {entry : Entry} (h : entry ∈ entries code.toList) :
    entryAt? code entry.offset = some entry := by
  obtain ⟨count, hoffset, hhead⟩ := head?_entriesFrom_offset h
  unfold entryAt?
  rwa [show entry.offset = count from hoffset.trans (Nat.zero_add _)] at hhead ⊢

theorem entryAt?_of_next {frame : Frame} {i : Instruction} (h : frame.next = .ok i) :
    entryAt? frame.code frame.ip = some (.instruction frame.ip i) := by
  have hdecode : Instruction.decode (frame.code.toList.drop frame.ip) = .ok i := by
    rw [← Instruction.decodeAt_eq]
    exact h
  unfold entryAt?
  rw [entriesFrom_of_ok frame.ip hdecode]
  rfl

end Listing

/-! ## Events -/

/-- What there is to tell of a run: that an instruction is executed in a stream, or what the machine
looks like. -/
inductive Event where
  | instruction (executed : Machine.Executed) (code : Code)
  | picture (view : View)
  deriving DecidableEq

namespace Event

/-- An instruction reads as the depth of the call stack at the right of three columns, a space, and the
line that a listing of the stream has at its offset. A picture has a line feed behind it. -/
inductive Reads (draw : Typesetter) : Event → String → Prop
  | instruction {executed : Machine.Executed} {code : Code} {entry : Listing.Entry}
      (hentry : Listing.entryAt? code executed.offset = some entry) :
      Reads draw (.instruction executed code)
        (String.ofList ((Decimal.ofNat executed.depth).leftpad 3 ' ') ++ " "
          ++ String.ofList entry.line ++ "\n")
  | picture {view : View} {text : String} (hshows : view.Shows draw text) :
      Reads draw (.picture view) (text ++ "\n")

def executed? : Event → Option Machine.Executed
  | instruction executed _ => some executed
  | picture _ => none

end Event

/-- How events read, one after the other. -/
inductive Told (draw : Typesetter) : List Event → String → Prop
  | nil : Told draw [] ""
  | cons {event : Event} {events : List Event} {text rest : String} (hreads : event.Reads draw text)
      (hrest : Told draw events rest) : Told draw (event :: events) (text ++ rest)

theorem Event.reads_instruction_iff {draw : Typesetter} {executed : Machine.Executed} {code : Code}
    {text : String} :
    Event.Reads draw (.instruction executed code) text
      ↔ ∃ entry, Listing.entryAt? code executed.offset = some entry
        ∧ text = String.ofList ((Decimal.ofNat executed.depth).leftpad 3 ' ') ++ " "
          ++ String.ofList entry.line ++ "\n" := by
  constructor
  · rintro (hentry | _)
    exact ⟨_, hentry, rfl⟩
  · rintro ⟨entry, hentry, rfl⟩
    exact .instruction hentry

theorem Event.reads_picture_iff {draw : Typesetter} {view : View} {text : String} :
    Event.Reads draw (.picture view) text
      ↔ ∃ drawn, view.picture draw = .ok drawn ∧ text = drawn ++ "\n" := by
  constructor
  · rintro (_ | hshows)
    exact ⟨_, View.picture_eq_ok_iff.mpr hshows, rfl⟩
  · rintro ⟨drawn, hdrawn, rfl⟩
    exact .picture (View.picture_eq_ok_iff.mp hdrawn)

theorem Event.Reads.unique {draw : Typesetter} {event : Event} {text text' : String}
    (h : event.Reads draw text) (h' : event.Reads draw text') : text = text' := by
  cases event with
  | instruction executed code =>
    obtain ⟨entry, hentry, rfl⟩ := reads_instruction_iff.mp h
    obtain ⟨entry', hentry', rfl⟩ := reads_instruction_iff.mp h'
    obtain rfl := Option.some.inj (hentry.symm.trans hentry')
    rfl
  | picture view =>
    obtain ⟨drawn, hdrawn, rfl⟩ := reads_picture_iff.mp h
    obtain ⟨drawn', hdrawn', rfl⟩ := reads_picture_iff.mp h'
    obtain rfl := Except.ok.inj (hdrawn.symm.trans hdrawn')
    rfl

namespace Told

variable {draw : Typesetter} {event : Event} {events events' : List Event} {text : String}

theorem nil_iff : Told draw [] text ↔ text = "" := by
  constructor
  · rintro ⟨⟩
    rfl
  · rintro rfl
    exact .nil

theorem singleton_iff : Told draw [event] text ↔ event.Reads draw text := by
  constructor
  · rintro (_ | ⟨hreads, ⟨⟩⟩)
    rwa [String.append_empty]
  · intro h
    rw [← String.append_empty (s := text)]
    exact .cons h .nil

theorem append_iff : Told draw (events ++ events') text
    ↔ ∃ front back, Told draw events front ∧ Told draw events' back ∧ text = front ++ back := by
  constructor
  · intro h
    induction events generalizing text with
    | nil => exact ⟨"", text, .nil, h, (String.empty_append ..).symm⟩
    | cons event events ih =>
      obtain _ | ⟨hreads, hrest⟩ := h
      obtain ⟨front, back, hfront, hback, rfl⟩ := ih hrest
      exact ⟨_, back, .cons hreads hfront, hback, (String.append_assoc ..).symm⟩
  · rintro ⟨front, back, hfront, hback, rfl⟩
    induction hfront with
    | nil => rwa [String.empty_append]
    | cons hreads _ ih =>
      rw [String.append_assoc]
      exact .cons hreads ih

/-- There is one way in which events read. -/
theorem unique {text' : String} (h : Told draw events text) (h' : Told draw events text') :
    text = text' := by
  induction h generalizing text' with
  | nil => exact (nil_iff.mp h').symm
  | cons hreads _ ih =>
    obtain _ | ⟨hreads', hrest'⟩ := h'
    rw [hreads.unique hreads', ih hrest']

theorem join {texts : List String} (h : List.Forall₂ (Event.Reads draw) events texts) :
    Told draw events (String.join texts) := by
  induction h with
  | nil => exact .nil
  | cons hreads _ ih =>
    rw [String.join_cons]
    exact .cons hreads ih

/-- Events have a text if each of them has. -/
theorem of_forall (h : ∀ event ∈ events, ∃ text, event.Reads draw text) :
    ∃ text, Told draw events text := by
  induction events with
  | nil => exact ⟨"", .nil⟩
  | cons event events ih =>
    obtain ⟨⟨text, hreads⟩, hrest⟩ := List.forall_mem_cons.mp h
    obtain ⟨rest, hrest⟩ := ih hrest
    exact ⟨text ++ rest, .cons hreads hrest⟩

end Told

/-! ## What a step tells -/

/-- The machine when the active frame has been left, before a value takes its place. -/
def Machine.unwound (m : Machine) (frame : Frame) (callers : List Frame) : Machine :=
  { m with stack := m.stack.take (frame.height callers), frames := callers }

/-- What there is to tell of the next step: an instruction before it is executed, the machine when a
call has entered a function, and the machine when a function has been left, before the value that it
returns is put on the stack. -/
inductive Announces (host : Host) (m : Machine) (frame : Frame) (callers : List Frame) :
    List Event → Prop
  /-- A main stream that has come to its end is not left. -/
  | ends (hend : frame.isFinished = true) (hcallers : callers = []) : Announces host m frame callers []
  /-- A function that has come to its end is left without an instruction. -/
  | runsOff (hend : frame.isFinished = true) (hcallers : callers ≠ []) :
      Announces host m frame callers [.picture (m.unwound frame callers).view]
  | undecodable {e : CodecError} (hend : frame.isFinished = false) (hnext : frame.next = .error e) :
      Announces host m frame callers []
  | executes {i : Instruction} (hnext : frame.next = .ok i)
      (hdepth : (m.advance host).depth = m.depth) :
      Announces host m frame callers [.instruction ⟨m.depth, frame.ip, i⟩ frame.code]
  | enters {i : Instruction} (hnext : frame.next = .ok i) (hop : i.opcode = .call)
      (hdepth : (m.advance host).depth = m.depth + 1) :
      Announces host m frame callers
        [.instruction ⟨m.depth, frame.ip, i⟩ frame.code, .picture (m.advance host).view]
  | returns {i : Instruction} (hnext : frame.next = .ok i)
      (hop : i.opcode = .bareReturn ∨ i.opcode = .returnValue)
      (hdepth : (m.advance host).depth + 1 = m.depth) :
      Announces host m frame callers
        [.instruction ⟨m.depth, frame.ip, i⟩ frame.code, .picture (m.unwound frame callers).view]

/-- What there is to tell of a run, from a machine on until the run ends. -/
inductive Tells (host : Host) : Machine → List Event → Prop
  | finished {m : Machine} (hframes : m.frames = []) : Tells host m []
  | stops {m m' : Machine} {frame : Frame} {callers : List Frame} {fault : Fault}
      {events : List Event} (hframes : m.frames = frame :: callers)
      (hstep : Exec.step host m = .error fault m') (hevents : Announces host m frame callers events) :
      Tells host m events
  | goesOn {m m' : Machine} {frame : Frame} {callers : List Frame} {events rest : List Event}
      (hframes : m.frames = frame :: callers) (hstep : Exec.step host m = .ok () m')
      (hevents : Announces host m frame callers events) (hrest : Tells host m' rest) :
      Tells host m (events ++ rest)

section

variable {host : Host} {m : Machine} {frame : Frame} {callers : List Frame} {events : List Event}

/-- An instruction that is told of has its line in a listing. -/
theorem Announces.entryAt? (h : Announces host m frame callers events) {executed : Machine.Executed}
    {code : Code} (hmem : .instruction executed code ∈ events) :
    Listing.entryAt? code executed.offset
      = some (.instruction executed.offset executed.instruction) := by
  cases h with
  | ends | undecodable => cases hmem
  | runsOff => simp at hmem
  | executes hnext | enters hnext | returns hnext =>
    simp at hmem
    obtain ⟨rfl, rfl⟩ := hmem
    exact Listing.entryAt?_of_next hnext

theorem Tells.entryAt? (h : Tells host m events) {executed : Machine.Executed} {code : Code}
    (hmem : .instruction executed code ∈ events) :
    Listing.entryAt? code executed.offset
      = some (.instruction executed.offset executed.instruction) := by
  induction h with
  | finished => cases hmem
  | stops _ _ hevents => exact hevents.entryAt? hmem
  | goesOn _ _ hevents _ ih => exact (List.mem_append.mp hmem).elim hevents.entryAt? ih

/-- The events can be told if what they show can be drawn. -/
theorem Tells.told {draw : Typesetter} (h : Tells host m events)
    (hdraw : ∀ view, .picture view ∈ events → ∃ text, view.picture draw = .ok text) :
    ∃ text, Told draw events text := by
  apply Told.of_forall
  rintro (⟨executed, code⟩ | view) hmem
  · exact ⟨_, .instruction (h.entryAt? hmem)⟩
  · obtain ⟨text, htext⟩ := hdraw view hmem
    exact ⟨_, .picture (View.picture_eq_ok_iff.mp htext)⟩

end

/-! ## What a dispatch does to the call stack -/

/-- What becomes of the call stack before the value of a step is delivered. -/
inductive Dispatched (m : Machine) (frame : Frame) (callers : List Frame) :
    EStateM.Result Fault Machine Progress → Prop
  | finish (hend : frame.isFinished = true) (hcallers : callers = []) :
      Dispatched m frame callers (.ok .next { m with frames := [] })
  | undecodable {e : CodecError} (hend : frame.isFinished = false) (hnext : frame.next = .error e) :
      Dispatched m frame callers (.error (.codec e) m)
  | stays {i : Instruction} {m' : Machine} (hnext : frame.next = .ok i)
      (hdepth : m'.depth = m.depth) : Dispatched m frame callers (.ok .next m')
  | faulted {i : Instruction} {fault : Fault} {m' : Machine} (hnext : frame.next = .ok i)
      (hdepth : m'.depth = m.depth) : Dispatched m frame callers (.error fault m')
  | entered {i : Instruction} {m' : Machine} (hnext : frame.next = .ok i) (hop : i.opcode = .call)
      (hdepth : m'.depth = m.depth + 1) : Dispatched m frame callers (.ok .entered m')
  | left {v : Value} (hleaves : Leaves m frame callers v) :
      Dispatched m frame callers (.ok (.left v) (m.unwound frame callers))

namespace Exec

variable {host : Host} {m : Machine} {frame : Frame} {callers : List Frame} {i : Instruction}

theorem depth_past (hframes : m.frames = frame :: callers) (i : Instruction) :
    Machine.depth { m with frames := frame.past i :: callers } = m.depth :=
  (depth_of_frames hframes).symm

theorem dispatched_straight (hm : WellFormed m) (hframes : m.frames = frame :: callers)
    (hnext : frame.next = .ok i) (hop : i.opcode.transfers = false) :
    Dispatched m frame callers (execute host i { m with frames := frame.past i :: callers }) := by
  -- whether it comes through or not, only the position of the active frame has changed
  obtain ⟨a, ha, hends⟩ := execute_straight host i hop
  have hfloor := Nat.le_trans (Nat.le_of_eq (floor_past hframes i)) hm.floor_le
  rw [ha]
  unfold proceed
  rw [bind_apply]
  cases hr : a { m with frames := frame.past i :: callers } with
  | ok x m' =>
    obtain ⟨m₁, took, hcommit⟩ := hends.ok hfloor hm.stack_le hr
    obtain ⟨ip, hframes', -⟩ := hcommit.frames_eq took.frames
    exact .stays hnext ((depth_of_frames hframes').trans (depth_of_frames hframes).symm)
  | error e m' =>
    obtain ⟨k, -, took⟩ := hends.error hfloor hm.stack_le hr
    exact .faulted hnext ((depth_of_frames took.frames).trans (depth_of_frames hframes).symm)

theorem dispatched_call (hm : WellFormed m) (hframes : m.frames = frame :: callers)
    (hnext : frame.next = .ok i) (hop : i.opcode = .call) :
    Dispatched m frame callers
      (call host i.first { m with frames := frame.past i :: callers }) := by
  have hdepth := depth_past hframes i
  have hcalled := call_cases (m := { m with frames := frame.past i :: callers }) host hm.stack_le
    i.first
  generalize call host i.first { m with frames := frame.past i :: callers } = r at hcalled ⊢
  cases hcalled with
  | refused => exact .faulted hnext hdepth
  | entered => exact .entered hnext hop (congrArg (· + 1) hdepth)
  | answered => exact .stays hnext hdepth
  | hostFault => exact .faulted hnext hdepth

theorem dispatched_returnValue (hframes : m.frames = frame :: callers) (hnext : frame.next = .ok i)
    (hop : i.opcode = .returnValue) :
    Dispatched m frame callers
      ((do leaveWith (← pop)) { m with frames := frame.past i :: callers }) := by
  have hpast := floor_past hframes i
  have hheight := height_le_floor hframes
  rw [bind_apply]
  by_cases henough : m.floor < m.stack.size
  · obtain ⟨v, htop, hpop⟩ := pop_of_lt (m := { m with frames := frame.past i :: callers })
      (hpast ▸ henough)
    -- the value that is taken first stands above all that the frame leaves behind
    have hleft : Dispatched m frame callers _ := .left (.returnValue hnext hop henough htop)
    rw [hpop]
    dsimp only
    rw [leaveWith_of_frames _ (frame.past i) callers rfl]
    rw [Machine.unwound, ← take_pop (Nat.lt_of_le_of_lt hheight henough)] at hleft
    exact hleft
  · rw [pop_of_not_lt (m := { m with frames := frame.past i :: callers }) (hpast ▸ henough)]
    exact .faulted hnext (depth_past hframes i)

/-- What a dispatch does to the call stack. -/
theorem dispatch_cases (host : Host) (hm : WellFormed m) (hframes : m.frames = frame :: callers) :
    Dispatched m frame callers (dispatch host m) := by
  cases hend : frame.isFinished with
  | true =>
    rw [dispatch_of_frames hframes, if_pos hend]
    cases hcallers : callers with
    | nil => exact .finish hend rfl
    | cons caller rest =>
      rw [if_neg (by simp), leaveWith_of_frames .null frame (caller :: rest) (hcallers ▸ hframes)]
      exact .left (.atEnd hend (by simp))
  | false =>
    cases hnext : frame.next with
    | error e =>
      rw [dispatch_of_error hframes hend hnext]
      exact .undecodable hend hnext
    | ok i =>
      rw [dispatch_of_next hframes hnext]
      cases hop : i.opcode.transfers with
      | false => exact dispatched_straight hm hframes hnext hop
      | true =>
        cases op : i.opcode with
        | call =>
          rw [show execute host i = call host i.first from by unfold execute; rw [op]]
          exact dispatched_call hm hframes hnext op
        | bareReturn =>
          rw [show execute host i = leaveWith .null from by unfold execute; rw [op],
            leaveWith_of_frames .null (frame.past i) callers rfl]
          exact .left (.bareReturn hnext op)
        | returnValue =>
          rw [show execute host i = (do leaveWith (← pop)) from by unfold execute; rw [op]]
          exact dispatched_returnValue hframes hnext op
        | _ =>
          rw [op] at hop
          cases hop

end Exec

/-! ## The account of a run -/

namespace Machine

/-- The machine that the next step shows: it has just entered or left a frame. -/
def shown? (host : Host) (m : Machine) : Option Machine :=
  match Exec.dispatch host m with
  | .ok .entered m' | .ok (.left _) m' => some m'
  | _ => none

/-- What there is to tell of the next step. -/
def tidings (host : Host) (m : Machine) : List Event :=
  match m.frames with
  | [] => []
  | frame :: _ =>
    m.upcoming?.toList.map (.instruction · frame.code) ++ (m.shown? host).toList.map (.picture ·.view)

/-- What there is to tell of a run. -/
def account (host : Host) : Nat → Machine → List Event
  | 0, _ => []
  | fuel + 1, m =>
    m.tidings host ++
      match Exec.step host m with
      | .ok () m => account host fuel m
      | .error _ _ => []

variable {host : Host} {m : Machine} {frame : Frame} {callers : List Frame}

theorem account_of_nil (hframes : m.frames = []) (fuel : Nat) : m.account host fuel = [] := by
  cases fuel with
  | zero => rfl
  | succ fuel =>
    unfold account tidings
    rw [hframes, step_of_nil hframes]
    rfl

/-- An account names the instructions that are executed, each once and in their order. -/
theorem executed_account (fuel : Nat) (m : Machine) :
    (m.account host fuel).filterMap Event.executed? = m.history host fuel := by
  induction fuel generalizing m with
  | zero => rfl
  | succ fuel ih =>
    have htidings : (m.tidings host).filterMap Event.executed? = m.upcoming?.toList := by
      unfold tidings
      cases hframes : m.frames with
      | nil => simp [upcoming?, hframes]
      | cons frame callers =>
        simp only [List.filterMap_append, List.filterMap_map]
        cases m.upcoming? <;> cases m.shown? host <;> rfl
    rw [account, history, List.filterMap_append, htidings]
    cases Exec.step host m with
    | ok _ m' => exact congrArg _ (ih m')
    | error _ _ => rfl

end Machine

/-! ## The account is right -/

section

variable {host : Host} {m : Machine} {frame : Frame} {callers : List Frame}

/-- To deliver a value changes no frame. -/
theorem Machine.depth_advance (host : Host) (hframes : m.frames = frame :: callers) :
    (m.advance host).depth = (ofResult (Exec.dispatch host m)).depth := by
  rw [advance_of_cons hframes]
  unfold Exec.step
  rw [Exec.bind_apply]
  cases Exec.dispatch host m with
  | error fault m' => rfl
  | ok progress m' =>
    cases progress with
    | next | entered => rfl
    | left v =>
      -- there may be no room for the value, which is no matter here
      show (ofResult (Exec.push v m')).depth = m'.depth
      unfold Exec.push
      split <;> rfl

theorem Machine.advance_of_entered {m' : Machine} (hframes : m.frames = frame :: callers)
    (hdispatch : Exec.dispatch host m = .ok .entered m') : m.advance host = m' := by
  rw [advance_of_cons hframes]
  unfold Exec.step
  rw [Exec.bind_apply, hdispatch]
  rfl

theorem Machine.upcoming?_of_finished (hframes : m.frames = frame :: callers)
    (hend : frame.isFinished = true) : m.upcoming? = none := by
  cases hnext : frame.next with
  | error e => exact upcoming?_of_error hframes hnext
  | ok i =>
    rw [Frame.isFinished_of_next hnext] at hend
    cases hend

/-- What a frame does next settles what there is to tell of the step. -/
theorem announces_tidings (host : Host) (hm : WellFormed m) (hframes : m.frames = frame :: callers) :
    Announces host m frame callers (m.tidings host) := by
  have hadvance := Machine.depth_advance host hframes
  have hdepth := Exec.depth_of_frames hframes
  have hcases := Exec.dispatch_cases host hm hframes
  unfold Machine.tidings Machine.shown?
  rw [hframes]
  -- what is shown is the machine as the dispatch leaves it, so that its cases are the cases here
  generalize hr : Exec.dispatch host m = r at hcases hadvance ⊢
  cases hcases with
  | finish hend hcallers =>
    rw [Machine.upcoming?_of_finished hframes hend]
    exact .ends hend hcallers
  | undecodable hend hnext =>
    rw [Machine.upcoming?_of_error hframes hnext]
    exact .undecodable hend hnext
  | stays hnext hstays | faulted hnext hstays =>
    rw [Machine.upcoming?_of_next hframes hnext]
    exact .executes hnext (hadvance.trans hstays)
  | @entered i m' hnext hop hentered =>
    rw [Machine.upcoming?_of_next hframes hnext]
    have hm' := Machine.advance_of_entered hframes hr
    subst hm'
    exact .enters hnext hop hentered
  | left hleaves =>
    have hleft : (m.advance host).depth + 1 = m.depth := by
      rw [hadvance, hdepth]
      rfl
    cases hleaves with
    | atEnd hend hcallers =>
      rw [Machine.upcoming?_of_finished hframes hend]
      exact .runsOff hend hcallers
    | bareReturn hnext hop =>
      rw [Machine.upcoming?_of_next hframes hnext]
      exact .returns hnext (Or.inl hop) hleft
    | returnValue hnext hop =>
      rw [Machine.upcoming?_of_next hframes hnext]
      exact .returns hnext (Or.inr hop) hleft

/-- **The account of a run that ends** is what there is to tell of it. -/
theorem Machine.tells_account {result : Outcome × Machine} {fuel : Nat} (hm : WellFormed m)
    (hrun : m.run host fuel = some result) : Tells host m (m.account host fuel) := by
  induction fuel generalizing m with
  | zero => cases hrun
  | succ fuel ih =>
    cases hframes : m.frames with
    | nil =>
      rw [account_of_nil hframes]
      exact .finished hframes
    | cons frame callers =>
      have hannounces := announces_tidings host hm hframes
      rw [account]
      -- the first events are those of the step, and the others those of the rest of the run
      cases hstep : Exec.step host m with
      | ok _ m' =>
        have hm' : WellFormed m' := by
          have hadvance := hm.advance host
          rw [advance_of_cons hframes, hstep] at hadvance
          exact hadvance
        rw [run_of_ok hframes hstep] at hrun
        exact .goesOn hframes hstep hannounces (ih hm' hrun)
      | error fault m' =>
        dsimp only
        rw [List.append_nil]
        exact .stops hframes hstep hannounces

end

end ClosureMachine
