import ClosureMachine.Machine.Exec
import ClosureMachine.Proofs.Assembly.Listing
import ClosureMachine.Proofs.Code.Boundary

/-!
# Walking over a stream

A frame goes over its stream by fetching one instruction after the other; a listing goes over it
line by line. Both see the same.

* **`Frame.walk`** fetches until the stream ends or no instruction can be decoded, and
  **`Frame.walk_stops`** says that it always comes to that.
* **`Listing.entriesFrom_walk`**: the entries of a listing are the instructions of the walk and then
  whatever is listed from where the walk has stopped.
* **`Listing.entriesFrom_add`**: a listing that begins at a later offset differs in its offsets only.
* **`disassemble_walk`** is about whole texts.
-/

namespace ClosureMachine

namespace Instruction

/-- A space stands before each operand. -/
theorem text_eq_flatMap (i : Instruction) :
    i.text = i.opcode.mnemonic.toList ++ i.operands.flatMap (' ' :: Decimal.ofNat ·) := by
  unfold text
  generalize i.opcode.mnemonic.toList = word
  induction i.operands generalizing word with
  | nil => simp
  | cons operand operands ih => simp [List.intercalate_cons_cons, ih]

/-- The two operands that a frame hands on are those of the instruction, and 0 in the place of each
that its operation does not take. -/
theorem operands_of_arity {i : Instruction} (h : i.operands.length = i.opcode.arity) :
    [i.first, i.second].take i.opcode.arity = i.operands
      ∧ ∀ operand ∈ [i.first, i.second].drop i.opcode.arity, operand = 0 := by
  have harity := i.opcode.arity_le_two
  obtain ⟨op, operands⟩ := i
  simp only [first, second] at h harity ⊢
  rw [← h] at harity ⊢
  match operands with
  | [] => simp
  | [operand] => simp
  | [operand, operand'] => simp
  | _ :: _ :: _ :: _ => simp at harity

theorem length_operands_of_decode {bytes : List UInt8} {i : Instruction}
    (h : decode bytes = .ok i) : i.operands.length = i.opcode.arity :=
  (fits_of_decode h).length_eq

end Instruction

/-! ## What a frame fetches -/

namespace Frame

variable {frame next : Frame} {i : Instruction} {e : CodecError}

theorem fetch_eq_ok_iff :
    frame.fetch = .ok (i, next) ↔ Instruction.decode (frame.code.toList.drop frame.ip) = .ok i
      ∧ next = { frame with ip := frame.ip + i.size } := by
  unfold fetch Frame.next
  rw [Instruction.decodeAt_eq]
  cases Instruction.decode (frame.code.toList.drop frame.ip) with
  | ok j =>
    constructor
    · intro h
      cases h
      simp
    · rintro ⟨hj, rfl⟩
      cases hj
      rfl
  | error e => simp [Functor.map, Except.map]

theorem fetch_eq_error_iff :
    frame.fetch = .error e
      ↔ Instruction.decode (frame.code.toList.drop frame.ip) = .error e := by
  unfold fetch Frame.next
  rw [Instruction.decodeAt_eq]
  cases Instruction.decode (frame.code.toList.drop frame.ip) with
  | ok j => simp [Functor.map, Except.map]
  | error e => simp [Functor.map, Except.map]

/-- To fetch brings a frame closer to the end of its stream. -/
theorem fetch_advances (h : frame.fetch = .ok (i, next)) :
    next.code = frame.code ∧ frame.ip < next.ip ∧ next.ip ≤ frame.code.size := by
  obtain ⟨hdecode, rfl⟩ := fetch_eq_ok_iff.mp h
  rw [← Instruction.decodeAt_eq] at hdecode
  have hpos := i.size_pos
  have hend := Instruction.end_le_size hdecode
  exact ⟨rfl, Nat.lt_add_of_pos_right hpos, hend⟩

/-- The instructions that a frame fetches, each with the offset at which it stands, until the frame
is at the end of its stream or there is nothing to decode; and the frame where that is. -/
def walk (frame : Frame) : List (Nat × Instruction) × Frame :=
  if frame.isFinished then
    ([], frame)
  else
    match h : frame.fetch with
    | .ok (i, next) =>
      have := fetch_advances h
      let rest := next.walk
      ((frame.ip, i) :: rest.1, rest.2)
    | .error _ => ([], frame)
  termination_by frame.code.size - frame.ip
  decreasing_by
    simp_all
    omega

theorem walk_stops (frame : Frame) :
    frame.walk.2.isFinished = true
      ∨ frame.walk.2.isFinished = false ∧ ∃ e, frame.walk.2.fetch = .error e := by
  fun_induction walk frame with
  | case1 frame hend => exact Or.inl hend
  | case2 frame hend i next hfetch hnext rest ih => exact ih
  | case3 frame hend e hfetch => exact Or.inr ⟨by simpa using hend, e, hfetch⟩

theorem code_walk (frame : Frame) : frame.walk.2.code = frame.code := by
  fun_induction walk frame with
  | case1 frame hend => rfl
  | case2 frame hend i next hfetch hnext rest ih => exact ih.trans hnext.1
  | case3 frame hend e hfetch => rfl

theorem length_operands_of_mem_walk {fetched : Nat × Instruction} (h : fetched ∈ frame.walk.1) :
    fetched.2.operands.length = fetched.2.opcode.arity := by
  fun_induction walk frame with
  | case1 frame hend => simp at h
  | case2 frame hend i next hfetch hnext rest ih =>
    rcases List.mem_cons.mp h with rfl | h
    · exact Instruction.length_operands_of_decode (fetch_eq_ok_iff.mp hfetch).1
    · exact ih h
  | case3 frame hend e hfetch => simp at h

end Frame

/-! ## What a listing shows -/

namespace Listing

theorem entriesFrom_of_ok {bytes : List UInt8} {i : Instruction} (offset : Nat)
    (h : Instruction.decode bytes = .ok i) :
    entriesFrom offset bytes
      = .instruction offset i :: entriesFrom (offset + i.size) (bytes.drop i.size) := by
  have hsize : i.size = i.opcode.operandBytes + 1 := Nat.add_comm ..
  cases bytes with
  | nil => cases h
  | cons byte bytes => simp [entriesFrom, h, hsize]

/-- A byte that encodes no operation is stepped over; nothing is listed after an instruction that is
cut short. -/
theorem entriesFrom_of_error {bytes : List UInt8} {e : CodecError} (offset : Nat)
    (hne : bytes ≠ []) (h : Instruction.decode bytes = .error e) :
    entriesFrom offset bytes = .error offset e ::
      match e with
      | .unknownOpcode _ => entriesFrom (offset + 1) (bytes.drop 1)
      | _ => [] := by
  cases bytes with
  | nil => exact absurd rfl hne
  | cons byte bytes =>
    rw [entriesFrom, h]
    cases e <;> rfl

/-- The same entry of a stream that has more bytes in front. -/
def Entry.shift (count : Nat) : Entry → Entry
  | instruction offset i => instruction (offset + count) i
  | error offset e => error (offset + count) e

theorem entriesFrom_add (offset count : Nat) (bytes : List UInt8) :
    entriesFrom (offset + count) bytes = (entriesFrom offset bytes).map (Entry.shift count) := by
  fun_induction entriesFrom offset bytes with
  | case1 offset => simp [entriesFrom]
  | case2 offset byte bytes i h ih =>
    rw [entriesFrom, h]
    simp only [List.map_cons, Entry.shift, ← ih, Nat.add_right_comm]
  | case3 offset byte bytes b h ih =>
    rw [entriesFrom, h]
    simp only [List.map_cons, Entry.shift, ← ih, Nat.add_right_comm]
  | case4 offset byte bytes e hknown h =>
    rw [entriesFrom, h]
    cases e <;> simp_all [Entry.shift]

/-- **A listing goes where a walk goes.** It shows what was fetched, and goes on from where nothing more
could be. -/
theorem entriesFrom_walk (frame : Frame) :
    entriesFrom frame.ip (frame.code.toList.drop frame.ip)
      = frame.walk.1.map (fun fetched => .instruction fetched.1 fetched.2)
        ++ entriesFrom frame.walk.2.ip (frame.code.toList.drop frame.walk.2.ip) := by
  fun_induction Frame.walk frame with
  | case1 frame hend => simp
  | case2 frame hend i next hfetch hnext rest ih =>
    obtain ⟨hdecode, rfl⟩ := Frame.fetch_eq_ok_iff.mp hfetch
    rw [entriesFrom_of_ok frame.ip hdecode, List.drop_drop]
    simp only [List.map_cons, List.cons_append]
    exact congrArg _ ih
  | case3 frame hend e hfetch => simp

/-- The line of an instruction that was fetched at an offset: the offset in at least four digits, the
mnemonic, and as many of the two operands as the operation takes. -/
def fetchedLine (fetched : Nat × Instruction) : List Char :=
  Decimal.padded 4 fetched.1 ++ ' ' :: fetched.2.opcode.mnemonic.toList
    ++ ([fetched.2.first, fetched.2.second].take fetched.2.opcode.arity).flatMap
      (' ' :: Decimal.ofNat ·)

theorem line_instruction {offset : Nat} {i : Instruction}
    (h : i.operands.length = i.opcode.arity) :
    (Entry.instruction offset i).line = fetchedLine (offset, i) := by
  obtain ⟨htake, -⟩ := Instruction.operands_of_arity h
  show Decimal.padded 4 offset ++ ' ' :: i.text = Decimal.padded 4 offset
    ++ ' ' :: i.opcode.mnemonic.toList
    ++ ([i.first, i.second].take i.opcode.arity).flatMap (' ' :: Decimal.ofNat ·)
  rw [htake, Instruction.text_eq_flatMap, List.append_assoc, List.cons_append]

theorem line_error (offset : Nat) (e : CodecError) : (Entry.error offset e).line
    = Decimal.padded 4 offset ++ " ERROR: ".toList ++ e.message.toList := by
  unfold Entry.line Entry.body
  rw [List.append_assoc]
  rfl

/-- The lines of a listing, as far as a walk from the front of the stream has come and from there. -/
theorem map_line_entries (closure : Closure) (base : Nat) :
    let frame : Frame := { closure, base }
    (entries frame.code.toList).map Entry.line = frame.walk.1.map fetchedLine
      ++ (entriesFrom frame.walk.2.ip (frame.code.toList.drop frame.walk.2.ip)).map Entry.line := by
  intro frame
  have hfetched : (frame.walk.1.map fun fetched => Entry.instruction fetched.1 fetched.2).map
      Entry.line = frame.walk.1.map fetchedLine := by
    rw [List.map_map]
    apply List.map_congr_left
    intro fetched hmem
    exact line_instruction (Frame.length_operands_of_mem_walk hmem)
  rw [← hfetched, ← List.map_append, ← entriesFrom_walk frame]
  rfl

/-- From where a walk has come to the end, a listing shows nothing. -/
theorem entriesFrom_of_finished {frame : Frame} (hend : frame.isFinished = true) :
    entriesFrom frame.ip (frame.code.toList.drop frame.ip) = [] := by
  have hle : frame.code.toList.length ≤ frame.ip := by simpa [Frame.isFinished] using hend
  rw [List.drop_eq_nil_iff.mpr hle, entriesFrom]

/-- From where a walk has stopped at an error, a listing tells of that error. It ends there if the
stream is too short, and else it goes on behind the byte that is to blame. -/
theorem entriesFrom_of_stopped {frame : Frame} {e : CodecError} (hend : frame.isFinished = false)
    (h : frame.fetch = .error e) :
    ∃ after, entriesFrom frame.ip (frame.code.toList.drop frame.ip) = .error frame.ip e :: after
      ∧ ((∃ needed available, e = .unexpectedEnd needed available) ∧ after = []
        ∨ (∀ needed available, e ≠ .unexpectedEnd needed available) ∧ after
          = (entries (frame.code.toList.drop (frame.ip + 1))).map (Entry.shift (frame.ip + 1))) := by
  have hdecode := Frame.fetch_eq_error_iff.mp h
  have hne : frame.code.toList.drop frame.ip ≠ [] := by
    simp [Frame.isFinished] at hend
    simpa using hend
  refine ⟨_, entriesFrom_of_error frame.ip hne hdecode, ?_⟩
  rcases Instruction.decode_cases (frame.code.toList.drop frame.ip) with
    ⟨i, hi, -⟩ | ⟨byte, hi⟩ | ⟨needed, available, hi⟩
  · cases hi.symm.trans hdecode
  · cases hi.symm.trans hdecode
    have hshift := entriesFrom_add 0 (frame.ip + 1) (frame.code.toList.drop (frame.ip + 1))
    rw [Nat.zero_add] at hshift
    exact Or.inr ⟨by simp, by rw [List.drop_drop, hshift, entries]⟩
  · cases hi.symm.trans hdecode
    exact Or.inl ⟨⟨needed, available, rfl⟩, rfl⟩

end Listing

open Listing in
/-- **Frames and listings agree on every stream.** The listing begins with one line for each
instruction that a frame fetches from the front of the stream. If the frame has come to the end, so has
the listing. Else the next line tells of the error that the frame has stopped at, where it has stopped;
it is the last if the stream ends too early, and otherwise the bytes after the bad one are listed. -/
theorem disassemble_walk (closure : Closure) (base : Nat) :
    let frame : Frame := { closure, base }
    let last := frame.walk.2
    (∀ fetched ∈ frame.walk.1,
      ∀ operand ∈ [fetched.2.first, fetched.2.second].drop fetched.2.opcode.arity, operand = 0)
    ∧ ∃ rest : List (List Char),
      (disassemble frame.code.toList).toList
        = (frame.walk.1.map fetchedLine ++ rest).flatMap (· ++ ['\n'])
      ∧ Text.lines (disassemble frame.code.toList).toList = frame.walk.1.map fetchedLine ++ rest
      ∧ (last.isFinished = true ∧ rest = []
        ∨ last.isFinished = false ∧ ∃ e after,
          last.fetch = .error e
          ∧ rest = (Decimal.padded 4 last.ip ++ " ERROR: ".toList ++ e.message.toList) :: after
          ∧ ((∃ needed available, e = .unexpectedEnd needed available) ∧ after = []
            ∨ (∀ needed available, e ≠ .unexpectedEnd needed available)
              ∧ after = (entries (frame.code.toList.drop (last.ip + 1))).map
                fun entry => (entry.shift (last.ip + 1)).line)) := by
  intro frame last
  have hcode : last.code = frame.code := frame.code_walk
  have hlines : (entries frame.code.toList).map Entry.line = frame.walk.1.map fetchedLine
      ++ (entriesFrom last.ip (last.code.toList.drop last.ip)).map Entry.line := by
    rw [hcode]
    exact map_line_entries closure base
  constructor
  · intro fetched hmem
    exact (Instruction.operands_of_arity (Frame.length_operands_of_mem_walk hmem)).2
  refine ⟨(entriesFrom last.ip (last.code.toList.drop last.ip)).map Entry.line, ?_, ?_, ?_⟩
  · unfold disassemble
    rw [String.toList_ofList, text_eq_flatMap, hlines]
  · unfold disassemble
    rw [String.toList_ofList, lines_text, hlines]
  rcases frame.walk_stops with hend | ⟨hend, e, he⟩
  · rw [entriesFrom_of_finished hend]
    exact Or.inl ⟨hend, rfl⟩
  · right
    obtain ⟨after, hrest, hafter⟩ := entriesFrom_of_stopped hend he
    refine ⟨hend, e, after.map Entry.line, he, ?_, ?_⟩
    · rw [hrest, List.map_cons, line_error]
    · rcases hafter with ⟨hshort, rfl⟩ | ⟨hbad, rfl⟩
      · exact Or.inl ⟨hshort, rfl⟩
      · rw [hcode, List.map_map]
        exact Or.inr ⟨hbad, rfl⟩

/-- A closure that is made, a byte that encodes no operation, and a jump that is cut short: the walk
stops at the second of them, the listing at the third only. -/
theorem disassemble_walk_unknown :
    let frame : Frame := { closure := ⟨0, { code := #[18, 1, 2, 3, 255, 40, 0] }⟩, base := 0 }
    frame.walk = ([(0, ⟨.makeClosure, [258, 3]⟩)], { frame with ip := 4 })
      ∧ Text.lines (disassemble frame.code.toList).toList
        = ["0000 MakeClosure 258 3".toList, "0004 ERROR: opcode 255 undefined".toList,
          ("0005 ERROR: unexpected end of bytecode: needed 2 bytes but only 1 remain").toList] := by
  intro frame
  have hwalk : frame.walk = ([(0, ⟨.makeClosure, [258, 3]⟩)], { frame with ip := 4 }) := by
    decide +kernel
  obtain ⟨-, rest, -, hlines, hrest⟩ := disassemble_walk frame.closure 0
  rw [show Frame.walk { closure := frame.closure, base := 0 } = _ from hwalk] at hlines hrest
  rcases hrest with ⟨hend, -⟩ | ⟨-, e, after, he, rfl, hafter⟩
  · exact absurd hend (by decide)
  · cases he
    rcases hafter with ⟨⟨needed, available, hshort⟩, -⟩ | ⟨-, rfl⟩
    · cases hshort
    · refine ⟨hwalk, hlines.trans ?_⟩
      decide +kernel

end ClosureMachine
