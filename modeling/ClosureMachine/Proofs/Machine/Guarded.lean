import ClosureMachine.Machine.Guarded
import ClosureMachine.Proofs.Code.Codec
import ClosureMachine.Proofs.Machine.Footprint
import ClosureMachine.Proofs.Machine.Routines

/-!
# Every demand is met

Code is not checked before it runs: a jump may land inside an operand, and any bytes at all may be
executed. Still no step ever indexes, slices or copies out of range, and no sum or difference of
places leaves the range of a word.

* **`Guarded.Agrees P g a Q`** says that in a machine with `P` the guarded action `g` meets all its
  demands and does what `a` does. There is one lemma for each action that has a demand, and
  `agrees_execute` puts them together.
* What the demands rest on is `Steady`: the machine is well-formed (`WellFormed`), so places below
  its floors are below the height of its stack, and all that it runs fits (`Routine.Fits`).
* **`guarded_after`** is about every state that a machine comes to.
-/

namespace ClosureMachine

/-- The routine is one that a word can count: its bytes, and the slots of a call of it on top of any
stack within the limits. -/
structure Routine.Fits (limits : Limits) (routine : Routine) : Prop where
  code : routine.code.size < Nat.pow 2 64
  slots : routine.slots + limits.stackSize < Nat.pow 2 64

/-- What the demands of a step rest on. -/
structure Steady (limits : Limits) (m : Machine) : Prop where
  wellFormed : WellFormed m
  runs : m.Runs (·.Fits limits)
  limits_eq : m.limits = limits
  word : limits.stackSize < Nat.pow 2 64

namespace Steady

variable {limits : Limits} {m : Machine} {frame : Frame} {callers : List Frame}

theorem size_le (h : Steady limits m) : m.stack.size ≤ limits.stackSize :=
  h.limits_eq ▸ h.wellFormed.stack_le

theorem fits (h : Steady limits m) (hframes : m.frames = frame :: callers) :
    frame.closure.routine.Fits limits :=
  h.runs.frames frame (hframes ▸ List.mem_cons_self)

/-- Whatever is gathered off the stack, what the demands rest on stays. -/
theorem gathered {α : Type} {count : Nat} {V : α → Prop} {a : Exec α} {x : α} {m' : Machine}
    (h : Steady limits m) (ha : Exec.Gathers count a)
    (hkeeps : Exec.Keeps (.whole (·.Fits limits)) V a) (hx : a m = .ok x m') :
    Steady limits m' ∧ V x ∧ Took count m m' := by
  have took := ha.ok h.wellFormed.floor_le hx
  have hkept := hkeeps m (Machine.within_whole.mpr h.runs)
  rw [hx] at hkept
  cases hkept with
  | ok hV hwithin =>
    have hruns := Machine.within_whole.mp hwithin
    exact ⟨⟨h.wellFormed.took took, hruns, took.limits ▸ h.limits_eq, h.word⟩, hV, took⟩

end Steady

namespace Guarded

variable {α β : Type}

/-! ## Operations whose demand is met -/

theorem bind_apply (g : Guarded α) (f : α → Guarded β) (m : Machine) :
    (g >>= f) m = match g m with
      | .ok x m' => f x m'
      | .error stop m' => .error stop m' := by
  show EStateM.bind g f m = _
  unfold EStateM.bind
  cases g m <;> rfl

theorem get_bind (f : Machine → Guarded α) (m : Machine) : (get >>= f) m = f m m :=
  rfl

theorem check_of_met (demand : Demand) (h : demand.Met) : check demand = pure () := by
  unfold check
  rw [if_pos h]

theorem sum_of_lt {a b : Nat} (h : a + b < Nat.pow 2 64) : sum a b = pure (a + b) := by
  unfold sum
  rw [check_of_met (.sum a b) h, pure_bind]

theorem difference_of_le {a b : Nat} (h : b ≤ a) : difference a b = pure (a - b) := by
  unfold difference
  rw [check_of_met (.difference a b) h, pure_bind]

theorem suffix_of_le {values : Array α} {start : Nat} (h : start ≤ values.size) :
    suffix values start = pure (values.extract start values.size) := by
  unfold suffix
  rw [check_of_met (.suffix start values.size) h, pure_bind]

theorem element_of_lt {values : Array α} {place : Nat} (h : place < values.size) :
    element values place = pure values[place] := by
  unfold element
  rw [Array.getElem?_eq_getElem h]

/-! ## Actions that agree -/

/-- In a machine with `P`, the guarded action meets all its demands and does what the action does. An
answer has `Q`, together with the machine that comes with it. -/
def Agrees (P : Machine → Prop) (g : Guarded α) (a : Exec α) (Q : α → Machine → Prop) : Prop :=
  ∀ m, P m → g m = lift a m ∧ ∀ x m', a m = .ok x m' → Q x m'

variable {P : Machine → Prop} {Q : α → Machine → Prop} {R : β → Machine → Prop}

theorem Agrees.bind {g : Guarded α} {a : Exec α} {f : α → Guarded β} {f' : α → Exec β}
    (hga : Agrees P g a Q) (hf : ∀ x, Agrees (Q x) (f x) (f' x) R) :
    Agrees P (g >>= f) (a >>= f') R := by
  intro m hm
  obtain ⟨hg, hQ⟩ := hga m hm
  rw [bind_apply, hg]
  unfold lift
  rw [Exec.bind_apply]
  cases ha : a m with
  | ok x m' =>
    obtain ⟨hfx, hR⟩ := hf x m' (hQ x m' ha)
    exact ⟨hfx, hR⟩
  | error fault m' =>
    refine ⟨rfl, fun x m'' h => ?_⟩
    cases h

theorem agrees_lift {a : Exec α} (hQ : ∀ m, P m → ∀ x m', a m = .ok x m' → Q x m') :
    Agrees P (lift a) a Q :=
  fun m hm => ⟨rfl, hQ m hm⟩

/-- Nothing more is to come that has a demand. -/
theorem agrees_end (a : Exec α) : Agrees P (lift a) a (fun _ _ => True) :=
  agrees_lift fun _ _ _ _ _ => trivial

theorem agrees_pure {x : α} (hQ : ∀ m, P m → Q x m) : Agrees P (pure x) (pure x) Q := by
  refine fun m hm => ⟨rfl, fun y m' h => ?_⟩
  cases h
  exact hQ m hm

theorem agrees_throw (fault : Fault) :
    Agrees P (throw (.fault fault) : Guarded α) (throw fault) Q := by
  refine fun m _ => ⟨rfl, fun x m' h => ?_⟩
  cases h

/-- What has been asked of the machine beforehand holds of what only looks at it. -/
theorem agrees_reads {a : Exec α} (ha : Exec.Reads a) : Agrees P (lift a) a (fun _ => P) := by
  refine agrees_lift fun m hm x m' h => ?_
  rcases ha m with ⟨y, hy⟩ | ⟨fault, hy⟩
  · rw [hy] at h
    cases h
    exact hm
  · rw [hy] at h
    cases h

theorem Agrees.proceed {g : Guarded Unit} {a : Exec Unit} (h : Agrees P g a (fun _ _ => True)) :
    Agrees P (proceed g) (Exec.proceed a) (fun _ _ => True) :=
  h.bind fun _ => agrees_pure fun _ _ => trivial

/-! ## The operand stack -/

variable {limits : Limits} {m : Machine} {frame : Frame} {callers : List Frame}

theorem floor_eq (h : Steady limits m) : floor m = .ok m.floor m := by
  have hle := h.wellFormed.floor_le
  have hsize := h.size_le
  have hword := h.word
  unfold floor
  rw [get_bind]
  unfold Machine.floor at hle ⊢
  cases hframes : m.frames with
  | nil => rfl
  | cons frame callers =>
    simp only [hframes] at hle ⊢
    unfold Frame.floor at hle
    rw [sum_of_lt (by omega)]
    rfl

/-- Something that is kept when temporaries are taken. -/
def Lasting (S : Machine → Prop) : Prop :=
  ∀ {count m m'}, Took count m m' → S m → S m'

theorem lasting_floor (place : Nat) : Lasting (place < ·.floor) := by
  intro count m m' took h
  rwa [took.floor]

theorem lasting_globals (index : Nat) : Lasting (index < ·.globals.size) := by
  intro count m m' took h
  rwa [took.rest]

variable {S : Machine → Prop}

theorem agrees_pop (hS : Lasting S) :
    Agrees (fun m => Steady limits m ∧ S m) pop Exec.pop (fun _ m => Steady limits m ∧ S m) := by
  rintro m ⟨hm, hSm⟩
  constructor
  · show (floor >>= fun floor =>
      if m.stack.size ≤ floor then throw (.fault .stackUnderflow) else lift Exec.pop) m = _
    rw [bind_apply, floor_eq hm]
    dsimp only
    by_cases henough : m.floor < m.stack.size
    · rw [if_neg (by omega)]
    · rw [if_pos (by omega)]
      unfold lift Exec.pop
      rw [dif_neg henough]
      rfl
  · intro v m' h
    obtain ⟨hm', -, took⟩ := hm.gathered Exec.gathers_pop Exec.keeps_pop h
    exact ⟨hm', hS took hSm⟩

/-- One temporary less, nothing else having been asked for. -/
theorem agrees_take : Agrees (Steady limits) pop Exec.pop (fun _ => Steady limits) := by
  intro m hm
  have hlasting : Lasting fun _ => True := fun _ _ => trivial
  obtain ⟨hpop, hsteady⟩ := agrees_pop hlasting m ⟨hm, trivial⟩
  exact ⟨hpop, fun v m' h => (hsteady v m' h).1⟩

theorem agrees_popMany (count : Nat) :
    Agrees (Steady limits) (popMany count) (Exec.popMany count)
      (fun values _ => values.size = count) := by
  intro m hm
  constructor
  · show (if m.stack.size < count then throw (.fault .stackUnderflow)
      else floor >>= fun floor =>
        if m.stack.size - count < floor then throw (.fault .stackUnderflow)
        else do
          let values ← suffix m.stack (m.stack.size - count)
          set { m with stack := m.stack.shrink (m.stack.size - count) }
          return values : Guarded (Array Value)) m = _
    unfold lift Exec.popMany
    by_cases henough : m.floor + count ≤ m.stack.size
    · rw [if_neg (by omega), bind_apply, floor_eq hm, if_pos henough]
      dsimp only
      rw [if_neg (by omega), suffix_of_le (Nat.sub_le ..), pure_bind]
      rfl
    · rw [if_neg henough]
      split
      · rfl
      · rw [bind_apply, floor_eq hm]
        dsimp only
        rw [if_pos (by omega)]
        rfl
  · intro values m' h
    unfold Exec.popMany at h
    split at h
    · cases h
      rw [Array.size_extract]
      omega
    · cases h

/-! ## Variables -/

theorem agrees_frame :
    Agrees (Steady limits) (lift Exec.frame) Exec.frame
      (fun frame m => Steady limits m ∧ ∃ callers, m.frames = frame :: callers) := by
  refine agrees_lift fun m hm frame m' h => ?_
  unfold Exec.frame at h
  split at h
  · cases h
  · next callers hframes =>
    cases h
    exact ⟨hm, callers, hframes⟩

/-- A local slot is below the temporaries of its frame. -/
theorem agrees_localSlot (index : Nat) :
    Agrees (Steady limits) (localSlot index) (Exec.localSlot index)
      (fun place m => Steady limits m ∧ place < m.floor) := by
  refine agrees_frame.bind fun frame => ?_
  split
  · next hslot =>
    rintro m ⟨hm, callers, hframes⟩
    have hfloor := Exec.floor_of_frames hframes
    have hle := hm.wellFormed.floor_le
    have hsize := hm.size_le
    have hword := hm.word
    unfold Frame.floor at hfloor
    rw [sum_of_lt (by omega)]
    exact agrees_pure (P := (· = m)) (fun _ h => h ▸ ⟨hm, by omega⟩) m rfl
  · exact agrees_throw _

theorem agrees_slot (place : Nat) :
    Agrees (fun m => Steady limits m ∧ place < m.floor) (slot place) (Exec.slot place)
      (fun _ _ => True) := by
  rintro m ⟨hm, hplace⟩
  have hle := hm.wellFormed.floor_le
  refine ⟨?_, fun _ _ _ => trivial⟩
  show element m.stack place m = _
  rw [element_of_lt (by omega)]
  unfold lift Exec.slot
  rw [Array.getElem?_eq_getElem (by omega)]
  rfl

theorem agrees_setSlot (place : Nat) (v : Value) :
    Agrees (fun m => Steady limits m ∧ place < m.floor) (setSlot place v) (Exec.setSlot place v)
      (fun _ _ => True) := by
  rintro m ⟨hm, hplace⟩
  have hmet : (Demand.element place m.stack.size).Met :=
    Nat.lt_of_lt_of_le hplace hm.wellFormed.floor_le
  refine ⟨?_, fun _ _ _ => trivial⟩
  show (check (.element place m.stack.size) >>= fun _ => lift (Exec.setSlot place v)) m = _
  rw [check_of_met _ hmet, pure_bind]

theorem agrees_checkGlobal (index : Nat) :
    Agrees (Steady limits) (lift (Exec.checkGlobal index)) (Exec.checkGlobal index)
      (fun _ m => Steady limits m ∧ index < m.globals.size) := by
  refine agrees_lift fun m hm x m' h => ?_
  unfold Exec.checkGlobal at h
  split at h
  · cases h
    exact ⟨hm, by assumption⟩
  · cases h

theorem agrees_global (index : Nat) :
    Agrees P (global index) (Exec.global index) (fun _ _ => True) := by
  refine fun m _ => ⟨?_, fun _ _ _ => trivial⟩
  unfold global
  rw [bind_apply]
  unfold lift
  by_cases hindex : index < m.globals.size
  · have hcheck : Exec.checkGlobal index m = .ok () m := if_pos hindex
    have hglobal : Exec.global index m = .ok m.globals[index] m := by
      unfold Exec.global
      rw [Array.getElem?_eq_getElem hindex]
    rw [hcheck, hglobal]
    show element m.globals index m = _
    rw [element_of_lt hindex]
    rfl
  · have hcheck : Exec.checkGlobal index m = .error (.globalOutOfRange index m.globals.size) m :=
      if_neg hindex
    have hglobal : Exec.global index m = .error (.globalOutOfRange index m.globals.size) m := by
      unfold Exec.global
      rw [Array.getElem?_eq_none (by omega)]
    rw [hcheck, hglobal]
    rfl

theorem agrees_setGlobal (index : Nat) (v : Value) :
    Agrees (fun m => Steady limits m ∧ index < m.globals.size) (setGlobal index v)
      (Exec.setGlobal index v) (fun _ _ => True) := by
  rintro m ⟨-, hindex⟩
  have hmet : (Demand.element index m.globals.size).Met := hindex
  refine ⟨?_, fun _ _ _ => trivial⟩
  show (check (.element index m.globals.size) >>= fun _ => lift (Exec.setGlobal index v)) m = _
  rw [check_of_met _ hmet, pure_bind]

/-! ## Collections -/

/-- An even number of values leaves no chunk short. -/
theorem hashOf_eq {items : List Value} (heven : items.length % 2 = 0) :
    hashOf items = ofExcept (Exec.hashOf (Exec.pairs items)) := by
  unfold hashOf Exec.hashOf
  generalize Dict.empty = dict
  fun_induction chunks items generalizing dict with
  | case1 key value rest ih =>
    have hrest : rest.length % 2 = 0 := by
      simp only [List.length_cons] at heven
      omega
    unfold Exec.pairs
    rw [List.foldlM_cons, List.foldlM_cons, element_of_lt (Nat.zero_lt_two), pure_bind]
    show (ofExcept key.hashKey >>= _) >>= _
      = ofExcept (((dict.insert · value) <$> key.hashKey) >>= _)
    cases key.hashKey with
    | error fault => rfl
    | ok k =>
      show (pure k >>= _) >>= _ = _
      rw [pure_bind, element_of_lt (Nat.one_lt_two), pure_bind, pure_bind]
      exact ih hrest _
  | case2 key => simp at heven
  | case3 => rfl

theorem agrees_hashOf {items : List Value} (heven : items.length % 2 = 0) :
    Agrees (fun _ => True) (hashOf items) (Exec.query fun _ => Exec.hashOf (Exec.pairs items))
      (fun _ _ => True) := by
  refine fun m _ => ⟨?_, fun _ _ _ => trivial⟩
  rw [hashOf_eq heven]
  unfold lift Exec.query
  cases Exec.hashOf (Exec.pairs items) with
  | ok dict => rfl
  | error fault => rfl

/-! ## Reading an instruction -/

theorem toList_suffix (values : Array α) (start : Nat) :
    (values.extract start values.size).toList = values.toList.drop start := by
  rw [Array.toList_extract, List.extract_eq_take_drop]
  exact List.take_of_length_le (by simp)

/-- When there are as many bytes as the widths add up to, the operands are read one by one. -/
theorem readOperands_eq (widths : List Nat) {bytes : Array UInt8} {offset : Nat}
    (hlen : offset + widths.foldr (· + ·) 0 ≤ bytes.size) (hword : bytes.size < Nat.pow 2 64) :
    readOperands widths bytes offset = pure
      (Instruction.decodeOperands widths (bytes.toList.drop offset),
        offset + widths.foldr (· + ·) 0) := by
  induction widths generalizing offset with
  | nil => rfl
  | cons width widths ih =>
    rw [List.foldr_cons] at hlen
    have hread : Instruction.readNumber width (bytes.toList.drop offset)
        = .ok (BigEndian.decode ((bytes.toList.drop offset).take width)) :=
      Instruction.readNumber_of_le (by rw [List.length_drop, Array.length_toList]; omega)
    unfold readOperands
    rw [suffix_of_le (by omega), pure_bind, toList_suffix, hread, sum_of_lt (by omega)]
    show (pure _ >>= _) = _
    rw [pure_bind, pure_bind, ih (by omega), pure_bind, List.foldr_cons, Nat.add_assoc]
    show _ = pure (_ :: Instruction.decodeOperands widths (List.drop width _), _)
    rw [List.drop_drop]

/-- Wherever in its stream a frame stands, inside an operand or at the very end, to read its next
instruction stays inside the stream. -/
theorem next_eq (hip : frame.ip ≤ frame.code.size) (hword : frame.code.size < Nat.pow 2 64) :
    next frame = decoded frame.fetch := by
  unfold next Frame.fetch Frame.next
  rw [suffix_of_le hip, pure_bind, toList_suffix, Instruction.decodeAt_eq]
  cases hrest : frame.code.toList.drop frame.ip with
  | nil => rfl
  | cons byte bytes =>
    have hlen := congrArg List.length hrest
    rw [List.length_drop, Array.length_toList, List.length_cons] at hlen
    have hbytes : (frame.code.extract (frame.ip + 1) frame.code.size).toList = bytes := by
      rw [toList_suffix, ← List.drop_drop, hrest]
      rfl
    have hsize : (frame.code.extract (frame.ip + 1) frame.code.size).size = bytes.length := by
      rw [← hbytes, Array.length_toList]
    have hbyte : Instruction.readNumber 1 (byte :: bytes) = .ok byte.toNat := by
      rw [Instruction.readNumber_of_le (by simp)]
      simp [BigEndian.decode]
    rw [hbyte]
    show (decoded (Opcode.lookup byte.toNat.toUInt8) >>= _) = _
    rw [show byte.toNat.toUInt8 = byte from UInt8.ofNat_toNat]
    cases hop : Opcode.lookup byte with
    | error e =>
      rw [Instruction.decode_of_lookup_eq_error hop]
      rfl
    | ok op =>
      rw [Opcode.lookup_eq_ok_iff.mp hop]
      show (sum frame.ip 1 >>= _) = _
      rw [sum_of_lt (by omega), pure_bind, suffix_of_le (by omega), pure_bind, hsize]
      by_cases hshort : bytes.length < op.operandBytes
      · rw [if_pos hshort, Instruction.decode_of_lt hshort]
        rfl
      · have henough : 0 + op.operandBytes
            ≤ (frame.code.extract (frame.ip + 1) frame.code.size).size := by
          rw [hsize, Nat.zero_add]
          exact Nat.le_of_not_lt hshort
        have hread := readOperands_eq op.widths henough (by omega)
        have hcopy : (Demand.copy (Instruction.decodeOperands op.widths bytes).length 2).Met := by
          show (Instruction.decodeOperands op.widths bytes).length ≤ 2
          rw [(Instruction.fits_decodeOperands op.widths bytes).length_eq]
          exact op.arity_le_two
        rw [hbytes, List.drop_zero, Nat.zero_add] at hread
        rw [if_neg hshort, hread, pure_bind, Instruction.decode_of_le (Nat.le_of_not_lt hshort)]
        show (check _ >>= _) = _
        have hfits : frame.ip + 1 + op.operandBytes < Nat.pow 2 64 := by omega
        rw [check_of_met _ hcopy, pure_bind]
        show (sum (frame.ip + 1) op.operandBytes >>= _) = _
        rw [sum_of_lt hfits, pure_bind, Nat.add_assoc]
        rfl

theorem agrees_fetch :
    Agrees (Steady limits) fetch Exec.fetch (fun i m => Steady limits m ∧ i.Fits) := by
  intro m hm
  constructor
  · unfold fetch lift Exec.fetch
    rw [get_bind]
    cases hframes : m.frames with
    | nil => rfl
    | cons frame callers =>
      dsimp only
      rw [next_eq (hm.wellFormed.ip_le frame (hframes ▸ List.mem_cons_self)) (hm.fits hframes).code]
      cases frame.fetch with
      | ok read => rfl
      | error e => rfl
  · intro i m' h
    have hkept := Exec.keeps_fetch m (Machine.within_whole.mpr hm.runs)
    cases hframes : m.frames with
    | nil =>
      unfold Exec.fetch at h
      rw [hframes] at h
      cases h
    | cons frame callers =>
      cases hnext : frame.next with
      | error e =>
        rw [Exec.fetch_of_error hframes hnext] at h
        cases h
      | ok j =>
        rw [Exec.fetch_of_next hframes hnext] at h hkept
        cases h
        have hgoto := hm.wellFormed.goto hframes (Frame.past_le hnext)
        have hruns := Machine.within_whole.mp hkept.machine
        exact ⟨⟨hgoto, hruns, hm.limits_eq, hm.word⟩, Instruction.fits_of_decode hnext⟩

/-! ## Calls -/

/-- There is room below the arguments, and for the slots even on top of the highest stack. -/
theorem agrees_enter {closure : Closure} (hfits : closure.routine.Fits limits) (given : Nat) :
    Agrees (fun m => Steady limits m ∧ given ≤ m.stack.size) (enter closure given)
      (Exec.enter closure given) (fun _ _ => True) := by
  rintro m ⟨hm, hgiven⟩
  have hsize := hm.size_le
  have hslots := hfits.slots
  refine ⟨?_, fun _ _ _ => trivial⟩
  show (if given ≠ closure.routine.params then
      throw (.fault (.arityMismatch closure.routine.params given))
    else if m.limits.maxFrames ≤ m.depth then
      throw (.fault (.frameOverflow m.limits.maxFrames))
    else do
      let base ← difference m.stack.size given
      let top ← sum base closure.routine.slots
      if m.limits.stackSize < top then
        throw (.fault .stackOverflow)
      else
        set { m with
          stack := m.stack ++ Array.replicate (top - m.stack.size) Value.null
          frames := { closure, base } :: m.frames } : Guarded Unit) m = _
  unfold lift Exec.enter
  dsimp only
  rw [difference_of_le hgiven, pure_bind, sum_of_lt (by omega), pure_bind]
  split
  · rfl
  split
  · rfl
  split
  · rfl
  · rfl

/-- A frame that stands on another does not stand at the bottom of the stack. -/
theorem agrees_leave : Agrees (Steady limits) leave Exec.leave (fun _ _ => True) := by
  intro m hm
  refine ⟨?_, fun _ _ _ => trivial⟩
  have hchained := hm.wellFormed.chained
  unfold leave lift Exec.leave
  rw [get_bind]
  cases hframes : m.frames with
  | nil => rfl
  | cons frame callers =>
    cases callers with
    | nil => rfl
    | cons caller rest =>
      rw [hframes] at hchained
      have habove := hchained.1.above
      simp only [List.isEmpty_cons, Bool.false_eq_true, if_false]
      rw [difference_of_le (by omega), pure_bind]
      rfl

theorem agrees_callee {given : Nat} (hgiven : given < Nat.pow 256 2) :
    Agrees (Steady limits) (callee given) (Exec.callee given)
      (fun found m => Steady limits m ∧ found.1 + (given + 1) = m.stack.size
        ∧ found.2.Runs (·.Fits limits)) := by
  intro m hm
  constructor
  · show (sum given 1 >>= fun taken =>
      if m.stack.size < taken then throw (.fault .stackUnderflow)
      else floor >>= fun floor =>
        if m.stack.size - taken < floor then throw (.fault .stackUnderflow)
        else do return (m.stack.size - taken, ← element m.stack (m.stack.size - taken))
          : Guarded (Nat × Value)) m = _
    rw [sum_of_lt (Nat.lt_of_le_of_lt hgiven (by decide)), pure_bind]
    unfold lift Exec.callee
    by_cases henough : m.floor + (given + 1) ≤ m.stack.size
    · rw [if_neg (by omega), bind_apply, floor_eq hm, dif_pos henough]
      dsimp only
      rw [if_neg (by omega), element_of_lt (by omega), pure_bind]
      rfl
    · rw [dif_neg henough]
      split
      · rfl
      · rw [bind_apply, floor_eq hm]
        dsimp only
        rw [if_pos (by omega)]
        rfl
  · intro found m' h
    have hkept := Exec.keeps_callee given m (Machine.within_whole.mpr hm.runs)
    unfold Exec.callee at h hkept
    split at h
    · next henough =>
      rw [dif_pos henough] at hkept
      cases h
      cases hkept with
      | ok hfound _ =>
        exact ⟨hm, Nat.sub_add_cancel (by omega), Value.within_whole.mp hfound⟩
    · cases h

theorem agrees_above (place : Nat) :
    Agrees (fun m => Steady limits m ∧ place < m.stack.size) (above place) (Exec.above place)
      (fun _ _ => True) := by
  rintro m ⟨hm, hplace⟩
  have hsize := hm.size_le
  have hword := hm.word
  refine ⟨?_, fun _ _ _ => trivial⟩
  show (sum place 1 >>= fun start => do return (← suffix m.stack start).toList
    : Guarded (List Value)) m = _
  rw [sum_of_lt (by omega), pure_bind, suffix_of_le (by omega), pure_bind]
  rfl

theorem agrees_leaveWith (v : Value) :
    Agrees (Steady limits) (leaveWith v) (Exec.leaveWith v) (fun _ _ => True) :=
  agrees_leave.bind fun _ => agrees_pure fun _ _ => trivial

theorem agrees_call (host : Host) {given : Nat} (hgiven : given < Nat.pow 256 2) :
    Agrees (Steady limits) (call host given) (Exec.call host given) (fun _ _ => True) := by
  refine (agrees_callee hgiven).bind fun (place, v) => ?_
  cases v with
  | closure closure =>
    intro m ⟨hm, hplace, hfits⟩
    have henter := agrees_enter hfits given
    have hbind : Agrees _ _ _ (fun _ _ => True) :=
      henter.bind fun _ => agrees_pure (x := Progress.entered) fun _ _ => trivial
    exact hbind m ⟨hm, by omega⟩
  | builtin b =>
    intro m ⟨hm, hplace, _⟩
    have hanswer : Agrees (fun m => Steady limits m ∧ place < m.stack.size) _ _ (fun _ _ => True) :=
      (agrees_above place).bind fun arguments =>
        (agrees_end (Exec.onHeap fun heap => host b.label heap arguments)).bind fun answer =>
          (agrees_end (Exec.truncate place)).bind fun _ =>
            (agrees_end (Exec.push answer)).bind fun _ =>
              agrees_pure (x := Progress.next) fun _ _ => trivial
    exact hanswer m ⟨hm, by omega⟩
  | _ => exact agrees_throw _

/-! ## Instructions -/

theorem agrees_binary (op : Opcode) :
    Agrees (Steady limits)
      (do
        let right ← pop
        let left ← pop
        lift (Exec.push (← lift (Exec.attempt fun heap => heap.binary op left right))))
      (do
        let right ← Exec.pop
        let left ← Exec.pop
        Exec.push (← Exec.attempt fun heap => heap.binary op left right))
      (fun _ _ => True) :=
  agrees_take.bind fun _ => agrees_take.bind fun _ => (agrees_end _).bind fun _ => agrees_end _

theorem agrees_pure_binary (f : Value → Value → Value) :
    Agrees (Steady limits)
      (do
        let right ← pop
        let left ← pop
        lift (Exec.push (f left right)))
      (do
        let right ← Exec.pop
        let left ← Exec.pop
        Exec.push (f left right))
      (fun _ _ => True) :=
  agrees_take.bind fun _ => agrees_take.bind fun _ => agrees_end _

theorem agrees_unary (op : Opcode) :
    Agrees (Steady limits)
      (do
        let operand ← pop
        lift (Exec.push (← lift (Exec.query fun _ => operand.unary op))))
      (do
        let operand ← Exec.pop
        Exec.push (← Exec.query fun _ => operand.unary op))
      (fun _ _ => True) :=
  agrees_take.bind fun _ => (agrees_end _).bind fun _ => agrees_end _

/-- **Every instruction meets its demands.** -/
theorem agrees_execute (host : Host) {i : Instruction} (hi : i.Fits) :
    Agrees (Steady limits) (execute host i) (Exec.execute host i) (fun _ _ => True) := by
  have hfirst := hi.first_lt
  obtain ⟨op, operands⟩ := i
  cases op with
  | assignGlobal =>
    refine .proceed ((agrees_checkGlobal _).bind fun _ => ?_)
    exact (agrees_pop (lasting_globals _)).bind fun v => agrees_setGlobal _ v
  | bindGlobal =>
    refine .proceed ((agrees_checkGlobal _).bind fun _ => ?_)
    refine (agrees_pop (lasting_globals _)).bind fun v => ?_
    exact (agrees_setGlobal _ v).bind fun _ => agrees_end _
  | loadGlobal => exact .proceed ((agrees_global _).bind fun _ => agrees_end _)
  | assignLocal =>
    refine .proceed ((agrees_localSlot _).bind fun place => ?_)
    exact (agrees_pop (lasting_floor place)).bind fun v => agrees_setSlot place v
  | bindLocal =>
    refine .proceed ((agrees_localSlot _).bind fun place => ?_)
    refine (agrees_pop (lasting_floor place)).bind fun v => ?_
    exact (agrees_setSlot place v).bind fun _ => agrees_end _
  | loadLocal =>
    refine .proceed ((agrees_localSlot _).bind fun place => ?_)
    exact (agrees_slot place).bind fun _ => agrees_end _
  | loadModule =>
    exact .proceed (agrees_take.bind fun name => (agrees_end _).bind fun _ => agrees_end _)
  | getItem =>
    refine .proceed (agrees_take.bind fun index => agrees_take.bind fun container => ?_)
    exact (agrees_end _).bind fun _ => agrees_end _
  | setItem =>
    refine .proceed (agrees_take.bind fun v => agrees_take.bind fun index => ?_)
    exact agrees_take.bind fun container => (agrees_end _).bind fun _ => agrees_end _
  | makeArray =>
    refine .proceed ((agrees_popMany _).bind fun elements => ?_)
    exact (agrees_end _).bind fun _ => agrees_end _
  | makeHash =>
    refine .proceed ?_
    by_cases hodd : Instruction.first ⟨.makeHash, operands⟩ % 2 ≠ 0
    · simp only [if_pos hodd]
      exact (agrees_throw (Q := fun _ _ => False) _).bind fun _ _ h => h.elim
    · simp only [if_neg hodd]
      refine (agrees_popMany _).bind fun items => ?_
      refine Agrees.bind (Q := fun _ _ => True) ?_ fun _ => (agrees_end _).bind fun _ => agrees_end _
      intro m hsize
      have heven : items.toList.length % 2 = 0 := by
        rw [Array.length_toList, hsize]
        exact not_not.mp hodd
      exact agrees_hashOf heven m trivial
  | makeClosure =>
    refine .proceed ((agrees_reads (Exec.reads_routine _)).bind fun routine => ?_)
    refine (agrees_popMany _).bind fun captures => ?_
    exact (agrees_end _).bind fun _ => agrees_end _
  | pop => exact .proceed (agrees_take.bind fun _ => agrees_end _)
  | add => exact .proceed (agrees_binary _)
  | sub => exact .proceed (agrees_binary _)
  | mul => exact .proceed (agrees_binary _)
  | div => exact .proceed (agrees_binary _)
  | mod => exact .proceed (agrees_binary _)
  | bitwiseOr => exact .proceed (agrees_binary _)
  | bitwiseXor => exact .proceed (agrees_binary _)
  | bitwiseAnd => exact .proceed (agrees_binary _)
  | leftShift => exact .proceed (agrees_binary _)
  | rightShift => exact .proceed (agrees_binary _)
  | greaterThan => exact .proceed (agrees_binary _)
  | greaterThanEqual => exact .proceed (agrees_binary _)
  | equal => exact .proceed (agrees_pure_binary fun l r => .boolean (l.equals r))
  | notEqual => exact .proceed (agrees_pure_binary fun l r => .boolean !(l.equals r))
  | or => exact .proceed (agrees_pure_binary fun l r => .boolean (l.isTruthy || r.isTruthy))
  | and => exact .proceed (agrees_pure_binary fun l r => .boolean (l.isTruthy && r.isTruthy))
  | not => exact .proceed (agrees_unary _)
  | minus => exact .proceed (agrees_unary _)
  | bitwiseNot => exact .proceed (agrees_unary _)
  | jumpIfFalse =>
    refine .proceed (agrees_take.bind fun condition => ?_)
    split
    · exact agrees_end _
    · exact agrees_pure fun _ _ => trivial
  | call => exact agrees_call host hfirst
  | returnValue => exact agrees_take.bind fun v => agrees_leaveWith v
  | bareReturn => exact agrees_leaveWith .null
  | _ => exact agrees_end _

/-! ## Steps and runs -/

theorem agrees_dispatch (host : Host) :
    Agrees (Steady limits) (dispatch host) (Exec.dispatch host) (fun _ _ => True) := by
  refine (agrees_reads Exec.reads_frame).bind fun frame => ?_
  split
  · refine (agrees_reads (a := Exec.isOutermost) fun _ => Or.inl ⟨_, rfl⟩).bind fun outermost => ?_
    split
    · exact .proceed (agrees_end _)
    · exact agrees_leaveWith .null
  · refine agrees_fetch.bind fun i m hm => ?_
    exact agrees_execute host hm.2 m hm.1

/-- **A step meets its demands.** -/
theorem agrees_step (host : Host) :
    Agrees (Steady limits) (step host) (Exec.step host) (fun _ _ => True) :=
  (agrees_dispatch host).bind fun _ => agrees_end _

end Guarded

/-! ## Every state -/

variable {host : Host} {m₀ : Machine}

theorem Steady.after (hfresh : m₀.Fresh) (hruns : m₀.Runs (·.Fits m₀.limits))
    (hhost : host.Runs (·.Fits m₀.limits)) (n : Nat) : Steady m₀.limits (m₀.after host n) where
  wellFormed := (WellFormed.of_fresh hfresh).after host n
  runs := Machine.runs_after hhost hruns n
  limits_eq := by
    induction n with
    | zero => rfl
    | succ n ih => exact (((WellFormed.of_fresh hfresh).after host n).limits_advance host).trans ih
  word := by
    -- the main stream is among what the machine was given to run
    cases hfresh with
    | start session limits main constants builtins modules heap =>
      have hmain := hruns.frames _ List.mem_cons_self
      exact Nat.lt_of_le_of_lt (Nat.le_add_left ..) hmain.slots

/-- **Every demand is met**, in every step of a machine that was given nothing but functions that
fit: no step stops at a demand that is not met, and so each comes to what the machine comes to. -/
theorem guarded_after (hfresh : m₀.Fresh) (hruns : m₀.Runs (·.Fits m₀.limits))
    (hhost : host.Runs (·.Fits m₀.limits)) (n : Nat) :
    (∀ demand m, Guarded.step host (m₀.after host n) ≠ .error (.unmet demand) m)
      ∧ Guarded.step host (m₀.after host n) = Guarded.lift (Exec.step host) (m₀.after host n) := by
  have hsteady := Steady.after hfresh hruns hhost n
  have hstep := (Guarded.agrees_step host _ hsteady).1
  refine ⟨fun demand m h => ?_, hstep⟩
  rw [hstep] at h
  unfold Guarded.lift at h
  cases hr : Exec.step host (m₀.after host n) with
  | ok x m' =>
    rw [hr] at h
    cases h
  | error fault m' =>
    rw [hr] at h
    cases h

/-- After a jump into the operand of the jump itself, in a function that was called. -/
theorem guarded_after_jump :
    ∃ m₀ : Machine, m₀.Fresh ∧ (m₀.after Host.sample 3).frames.head?.map (·.ip) = some 2
      ∧ ∀ demand m,
        Guarded.step Host.sample (m₀.after Host.sample 3) ≠ .error (.unmet demand) m := by
  -- `MakeClosure 0 0; Call 0` and, in the function, `Jump 2`
  let jump : Routine := { code := #[41, 0, 2], locals := 1 }
  let program : Program := ⟨#[18, 0, 0, 0, 42, 0], #[.function jump]⟩
  have hmain : Routine.Fits {} { code := program.main } := ⟨by decide, by decide⟩
  have hconstants : ∀ constant ∈ program.constants, constant.Runs (·.Fits {}) := by
    intro constant hconstant
    rw [List.mem_singleton.mp (Array.mem_def.mp hconstant)]
    exact ⟨by decide, by decide⟩
  have hfresh := Machine.fresh_load {} {} program
  have hguarded := guarded_after hfresh (Machine.runs_load {} hmain hconstants) Host.runs_sample 3
  exact ⟨_, hfresh, by decide +kernel, hguarded.1⟩

end ClosureMachine
