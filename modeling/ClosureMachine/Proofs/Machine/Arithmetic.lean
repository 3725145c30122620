import ClosureMachine.Host.Sample
import ClosureMachine.Proofs.Machine.Exchange
import Mathlib.Data.Int.ModEq

/-!
# Arithmetic on words

Integers are words of 64 bits. What an operation on them answers is told from the exact result, a
number without bounds, by reducing it: `IsReduced` says that a word and a number are congruent, and
there is one such word for every number (`IsReduced.eq`).

* **`division`**, **`isReduced_shiftLeft`** and **`toInt_shiftRight`** are the operations for which
  more has to be said, because they round, or because they are not defined for all operands.
* **`Processor.operation?`** is made of the operations of a processor, which has no result at all
  for some operands. `Processor.operation?_eq` says that these operands never get to it.
* **`Exec.arithmetic_exact`** is about the instructions.
-/

namespace ClosureMachine

/-! ## Words and numbers -/

/-- The word is congruent to the number. -/
def IsReduced (exact : Int) (n : Int64) : Prop :=
  n.toInt ≡ exact [ZMOD 2 ^ 64]

theorem IsReduced.eq {exact : Int} {n n' : Int64} (h : IsReduced exact n)
    (h' : IsReduced exact n') : n' = n := by
  have hmod : n'.toInt % 2 ^ 64 = n.toInt % 2 ^ 64 := h'.trans h.symm
  have hn := And.intro n.le_toInt n.toInt_lt
  have hn' := And.intro n'.le_toInt n'.toInt_lt
  apply Int64.toInt_inj.mp
  omega

theorem isReduced_iff {exact : Int} {n : Int64} (h : IsReduced exact n) (n' : Int64) :
    IsReduced exact n' ↔ n' = n :=
  ⟨h.eq, fun heq => heq ▸ h⟩

theorem isReduced_of_bmod {exact : Int} {n : Int64} (h : n.toInt = exact.bmod (2 ^ 64)) :
    IsReduced exact n := by
  unfold IsReduced
  rw [h]
  exact Int.bmod_emod

theorem toInt_not (n : Int64) : (~~~n).toInt = -n.toInt - 1 := by
  have hn := And.intro n.le_toInt n.toInt_lt
  rw [Int64.toInt_not, Int.bmod_eq_of_le (by omega) (by omega)]

/-! ## Division -/

/-- `q` and `d` are quotient and remainder of `l` by `r`. -/
structure Division (l r q d : Int64) : Prop where
  identity : IsReduced (q.toInt * r.toInt + d.toInt) l
  /-- The quotient goes toward zero. -/
  quotient : IsReduced (l.toInt.tdiv r.toInt) q
  exact_iff : q.toInt = l.toInt.tdiv r.toInt ↔ ¬(l = Int64.minValue ∧ r = -1)
  overflow : l = Int64.minValue → r = -1 → q = Int64.minValue ∧ d = 0
  remainder_lt : d.toInt.natAbs < r.toInt.natAbs
  sign : d = 0 ∨ d.toInt.sign = l.toInt.sign

theorem division (l : Int64) {r : Int64} (hr : r ≠ 0) : Division l r (l / r) (l % r) := by
  have hne : r.toInt ≠ 0 := fun h => hr (Int64.toInt_inj.mp h)
  have hquotient : IsReduced (l.toInt.tdiv r.toInt) (l / r) :=
    isReduced_of_bmod (Int64.toInt_div l r)
  refine
    { identity := ?_
      quotient := hquotient
      exact_iff := ⟨?_, fun hsafe => ?_⟩
      overflow := ?_
      remainder_lt := ?_
      sign := ?_ }
  · rw [Int64.toInt_mod]
    have hsum := (hquotient.mul_right r.toInt).add_right (l.toInt.tmod r.toInt)
    rw [Int.tdiv_mul_add_tmod] at hsum
    exact hsum.symm
  · rintro hexact ⟨rfl, rfl⟩
    revert hexact
    decide
  · by_cases hl : l = Int64.minValue
    · exact Int64.toInt_div_of_ne_right l r fun hr => hsafe ⟨hl, hr⟩
    · exact Int64.toInt_div_of_ne_left l r hl
  · rintro rfl rfl
    decide
  · rw [Int64.toInt_mod, Int.natAbs_tmod]
    exact Nat.mod_lt _ (Int.natAbs_pos.mpr hne)
  · have hsign := Int.sign_tmod l.toInt r.toInt
    rw [← Int64.toInt_mod] at hsign
    split at hsign
    · exact Or.inl (Int64.toInt_inj.mp (Int.sign_eq_zero_iff_zero.mp hsign))
    · exact Or.inr hsign

/-! ## Shifts -/

theorem toNat_smod {n : Int64} (hnonneg : 0 ≤ n.toInt) (hle : n.toInt ≤ 63) :
    (n.toBitVec.smod 64).toNat = n.toInt.toNat := by
  have hsmod : (n.toBitVec.smod 64).toInt = n.toInt := by
    rw [BitVec.toInt_smod]
    exact Int.fmod_eq_of_lt hnonneg (by show n.toInt < 64; omega)
  rw [BitVec.toInt_eq_toNat_cond] at hsmod
  split at hsmod <;> omega

theorem isReduced_shiftLeft (l : Int64) {n : Int64} (hnonneg : 0 ≤ n.toInt) (hle : n.toInt ≤ 63) :
    IsReduced (l.toInt * 2 ^ n.toInt.toNat) (l <<< n) := by
  have hshift : (l <<< n).toInt
      = ((l.toBitVec.toNat <<< n.toInt.toNat : Nat) : Int).bmod (2 ^ 64) := by
    rw [← toNat_smod hnonneg hle, ← BitVec.toInt_shiftLeft]
    rfl
  have hword : (l.toBitVec.toNat : Int) ≡ l.toInt [ZMOD 2 ^ 64] := by
    show _ ≡ l.toBitVec.toInt [ZMOD 2 ^ 64]
    rw [BitVec.toInt_eq_toNat_bmod]
    exact Int.bmod_emod.symm
  refine (isReduced_of_bmod hshift).trans ?_
  rw [Nat.shiftLeft_eq]
  push_cast
  exact hword.mul_right _

theorem toInt_shiftRight (l : Int64) {n : Int64} (hnonneg : 0 ≤ n.toInt) (hle : n.toInt ≤ 63) :
    (l >>> n).toInt = l.toInt.fdiv (2 ^ n.toInt.toNat) := by
  have hshift : (l >>> n).toInt = l.toInt >>> n.toInt.toNat := by
    rw [← toNat_smod hnonneg hle]
    exact BitVec.toInt_sshiftRight
  have hpow : (0 : Int) ≤ 2 ^ n.toInt.toNat := Int.pow_nonneg (by decide)
  rw [hshift, Int.shiftRight_eq_div_pow, Int.fdiv_eq_ediv_of_nonneg _ hpow]
  push_cast
  rfl

theorem shiftAmount_of_le {n : Int64} (hnonneg : 0 ≤ n.toInt) (hle : n.toInt ≤ 63) :
    shiftAmount n = .ok n :=
  if_pos ⟨Int64.le_iff_toInt_le.mpr hnonneg, Int64.le_iff_toInt_le.mpr hle⟩

theorem shiftAmount_of_not {n : Int64} (h : n.toInt < 0 ∨ 63 < n.toInt) :
    shiftAmount n = .error (.invalidShift n) := by
  refine if_neg fun ⟨hnonneg, hle⟩ => ?_
  have hnonneg : 0 ≤ n.toInt := Int64.le_iff_toInt_le.mp hnonneg
  have hle : n.toInt ≤ 63 := Int64.le_iff_toInt_le.mp hle
  omega

/-! ## What a processor has no result for -/

namespace Processor

/-- The divisor has to be other than zero. -/
def quotient? (l r : Int64) : Option Int64 :=
  if r = 0 then none else some (l / r)

def remainder? (l r : Int64) : Option Int64 :=
  if r = 0 then none else some (l % r)

/-- The amount of a shift has to be less than the width of a word. -/
def shiftLeft? (l n : Int64) : Option Int64 :=
  if 0 ≤ n ∧ n < 64 then some (l <<< n) else none

def shiftRight? (l n : Int64) : Option Int64 :=
  if 0 ≤ n ∧ n < 64 then some (l >>> n) else none

/-- The operation on two integers, made of those of a processor. Those that wrap around, those on bits
and comparisons have a result for all operands. -/
def operation? (op : Opcode) (l r : Int64) : Option (Except Fault Value) :=
  let shift (shifted? : Int64 → Int64 → Option Int64) :=
    match shiftAmount r with
    | .ok n => (shifted? l n).map (.ok <| .integer ·)
    | .error fault => some (.error fault)
  match op with
  | .add => some (.ok (.integer (l + r)))
  | .sub => some (.ok (.integer (l - r)))
  | .mul => some (.ok (.integer (l * r)))
  | .div =>
    if r = 0 then some (.error .divisionByZero) else (quotient? l r).map (.ok <| .integer ·)
  | .mod =>
    if r = 0 then some (.error .divisionByZero) else (remainder? l r).map (.ok <| .integer ·)
  | .bitwiseOr => some (.ok (.integer (l ||| r)))
  | .bitwiseXor => some (.ok (.integer (l ^^^ r)))
  | .bitwiseAnd => some (.ok (.integer (l &&& r)))
  | .leftShift => shift shiftLeft?
  | .rightShift => shift shiftRight?
  | .greaterThan => some (.ok (.boolean (r < l)))
  | .greaterThanEqual => some (.ok (.boolean (r ≤ l)))
  | _ => some (.error (.typeMismatch .integer .integer))

theorem amount_lt {r n : Int64} (h : shiftAmount r = .ok n) : 0 ≤ n ∧ n < 64 := by
  unfold shiftAmount at h
  split at h
  · next hamount =>
    cases h
    have hle : r.toInt ≤ 63 := Int64.le_iff_toInt_le.mp hamount.2
    exact ⟨hamount.1, Int64.lt_iff_toInt_lt.mpr (Int.lt_of_le_of_lt hle (by decide))⟩
  · cases h

/-- Division by zero and shifts out of range are refused before it comes to that. -/
theorem operation?_eq (op : Opcode) (l r : Int64) :
    operation? op l r = some (integerOperation op l r) := by
  unfold operation? integerOperation quotient? remainder? shiftLeft? shiftRight?
  cases op with
  | div | mod => dsimp only; split <;> rfl
  | leftShift | rightShift =>
    cases hamount : shiftAmount r with
    | ok n => simp only [if_pos (amount_lt hamount)]; rfl
    | error fault => rfl
  | _ => rfl

end Processor

/-! ## The instructions -/

/-- The operations that answer two integers with an integer. -/
def Opcode.integral : List Opcode :=
  [.add, .sub, .mul, .div, .mod, .leftShift, .rightShift, .bitwiseOr, .bitwiseXor, .bitwiseAnd]

namespace Exec

/-- The instruction answers two integers with an integer. -/
def Computes (host : Host) (op : Opcode) (l r n : Int64) : Prop :=
  Responds host ⟨op, []⟩ [.integer l, .integer r] (.ok (.integer n))

def Faults (host : Host) (op : Opcode) (l r : Int64) (fault : Fault) : Prop :=
  Responds host ⟨op, []⟩ [.integer l, .integer r] (.error fault)

/-- The instruction answers with the exact result, reduced to a word. -/
def Reduces (host : Host) (op : Opcode) (l r : Int64) (exact : Int) : Prop :=
  ∃ n, Computes host op l r n ∧ ∀ n', IsReduced exact n' ↔ n' = n

/-- What arithmetic on `l` and `r` comes to. -/
structure Arithmetic (host : Host) (l r : Int64) : Prop where
  add : Reduces host .add l r (l.toInt + r.toInt)
  sub : Reduces host .sub l r (l.toInt - r.toInt)
  mul : Reduces host .mul l r (l.toInt * r.toInt)
  divisionByZero : ∀ op ∈ [Opcode.div, .mod], Faults host op l r .divisionByZero ↔ r = 0
  division : r ≠ 0 →
    ∃ q d, Computes host .div l r q ∧ Computes host .mod l r d ∧ Division l r q d
  invalidShift : ∀ op ∈ [Opcode.leftShift, .rightShift],
    Faults host op l r (.invalidShift r) ↔ r.toInt < 0 ∨ 63 < r.toInt
  leftShift : 0 ≤ r.toInt → r.toInt ≤ 63 →
    Reduces host .leftShift l r (l.toInt * 2 ^ r.toInt.toNat)
  rightShift : 0 ≤ r.toInt → r.toInt ≤ 63 →
    ∃ n, Computes host .rightShift l r n ∧ n.toInt = l.toInt.fdiv (2 ^ r.toInt.toNat)
  minus : ∃ n, Responds host ⟨.minus, []⟩ [.integer l] (.ok (.integer n))
    ∧ ∀ n', IsReduced (-l.toInt) n' ↔ n' = n
  bitwiseNot : ∃ n, Responds host ⟨.bitwiseNot, []⟩ [.integer l] (.ok (.integer n))
    ∧ n.toInt = -l.toInt - 1
  bitwise : ∀ op ∈ [Opcode.bitwiseOr, .bitwiseXor, .bitwiseAnd], ∃ n, Computes host op l r n
  /-- An instruction that takes two operands has an answer to two integers. -/
  others : ∀ op, (Instruction.mk op []).pops = 2 →
    ∃ answer, Responds host ⟨op, []⟩ [.integer l, .integer r] answer
      ∧ ∀ n, answer = .ok (.integer n) → op ∈ Opcode.integral
  /-- So it is with the operation by itself, whatever it is asked for. -/
  binary : ∀ (heap heap' : Heap) (op : Opcode) (n : Int64),
    heap.binary op (.integer l) (.integer r) = .ok (.integer n, heap') → op ∈ Opcode.integral
  /-- The operands get to no operation of a processor that has no result for them. -/
  processor : ∀ op, Processor.operation? op l r = some (integerOperation op l r)

variable {host : Host} {l r : Int64}

theorem responds_integers {op : Opcode} (hop : op ∈ Opcode.binaries) (l r : Int64) :
    Responds host ⟨op, []⟩ [.integer l, .integer r] (integerOperation op l r) :=
  responds_binary hop fun _ => rfl

theorem reduces_of_computes {op : Opcode} {exact : Int} {n : Int64} (h : Computes host op l r n)
    (hn : IsReduced exact n) : Reduces host op l r exact :=
  ⟨n, h, isReduced_iff hn⟩

theorem faults_iff {op : Opcode} (hop : op ∈ Opcode.binaries) {fault : Fault} :
    Faults host op l r fault ↔ integerOperation op l r = .error fault := by
  constructor
  · exact fun h => (responds_integers hop l r).unique h
  · intro h
    have hresponds : Responds host ⟨op, []⟩ _ _ := responds_integers hop l r
    rwa [h] at hresponds

theorem faults_divisionByZero_iff {op : Opcode} (hop : op = .div ∨ op = .mod) :
    Faults host op l r .divisionByZero ↔ r = 0 := by
  have hbinary : op ∈ Opcode.binaries := by rcases hop with rfl | rfl <;> decide
  rw [faults_iff hbinary]
  rcases hop with rfl | rfl <;> simp [integerOperation]

theorem faults_invalidShift_iff {op : Opcode} (hop : op = .leftShift ∨ op = .rightShift) :
    Faults host op l r (.invalidShift r) ↔ r.toInt < 0 ∨ 63 < r.toInt := by
  have hbinary : op ∈ Opcode.binaries := by rcases hop with rfl | rfl <;> decide
  have hamount : integerOperation op l r = .error (.invalidShift r)
      ↔ shiftAmount r = .error (.invalidShift r) := by
    rcases hop with rfl | rfl <;> exact map_eq_error_iff
  rw [faults_iff hbinary, hamount]
  refine ⟨fun h => ?_, shiftAmount_of_not⟩
  by_contra hnot
  rw [shiftAmount_of_le (by omega) (by omega)] at h
  cases h

/-- An instruction that takes two operands has an answer to two integers, and it is only the
operations of arithmetic that have an integer for an answer. -/
theorem responds_two_operands {op : Opcode} (hpops : (Instruction.mk op []).pops = 2) :
    ∃ answer, Responds host ⟨op, []⟩ [.integer l, .integer r] answer
      ∧ ∀ n, answer = .ok (.integer n) → op ∈ Opcode.integral := by
  cases op with
  | add | sub | mul | div | mod | leftShift | rightShift | bitwiseOr | bitwiseXor | bitwiseAnd =>
    exact ⟨_, responds_integers (by decide) l r, fun _ _ => by decide⟩
  | greaterThan | greaterThanEqual =>
    exact ⟨_, responds_integers (by decide) l r, fun n hn => by cases hn⟩
  | equal => exact ⟨_, responds_equal _ _, fun n hn => by cases hn⟩
  | notEqual =>
    exact ⟨_, responds_pure_binary (fun l r => .boolean !(l.equals r)) rfl _ _,
      fun n hn => by cases hn⟩
  | or =>
    exact ⟨_, responds_pure_binary (fun l r => .boolean (l.isTruthy || r.isTruthy)) rfl _ _,
      fun n hn => by cases hn⟩
  | and =>
    exact ⟨_, responds_pure_binary (fun l r => .boolean (l.isTruthy && r.isTruthy)) rfl _ _,
      fun n hn => by cases hn⟩
  | getItem => exact ⟨_, responds_getItem fun _ => rfl, fun n hn => by cases hn⟩
  | _ => cases hpops

theorem integral_of_binary {heap heap' : Heap} {op : Opcode} {n : Int64}
    (h : heap.binary op (.integer l) (.integer r) = .ok (.integer n, heap')) :
    op ∈ Opcode.integral := by
  obtain ⟨v, hv, heq⟩ := map_eq_ok_iff.mp h
  obtain ⟨rfl, -⟩ := Prod.mk.inj heq
  cases op with
  | add | sub | mul | div | mod | leftShift | rightShift | bitwiseOr | bitwiseXor | bitwiseAnd =>
    decide
  | _ => cases hv

/-- **Arithmetic is exact up to reduction.** Sum, difference, product and left shift are the exact
results reduced to words; quotient and remainder are exact but for one dividend and divisor; a right
shift goes to the floor. The faults are division by zero and shifts out of range, and nothing else
answers two integers with an integer but the bitwise operations. -/
theorem arithmetic_exact (host : Host) (l r : Int64) : Arithmetic host l r where
  add :=
    reduces_of_computes (responds_integers (by decide) l r)
      (isReduced_of_bmod (Int64.toInt_add l r))
  sub :=
    reduces_of_computes (responds_integers (by decide) l r)
      (isReduced_of_bmod (Int64.toInt_sub l r))
  mul :=
    reduces_of_computes (responds_integers (by decide) l r)
      (isReduced_of_bmod (Int64.toInt_mul l r))
  divisionByZero op hop := faults_divisionByZero_iff (by simpa using hop)
  division hr := by
    have hdiv : Responds host ⟨.div, []⟩ _ _ := responds_integers (by decide) l r
    have hmod : Responds host ⟨.mod, []⟩ _ _ := responds_integers (by decide) l r
    simp only [integerOperation, if_neg hr] at hdiv hmod
    exact ⟨_, _, hdiv, hmod, division l hr⟩
  invalidShift op hop := faults_invalidShift_iff (by simpa using hop)
  leftShift hnonneg hle := by
    have hshift : Responds host ⟨.leftShift, []⟩ _ _ := responds_integers (by decide) l r
    simp only [integerOperation, shiftAmount_of_le hnonneg hle] at hshift
    exact reduces_of_computes hshift (isReduced_shiftLeft l hnonneg hle)
  rightShift hnonneg hle := by
    have hshift : Responds host ⟨.rightShift, []⟩ _ _ := responds_integers (by decide) l r
    simp only [integerOperation, shiftAmount_of_le hnonneg hle] at hshift
    exact ⟨_, hshift, toInt_shiftRight l hnonneg hle⟩
  minus :=
    ⟨_, responds_unary (Or.inr (Or.inl rfl)) _,
      isReduced_iff (isReduced_of_bmod (Int64.toInt_neg l))⟩
  bitwiseNot := ⟨_, responds_unary (Or.inr (Or.inr rfl)) _, toInt_not l⟩
  bitwise op hop := by
    simp only [List.mem_cons, List.not_mem_nil, or_false] at hop
    rcases hop with rfl | rfl | rfl <;> exact ⟨_, responds_integers (by decide) l r⟩
  others op := responds_two_operands
  binary heap heap' op n := integral_of_binary
  processor op := Processor.operation?_eq op l r

/-- The one quotient that is not exact. -/
theorem arithmetic_exact_least :
    Computes Host.sample .div Int64.minValue (-1) Int64.minValue
      ∧ Computes Host.sample .mod Int64.minValue (-1) 0 := by
  obtain ⟨q, d, hdiv, hmod, hdivision⟩ :=
    (arithmetic_exact Host.sample Int64.minValue (-1)).division (by decide)
  obtain ⟨rfl, rfl⟩ := hdivision.overflow rfl rfl
  exact ⟨hdiv, hmod⟩

end Exec

end ClosureMachine
