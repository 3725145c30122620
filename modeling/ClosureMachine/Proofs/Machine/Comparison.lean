import ClosureMachine.Host.Sample
import ClosureMachine.Proofs.Machine.Exchange
import ClosureMachine.Proofs.Text.Ordering

/-!
# Order and equality agree

Integers are ordered as words and strings by their bytes, while equality is decided without any
order. `Value.isBelow` says which of two values is the lower one in terms of what they stand for:
numbers, or sequences of scalar values. The operations of order come down to it
(`binary_greaterThan`, `binary_greaterThanEqual`), and so does equality
(`Value.isBelow_trichotomy`).

**`Exec.order_total`** says what this comes to for the instructions.
-/

namespace ClosureMachine

namespace Value

/-- Both values are integers, or both are strings. -/
def Comparable (x y : Value) : Prop :=
  x.kind = y.kind ∧ (x.kind = .integer ∨ x.kind = .string)

/-- Whether the first of two values is the lower one. -/
def isBelow : Value → Value → Bool
  | integer l, integer r => l.toInt < r.toInt
  | string a, string b => Text.scalars a < Text.scalars b
  | _, _ => false

variable {x y z : Value}

theorem comparable_cases (h : x.Comparable y) :
    (∃ l r, x = .integer l ∧ y = .integer r) ∨ ∃ a b, x = .string a ∧ y = .string b := by
  obtain ⟨hkind, hx⟩ := h
  cases x <;> cases y <;> simp_all [kind]

theorem Comparable.symm (h : x.Comparable y) : y.Comparable x :=
  ⟨h.1.symm, h.1 ▸ h.2⟩

theorem Comparable.trans (hxy : x.Comparable y) (hyz : y.Comparable z) : x.Comparable z :=
  ⟨hxy.1.trans hyz.1, hxy.2⟩

/-! ## The order of values -/

theorem isBelow_trichotomy (h : x.Comparable y) :
    [y.isBelow x, x.isBelow y, x.equals y].count true = 1 := by
  rcases comparable_cases h with ⟨l, r, rfl, rfl⟩ | ⟨a, b, rfl, rfl⟩
  · rcases Int.lt_trichotomy l.toInt r.toInt with hlt | heq | hgt
    · have hne : l ≠ r := fun heq => Int.ne_of_lt hlt (congrArg Int64.toInt heq)
      simp [isBelow, equals, hlt, Int.lt_asymm hlt, hne]
    · simp [isBelow, equals, Int64.toInt_inj.mp heq]
    · have hne : l ≠ r := fun heq => Int.ne_of_gt hgt (congrArg Int64.toInt heq)
      simp [isBelow, equals, hgt, Int.lt_asymm hgt, hne]
  · rcases lt_trichotomy (Text.scalars a) (Text.scalars b) with hlt | heq | hgt
    · have hne : a ≠ b := fun heq => hlt.ne (congrArg Text.scalars heq)
      simp [isBelow, equals, hlt, hlt.not_gt, hne]
    · simp [isBelow, equals, Text.scalars_inj heq]
    · have hne : a ≠ b := fun heq => hgt.ne' (congrArg Text.scalars heq)
      simp [isBelow, equals, hgt, hgt.not_gt, hne]

theorem isBelow_trans (hxy : x.isBelow y = true) (hyz : y.isBelow z = true) :
    x.isBelow z = true := by
  cases x <;> cases y <;> simp only [isBelow, Bool.false_eq_true] at hxy <;>
    cases z <;> simp only [isBelow, Bool.false_eq_true, decide_eq_true_eq] at hxy hyz ⊢
  · exact Int.lt_trans hxy hyz
  · exact lt_trans hxy hyz

end Value

/-! ## The operations of order -/

section

variable {x y : Value} (heap : Heap)

theorem binary_greaterThan (h : x.Comparable y) :
    heap.binary .greaterThan x y = .ok (.boolean (y.isBelow x), heap) := by
  rcases Value.comparable_cases h with ⟨l, r, rfl, rfl⟩ | ⟨a, b, rfl, rfl⟩
  · have hlt : decide (r < l) = decide (r.toInt < l.toInt) :=
      decide_eq_decide.mpr Int64.lt_iff_toInt_lt
    show Except.ok (Value.boolean (decide (r < l)), heap) = _
    rw [hlt]
    rfl
  · show Except.ok (Value.boolean (Text.precedes b a), heap) = _
    rw [Text.precedes_eq_decide]
    rfl

/-- One value is at least another if it is not below it. -/
theorem binary_greaterThanEqual (h : x.Comparable y) :
    heap.binary .greaterThanEqual x y = .ok (.boolean !(x.isBelow y), heap) := by
  rcases Value.comparable_cases h with ⟨l, r, rfl, rfl⟩ | ⟨a, b, rfl, rfl⟩
  · have hle : decide (r ≤ l) = !decide (l.toInt < r.toInt) := by
      rw [← decide_not]
      exact decide_eq_decide.mpr (Int64.le_iff_toInt_le.trans Int.not_lt.symm)
    show Except.ok (Value.boolean (decide (r ≤ l)), heap) = _
    rw [hle]
    rfl
  · show Except.ok (Value.boolean !(Text.precedes a b), heap) = _
    rw [Text.precedes_eq_decide]
    rfl

theorem binary_of_not_comparable (h : ¬x.Comparable y) {op : Opcode}
    (hop : op = .greaterThan ∨ op = .greaterThanEqual) :
    heap.binary op x y = .error (.typeMismatch x.kind y.kind) := by
  have hadd : op ≠ .add := by rcases hop with rfl | rfl <;> decide
  unfold Heap.binary
  split
  · exact absurd ⟨rfl, Or.inl rfl⟩ h
  · exact absurd ⟨rfl, Or.inr rfl⟩ h
  · rw [if_neg hadd]
    rfl
  · rfl

end

/-! ## The instructions -/

namespace Exec

variable {host : Host} {x y : Value}

/-- The instruction answers with a truth value, wherever it is executed on these operands. -/
def Decides (host : Host) (op : Opcode) (x y : Value) (b : Bool) : Prop :=
  Responds host ⟨op, []⟩ [x, y] (.ok (.boolean b))

theorem decides_greaterThan_iff (h : x.Comparable y) {b : Bool} :
    Decides host .greaterThan x y b ↔ b = y.isBelow x := by
  have hdecides : Decides host .greaterThan x y (y.isBelow x) :=
    responds_binary (by decide) fun heap => binary_greaterThan heap h
  constructor
  · intro hb
    have hsame := Responds.unique hb hdecides
    injections
  · rintro rfl
    exact hdecides

/-- **The instructions of order and equality.** Integers among themselves, and strings among
themselves, are in a total order whose equality is that of programs: of two of them one is greater
or they are equal, but never two of these at once. Strings are ordered by their bytes, which is to
say by their scalar values. All other operands are refused by their kinds, the lower operand
first. -/
theorem order_total (host : Host) (x y z : Value) :
    (x.Comparable y →
      (∃ greater less equal, Decides host .greaterThan x y greater
        ∧ Decides host .greaterThan y x less ∧ Decides host .equal x y equal
        ∧ [greater, less, equal].count true = 1)
      ∧ ∃ less, Decides host .greaterThan y x less ∧ Decides host .greaterThanEqual x y !less)
    ∧ (x.Comparable y → y.Comparable z → Decides host .greaterThan x y true →
      Decides host .greaterThan y z true → Decides host .greaterThan x z true)
    ∧ (∀ a b, x = .string a → y = .string b →
      (Decides host .greaterThan x y true ↔ b.toUTF8.data.toList < a.toUTF8.data.toList)
      ∧ (Decides host .greaterThan x y true ↔ Text.scalars b < Text.scalars a))
    ∧ (¬x.Comparable y → ∀ op ∈ [Opcode.greaterThan, .greaterThanEqual],
      Responds host ⟨op, []⟩ [x, y] (.error (.typeMismatch x.kind y.kind))) := by
  refine ⟨fun hxy => ⟨?_, ?_⟩, fun hxy hyz hgreater hgreater' => ?_, ?_, fun hxy op hop => ?_⟩
  · exact ⟨y.isBelow x, x.isBelow y, x.equals y, (decides_greaterThan_iff hxy).mpr rfl,
      (decides_greaterThan_iff hxy.symm).mpr rfl, responds_equal x y, Value.isBelow_trichotomy hxy⟩
  · exact ⟨x.isBelow y, (decides_greaterThan_iff hxy.symm).mpr rfl,
      responds_binary (by decide) fun heap => binary_greaterThanEqual heap hxy⟩
  · rw [decides_greaterThan_iff hxy] at hgreater
    rw [decides_greaterThan_iff hyz] at hgreater'
    rw [decides_greaterThan_iff (hxy.trans hyz)]
    exact (Value.isBelow_trans hgreater'.symm hgreater.symm).symm
  · rintro a b rfl rfl
    have hab : (Value.string a).Comparable (.string b) := ⟨rfl, Or.inr rfl⟩
    have hiff : Decides host .greaterThan (.string a) (.string b) true
        ↔ Text.scalars b < Text.scalars a := by
      rw [decides_greaterThan_iff hab, eq_comm]
      exact decide_eq_true_iff
    refine ⟨?_, hiff⟩
    rw [hiff, ← Text.precedes_iff, ← Text.utf8_eq_toUTF8, ← Text.utf8_eq_toUTF8]
    exact decide_eq_true_iff
  · simp only [List.mem_cons, List.not_mem_nil, or_false] at hop
    have hbinary : op ∈ Opcode.binaries := by rcases hop with rfl | rfl <;> decide
    exact responds_binary hbinary fun heap => binary_of_not_comparable heap hxy hop

/-- A text comes behind its beginnings, and a longer encoding behind a shorter one. -/
theorem order_total_lengths :
    let x : Value := .string "z\uffff"
    let y : Value := .string "z\u00e9"
    let z : Value := .string "z"
    x.Comparable y ∧ y.Comparable z ∧ Decides Host.sample .greaterThan x y true
      ∧ Decides Host.sample .greaterThan y z true ∧ Decides Host.sample .greaterThan x z true := by
  intro x y z
  have hxy : Decides Host.sample .greaterThan x y true :=
    ((order_total Host.sample x y z).2.2.1 _ _ rfl rfl).2.mpr (by decide +kernel)
  have hyz : Decides Host.sample .greaterThan y z true :=
    ((order_total Host.sample y z x).2.2.1 _ _ rfl rfl).2.mpr (by decide +kernel)
  have hx : x.Comparable y := ⟨rfl, Or.inr rfl⟩
  have hy : y.Comparable z := ⟨rfl, Or.inr rfl⟩
  exact ⟨hx, hy, hxy, hyz, (order_total Host.sample x y z).2.1 hx hy hxy hyz⟩

end Exec

end ClosureMachine
