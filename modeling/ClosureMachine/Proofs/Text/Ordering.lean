import ClosureMachine.Text.Utf8
import Mathlib.Data.List.Lex

/-!
# The order of texts

Texts are compared by the bytes of their encoding. UTF-8 is made so that this is the order of their
scalar values: of two characters the lower one has the lower byte at the first place where their
encodings differ, and there is such a place before either of them ends (`encodeChar_append_lt`).
What stands behind it does not count, so the same holds of texts (`precedes_iff`).
-/

namespace ClosureMachine.Text

/-- The Unicode scalar values of a text. -/
def scalars (text : String) : List Nat :=
  text.toList.map Char.toNat

theorem scalars_inj {a b : String} (h : scalars a = scalars b) : a = b :=
  String.toList_inj.mp (List.map_injective_iff.mpr (fun _ _ => Char.toNat_inj.mp) h)

theorem utf8_eq_toUTF8 (text : String) : utf8 text = text.toUTF8.data.toList := by
  rw [String.toUTF8_eq_toByteArray, ← String.utf8Encode_toList, List.utf8Encode,
    List.data_toByteArray]
  rfl

/-! ## One character -/

theorem toNat_lt (c : Char) : c.toNat < 0x110000 := by
  have hvalid := c.valid
  unfold UInt32.isValidChar Nat.isValidChar at hvalid
  rw [Char.toNat_val] at hvalid
  omega

/-- Where two numbers first differ that are written in groups of six bits. -/
theorem sextets_lt {x y : Nat} (h : x < y) :
    x / 262144 < y / 262144 ∨ x / 262144 = y / 262144
      ∧ (x / 4096 % 64 < y / 4096 % 64 ∨ x / 4096 % 64 = y / 4096 % 64
        ∧ (x / 64 % 64 < y / 64 % 64 ∨ x / 64 % 64 = y / 64 % 64 ∧ x % 64 < y % 64)) := by
  omega

/-- A lower character comes first, whatever follows. -/
theorem encodeChar_append_lt {c d : Char} (h : c.toNat < d.toNat) (front back : List UInt8) :
    String.utf8EncodeChar c ++ front < String.utf8EncodeChar d ++ back := by
  have hsextets := sextets_lt h
  have hd := toNat_lt d
  unfold String.utf8EncodeChar
  simp only [Char.toNat_val]
  generalize c.toNat = x at *
  generalize d.toNat = y at *
  -- one case for each pair of lengths; a longer encoding has the higher first byte
  split_ifs <;>
    simp (disch := omega) only [List.cons_append, List.nil_append, List.cons_lt_cons_iff,
      UInt8.lt_iff_toNat_lt, ← UInt8.toNat_inj, UInt8.toNat_ofNat', Nat.mod_eq_of_lt] <;>
    omega

/-! ## Texts -/

theorem flatMap_encodeChar_lt {a b : List Char} (h : a.map Char.toNat < b.map Char.toNat) :
    a.flatMap String.utf8EncodeChar < b.flatMap String.utf8EncodeChar := by
  induction a generalizing b with
  | nil =>
    cases b with
    | nil => exact absurd h (List.lt_irrefl _)
    | cons d ds =>
      obtain ⟨byte, bytes, hbytes⟩ :=
        List.exists_cons_of_ne_nil (String.utf8EncodeChar_ne_nil (c := d))
      rw [List.flatMap_nil, List.flatMap_cons, hbytes]
      exact List.nil_lt_cons ..
  | cons c cs ih =>
    cases b with
    | nil => exact absurd h (List.not_lt_nil _)
    | cons d ds =>
      rw [List.flatMap_cons, List.flatMap_cons]
      rcases List.cons_lt_cons_iff.mp h with hlt | ⟨heq, hrest⟩
      · exact encodeChar_append_lt hlt _ _
      · rw [Char.toNat_inj.mp heq]
        exact List.append_left_lt (ih hrest)

theorem utf8_lt {a b : String} (h : scalars a < scalars b) : utf8 a < utf8 b :=
  flatMap_encodeChar_lt h

/-- The order of the bytes of two texts is that of their scalar values. -/
theorem precedes_iff (a b : String) : precedes a b = true ↔ scalars a < scalars b := by
  unfold precedes
  rw [decide_eq_true_iff]
  refine ⟨fun h => ?_, utf8_lt⟩
  rcases lt_trichotomy (scalars a) (scalars b) with hlt | heq | hgt
  · exact hlt
  · rw [scalars_inj heq] at h
    exact absurd h (List.lt_irrefl _)
  · exact absurd h (List.lt_asymm (utf8_lt hgt))

theorem precedes_eq_decide (a b : String) : precedes a b = decide (scalars a < scalars b) :=
  Bool.eq_iff_iff.mpr ((precedes_iff a b).trans decide_eq_true_iff.symm)

end ClosureMachine.Text
