import ClosureMachine.Proofs.Assembly.Grammar

/-!
# Joining texts

What becomes of two texts when one is put behind the other, with a line feed between them.

* **`Line.read?_of_return`**: no line of assembly ends with a carriage return, so neither does a
  text that assembles. Only such a text has another last line when a line feed follows it.
* **`Draft.addItem_moved`**: what an item does to a draft depends neither on what is in front of the
  draft nor on the numbers of its lines.
* **`Draft.foldlM_behind`**: behind a program that is complete, the same lines draft the same, only
  that all of it comes after that program and on later lines.
* **`assemble_join`** is about whole texts.
-/

namespace ClosureMachine

namespace Assembly

/-! ## Carriage returns -/

/-- **No line of assembly ends with a carriage return.** Only a string can hold one, and a string ends with
a quote. -/
theorem Line.read?_of_return {line : List Char} (hlast : line.getLast? = some '\r') :
    read? line = none := by
  refine Option.eq_none_iff_forall_ne_some.mpr fun said hread => ?_
  have hmem := List.mem_of_getLast? hlast
  cases read?_eq_some_iff.mp hread with
  | blank hfront hcomment =>
    rcases List.mem_append.mp hmem with hmem | hmem
    · exact hfront.not_mem rfl hmem
    · exact (comment_iff.mp hcomment).2 hmem
  | @item item front text back comment hfront h hback hcomment =>
    have hrest : '\r' ∉ back ++ comment := by
      rw [List.mem_append, not_or]
      exact ⟨hback.not_mem rfl, (comment_iff.mp hcomment).2⟩
    cases h with
    | words hwords hspaced =>
      rcases List.mem_append.mp hmem with hmem | hmem
      · exact hfront.not_mem rfl hmem
      · rcases List.mem_append.mp hmem with hmem | hmem
        · exact hwords.not_mem hspaced (by decide) rfl hmem
        · exact hrest hmem
    | @string gap written _ =>
      -- whatever the string holds, the last character is its closing quote or stands behind it
      have hsplit : front ++ (".str".toList ++ (gap ++ '\"' :: (written ++ ['\"'])) ++ (back ++ comment))
          = front ++ (".str".toList ++ (gap ++ '\"' :: written)) ++ '\"' :: (back ++ comment) := by
        simp only [List.append_assoc, List.cons_append, List.nil_append]
      rw [hsplit, List.getLast?_append_of_ne_nil _ (List.cons_ne_nil _ _)] at hlast
      rcases List.mem_cons.mp (List.mem_of_getLast? hlast) with hc | hmem
      · cases hc
      · exact hrest hmem

theorem Draft.addLine_of_return (draft : Draft) {line : List Char} (number : Nat)
    (hlast : line.getLast? = some '\r') :
    ∃ cause, draft.addLine (line, number) = .error ⟨number, cause⟩ := by
  unfold addLine addText
  rw [Line.read?_of_return hlast]
  exact ⟨_, rfl⟩

/-! ## Lines behind a program -/

/-- The error, that many lines further down. -/
def later (count : Nat) (e : AssemblyError) : AssemblyError :=
  { e with line := e.line + count }

namespace Draft

/-- The draft behind a program, with its lines numbered anew. -/
def moved (front : Program) (place : Nat → Nat) (draft : Draft) : Draft where
  main := front.main ++ draft.main
  pool := front.constants ++ draft.pool
  block? := draft.block?.map fun block => { block with line := place block.line }

/-- The draft behind a program that takes up that many lines. -/
def behind (front : Program) (count : Nat) (draft : Draft) : Draft :=
  draft.moved front (· + count)

variable (front : Program) (place : Nat → Nat) (count : Nat) (draft : Draft)

theorem emit_moved (bytes : List UInt8) :
    (draft.moved front place).emit bytes = (draft.emit bytes).moved front place := by
  obtain ⟨main, pool, block?⟩ := draft
  cases block? with
  | none =>
    have happend : front.main ++ main ++ bytes = front.main ++ (main ++ bytes) :=
      Array.ext' (by simp)
    simp [emit, moved, happend]
  | some block => rfl

theorem declare_moved (constant : Constant) :
    (draft.moved front place).declare constant = (draft.declare constant).moved front place := by
  obtain ⟨main, pool, block?⟩ := draft
  cases block? with
  | none => simp [declare, moved]
  | some block => rfl

theorem openBlock_moved (line : Nat) (params locals : List Char) :
    (draft.moved front place).openBlock (place line) params locals
      = (draft.openBlock line params locals).map (moved front place) := by
  obtain ⟨main, pool, block?⟩ := draft
  cases block? with
  | some block => rfl
  | none =>
    simp only [openBlock, moved, Option.map_none]
    cases Assembly.count params with
    | error cause => rfl
    | ok params =>
      cases Assembly.count locals with
      | error cause => rfl
      | ok locals => rfl

theorem closeBlock_moved :
    (draft.moved front place).closeBlock = draft.closeBlock.map (moved front place) := by
  obtain ⟨main, pool, block?⟩ := draft
  cases block? with
  | none => rfl
  | some block => simp [closeBlock, moved, Block.routine, Except.map]

/-- An item does the same wherever it stands. -/
theorem addItem_moved (line : Nat) (item : Item) :
    (draft.moved front place).addItem (place line) item
      = (draft.addItem line item).map (moved front place) := by
  cases item with
  | instruction name operands =>
    simp only [addItem]
    cases encode name operands with
    | error cause => rfl
    | ok bytes => exact congrArg Except.ok (draft.emit_moved front place bytes)
  | integer n => exact congrArg Except.ok (draft.declare_moved front place _)
  | string text => exact congrArg Except.ok (draft.declare_moved front place _)
  | function params locals => apply openBlock_moved
  | endFunction => apply closeBlock_moved

theorem addItem_behind (line : Nat) (item : Item) :
    (draft.behind front count).addItem (line + count) item
      = (draft.addItem line item).map (behind front count) :=
  draft.addItem_moved front (· + count) line item

/-- A line does the same behind a program. -/
theorem addLine_behind (line : List Char) (number : Nat) :
    (draft.behind front count).addLine (line, number + count)
      = ((draft.addLine (line, number)).map (behind front count)).mapError (later count) := by
  unfold addLine addText
  dsimp only
  cases Line.read? line with
  | none => rfl
  | some content =>
    cases content with
    | blank => rfl
    | item item =>
      dsimp only
      rw [addItem_behind]
      cases draft.addItem number item with
      | error cause => rfl
      | ok next => rfl

/-- **So do many lines.** -/
theorem foldlM_behind (lines : List (List Char)) (number : Nat) :
    (lines.zipIdx (number + count)).foldlM addLine (draft.behind front count)
      = (((lines.zipIdx number).foldlM addLine draft).map (behind front count)).mapError
        (later count) := by
  induction lines generalizing draft number with
  | nil => rfl
  | cons line lines ih =>
    simp only [List.zipIdx_cons, List.foldlM_cons]
    rw [addLine_behind, Nat.add_right_comm]
    cases draft.addLine (line, number) with
    | error e => rfl
    | ok next => exact ih next (number + 1)

theorem finish_behind :
    (draft.behind front count).finish
      = (draft.finish.map fun back =>
          (⟨front.main ++ back.main, front.constants ++ back.constants⟩ : Program)).mapError
        (later count) := by
  obtain ⟨main, pool, block?⟩ := draft
  cases block? with
  | none => rfl
  | some block => rfl

/-- What is complete is as if nothing had been drafted behind it. -/
theorem eq_behind_of_finish {draft : Draft} {program : Program} (count : Nat)
    (h : draft.finish = .ok program) : draft = behind program count {} := by
  obtain ⟨main, pool, block?⟩ := draft
  cases block? with
  | none =>
    cases h
    simp [behind, moved]
  | some block => cases h

/-! ## Whole texts -/

/-- A line feed after a text adds nothing to it. -/
theorem foldlM_splitOn {text : List Char} (h : text.getLast? ≠ some '\r') :
    (((text.splitOn '\n').map Text.dropReturn).zipIdx 1).foldlM addLine {}
      = ofLines (Text.lines text) := by
  rcases Text.lines_closed h with hlines | hlines
  · rw [hlines]
    rfl
  · rw [hlines, List.zipIdx_append, List.foldlM_append]
    -- the line that is one more is empty
    show (ofLines (Text.lines text) >>= pure) = _
    rw [bind_pure]

theorem ofLines_of_return {text : List Char} (h : text.getLast? = some '\r') :
    ∃ e, ofLines (Text.lines text) = .error e := by
  obtain ⟨front, line, hlines, hlast⟩ := Text.lines_of_return h
  unfold ofLines
  rw [hlines, List.zipIdx_append, List.foldlM_append]
  cases (front.zipIdx 1).foldlM addLine {} with
  | error e => exact ⟨e, rfl⟩
  | ok draft =>
    obtain ⟨cause, hline⟩ := draft.addLine_of_return (1 + front.length) hlast
    use ⟨1 + front.length, cause⟩
    show (draft.addLine _ >>= pure) = _
    rw [bind_pure, hline]

/-- The lines of the second text are numbered on from those of the first, the line feed between them
included. -/
theorem assemble_joined (t₁ t₂ : String) :
    assemble (t₁ ++ "\n" ++ t₂)
      = (((t₁.toList.splitOn '\n').map Text.dropReturn).zipIdx 1).foldlM addLine {} >>= fun draft =>
        ((Text.lines t₂.toList).zipIdx (1 + (t₁.toList.count '\n' + 1))).foldlM addLine draft
          >>= finish := by
  have htext : (t₁ ++ "\n" ++ t₂).toList = t₁.toList ++ '\n' :: t₂.toList := by simp
  unfold assemble ofLines
  rw [htext, Text.lines_append_cons, List.zipIdx_append, List.foldlM_append, List.length_map,
    Text.length_splitOn, bind_assoc]

/-- **Behind a text that assembles**, another one assembles as it would alone, but for the numbers of
its lines. -/
theorem assemble_behind {t₁ : String} {p₁ : Program} (h : assemble t₁ = .ok p₁) (t₂ : String) :
    assemble (t₁ ++ "\n" ++ t₂)
      = ((assemble t₂).map fun p₂ =>
          (⟨p₁.main ++ p₂.main, p₁.constants ++ p₂.constants⟩ : Program)).mapError
        (later (t₁.toList.count '\n' + 1)) := by
  unfold assemble at h
  have hreturn : t₁.toList.getLast? ≠ some '\r' := by
    intro hlast
    obtain ⟨e, he⟩ := ofLines_of_return hlast
    rw [he] at h
    cases h
  rw [assemble_joined, foldlM_splitOn hreturn]
  cases hdraft : ofLines (Text.lines t₁.toList) with
  | error e =>
    rw [hdraft] at h
    cases h
  | ok draft =>
    rw [hdraft] at h
    rw [eq_behind_of_finish (t₁.toList.count '\n' + 1) h]
    show ((Text.lines t₂.toList).zipIdx (1 + (t₁.toList.count '\n' + 1))).foldlM addLine
      (behind p₁ (t₁.toList.count '\n' + 1) {}) >>= finish = _
    rw [foldlM_behind]
    unfold assemble ofLines
    cases ((Text.lines t₂.toList).zipIdx 1).foldlM addLine {} with
    | error e => rfl
    | ok back => exact back.finish_behind p₁ _

/-- **In front of any text**, a wrong line is as wrong as it would be alone. -/
theorem assemble_front {t₁ : String} {e : AssemblyError} (hreturn : t₁.toList.getLast? ≠ some '\r')
    (h : assemble t₁ = .error e) (hcause : e.cause ≠ .unterminatedFunction) (t₂ : String) :
    assemble (t₁ ++ "\n" ++ t₂) = .error e := by
  rw [assemble_joined, foldlM_splitOn hreturn]
  unfold assemble at h
  cases hdraft : ofLines (Text.lines t₁.toList) with
  | error e' =>
    rw [hdraft] at h
    cases h
    rfl
  | ok draft =>
    rw [hdraft] at h
    change draft.finish = .error e at h
    unfold finish at h
    split at h
    · cases h
      exact absurd rfl hcause
    · cases h

end Draft

end Assembly

open Assembly in
/-- **Texts are assembled piece by piece.** Two texts with a line feed between them assemble to the
two programs put together, main stream behind main stream and pool behind pool. What is wrong with
the second text is wrong with both, on a line that is further down by the lines of the first. What
is wrong with the first text is wrong with both, unless it is a block that the second one may close;
a carriage return at its end would become part of the line feed. -/
theorem assemble_join (t₁ t₂ : String) :
    (∀ p₁ p₂, assemble t₁ = .ok p₁ → assemble t₂ = .ok p₂ →
      assemble (t₁ ++ "\n" ++ t₂)
        = .ok ⟨p₁.main ++ p₂.main, p₁.constants ++ p₂.constants⟩)
    ∧ (∀ p₁ e, assemble t₁ = .ok p₁ → assemble t₂ = .error e →
      assemble (t₁ ++ "\n" ++ t₂)
        = .error ⟨e.line + 1 + t₁.toList.count '\n', e.cause⟩)
    ∧ ∀ e, t₁.toList.getLast? ≠ some '\r' → assemble t₁ = .error e →
      e.cause ≠ .unterminatedFunction → assemble (t₁ ++ "\n" ++ t₂) = .error e := by
  refine ⟨fun p₁ p₂ h₁ h₂ => ?_, fun p₁ e h₁ h₂ => ?_, fun e hreturn h₁ hcause => ?_⟩
  · rw [Draft.assemble_behind h₁, h₂]
    rfl
  · rw [Draft.assemble_behind h₁, h₂]
    simp only [Except.map, Except.mapError, later]
    rw [Nat.add_assoc, Nat.add_comm 1]
  · exact Draft.assemble_front hreturn h₁ hcause t₂

theorem assemble_join_blocks :
    (assemble ".function 1 2\n0 Add\n.end\nPop" = .ok
        ⟨#[Opcode.pop.toByte], #[.function ⟨#[Opcode.add.toByte], 2, 1⟩]⟩
      ∧ assemble "LoadNull\n.int 5\n" = .ok ⟨#[Opcode.loadNull.toByte], #[.integer 5]⟩
      ∧ assemble (".function 1 2\n0 Add\n.end\nPop" ++ "\n" ++ "LoadNull\n.int 5\n") = .ok
        ⟨#[Opcode.pop.toByte] ++ #[Opcode.loadNull.toByte],
          #[.function ⟨#[Opcode.add.toByte], 2, 1⟩] ++ #[.integer 5]⟩)
    ∧ (assemble "Pop\n.end" = .error ⟨2, .unmatchedEnd⟩
      ∧ assemble ("LoadNull\n.int 5\n" ++ "\n" ++ "Pop\n.end") = .error ⟨2 + 1 + 2, .unmatchedEnd⟩)
    ∧ assemble ("Pop\n.end" ++ "\n" ++ ".str") = .error ⟨2, .unmatchedEnd⟩ := by
  have hblock : assemble ".function 1 2\n0 Add\n.end\nPop" = .ok
      ⟨#[Opcode.pop.toByte], #[.function ⟨#[Opcode.add.toByte], 2, 1⟩]⟩ := by decide +kernel
  have hint : assemble "LoadNull\n.int 5\n" = .ok ⟨#[Opcode.loadNull.toByte], #[.integer 5]⟩ := by
    decide +kernel
  have hend : assemble "Pop\n.end" = .error ⟨2, .unmatchedEnd⟩ := by decide +kernel
  refine ⟨⟨hblock, hint, (assemble_join _ _).1 _ _ hblock hint⟩,
    ⟨hend, (assemble_join "LoadNull\n.int 5\n" _).2.1 _ _ hint hend⟩,
    (assemble_join "Pop\n.end" _).2.2 _ ?_ hend ?_⟩
  · decide
  · decide

end ClosureMachine
