import ClosureMachine.Machine.Display
import ClosureMachine.Proofs.Text.Terminal

/-!
# What a picture shows

* **`Tabulates`** says which table it is that a picture has of a list of slots, **`View.Shows`** what a
  picture is made of.
* **`View.picture_eq_ok_iff`**: a picture that can be drawn shows this, and nothing else is shown.
* **`View.exists_picture`**: a terminal can draw it if there is no escape in what it shows.
-/

namespace ClosureMachine

theorem bind_eq_ok_iff {ε α β : Type} {x : Except ε α} {f : α → Except ε β} {b : β} :
    x >>= f = .ok b ↔ ∃ a, x = .ok a ∧ f a = .ok b := by
  cases x <;> simp [Bind.bind, Except.bind]

/-! ## Tables of slots -/

/-- A table of slots: a row for each, with its address on the right of the first column. The address of
the last one has an arrow. -/
structure Tabulates (name : String) (slots : List String) (grid : Grid) : Prop where
  columns : grid.columns = [⟨"Address".toList, .right⟩, ⟨"Contents".toList, .left⟩]
  length : grid.rows.length = slots.length
  row : ∀ i text, slots[i]? = some text → i + 1 < slots.length →
    grid.rows[i]? = some [s!"{name}[{i}] =".toList, text.toList]
  last : ∀ i text, slots[i]? = some text → i + 1 = slots.length →
    grid.rows[i]? = some [s!"* --> {name}[{i}] =".toList, text.toList]

theorem tabulates_slotGrid (name : String) (slots : List String) :
    Tabulates name slots (View.slotGrid name slots) where
  columns := rfl
  length := by simp [View.slotGrid]
  row i text hslot hi := by
    simp [View.slotGrid, hslot, Nat.ne_of_lt hi]
  last i text hslot hi := by
    simp [View.slotGrid, hslot, hi, toString, String.append_assoc]

/-- There is one such table. -/
theorem Tabulates.eq_slotGrid {name : String} {slots : List String} {grid : Grid}
    (h : Tabulates name slots grid) : grid = View.slotGrid name slots := by
  have h' := tabulates_slotGrid name slots
  have hrows : grid.rows = (View.slotGrid name slots).rows := by
    refine List.ext_getElem? fun i => ?_
    cases hslot : slots[i]? with
    | none =>
      have hi := List.getElem?_eq_none_iff.mp hslot
      rw [List.getElem?_eq_none (h.length ▸ hi), List.getElem?_eq_none (h'.length ▸ hi)]
    | some text =>
      have hi : i < slots.length := (List.getElem?_eq_some_iff.mp hslot).1
      rcases Nat.lt_or_eq_of_le hi with hi | hi
      · rw [h.row i text hslot hi, h'.row i text hslot hi]
      · rw [h.last i text hslot hi, h'.last i text hslot hi]
  cases grid
  obtain rfl := h.columns
  obtain rfl := hrows
  rfl

/-! ## Pictures -/

namespace View

/-- A picture is a line about the value that was discarded last, and the table that holds the tables of
the stack and of the frames. -/
inductive Shows (draw : Typesetter) (view : View) : String → Prop
  | mk {stack frames : Grid} {stackText framesText both : List Char}
      (hstack : Tabulates "S" view.stack stack) (hframes : Tabulates "F" view.frames frames)
      (hdrawStack : draw stack = .ok stackText) (hdrawFrames : draw frames = .ok framesText)
      (hdraw : draw ⟨[⟨"Stack".toList, .left⟩, ⟨"Frames".toList, .left⟩],
        [[stackText, framesText]]⟩ = .ok both) :
      Shows draw view ("Last popped: " ++ view.lastPopped ++ "\n" ++ String.ofList both)

/-- **A picture** is there if its three tables can be drawn, and shows them. -/
theorem picture_eq_ok_iff {draw : Typesetter} {view : View} {text : String} :
    view.picture draw = .ok text ↔ view.Shows draw text := by
  unfold picture tables
  simp only [bind_eq_ok_iff]
  constructor
  · rintro ⟨both, ⟨stack, hstack, frames, hframes, hboth⟩, ⟨⟩⟩
    exact .mk (tabulates_slotGrid ..) (tabulates_slotGrid ..) hstack hframes hboth
  · rintro ⟨hstack, hframes, hdrawStack, hdrawFrames, hdraw⟩
    obtain rfl := hstack.eq_slotGrid
    obtain rfl := hframes.eq_slotGrid
    exact ⟨_, ⟨_, hdrawStack, _, hdrawFrames, hdraw⟩, rfl⟩

theorem not_mem_toDigits (i : Nat) : '\x1b' ∉ Nat.toDigits 10 i := by
  intro hmem
  have hdigit : Char.isDigit '\x1b' = true :=
    Nat.isDigit_of_mem_toDigits (by decide) (by decide) hmem
  cases hdigit

theorem unstyled_slotGrid {name : String} {slots : List String} (hname : '\x1b' ∉ name.toList)
    (hslots : ∀ text ∈ slots, '\x1b' ∉ text.toList) : (slotGrid name slots).Unstyled where
  title := by simp [slotGrid]
  cell := by
    intro row hrow cell hcell
    obtain ⟨⟨text, i⟩, hmem, rfl⟩ := List.mem_map.mp hrow
    have haddress : '\x1b' ∉ s!"{name}[{i}] =".toList := by
      simp [toString, hname, not_mem_toDigits]
    have htext := hslots text (List.fst_mem_of_mem_zipIdx hmem)
    simp only [List.mem_cons, List.not_mem_nil, or_false] at hcell
    rcases hcell with rfl | rfl
    · split
      · simpa using haddress
      · exact haddress
    · exact htext

/-- **A terminal draws the picture** of a machine if there is no escape in the texts that it shows. -/
theorem exists_picture {view : View} (hstack : ∀ text ∈ view.stack, '\x1b' ∉ text.toList)
    (hframes : ∀ text ∈ view.frames, '\x1b' ∉ text.toList) :
    ∃ text, view.picture Grid.draw = .ok text := by
  obtain ⟨stack, hdrawStack, hstackClear⟩ :=
    Grid.exists_draw (unstyled_slotGrid (show '\x1b' ∉ "S".toList by decide) hstack)
  obtain ⟨frames, hdrawFrames, hframesClear⟩ :=
    Grid.exists_draw (unstyled_slotGrid (show '\x1b' ∉ "F".toList by decide) hframes)
  have hboth : Grid.Unstyled ⟨[⟨"Stack".toList, .left⟩, ⟨"Frames".toList, .left⟩],
      [[stack, frames]]⟩ := {
    title := by simp
    cell := by simp [hstackClear, hframesClear] }
  obtain ⟨both, hdraw, -⟩ := Grid.exists_draw hboth
  exact ⟨_, picture_eq_ok_iff.mpr (.mk (tabulates_slotGrid ..) (tabulates_slotGrid ..) hdrawStack
    hdrawFrames hdraw)⟩

end View

end ClosureMachine
