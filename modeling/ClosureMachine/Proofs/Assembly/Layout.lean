import ClosureMachine.Proofs.Assembly.Items
import ClosureMachine.Proofs.Assembly.Joining
import Mathlib.Logic.Relation

/-!
# Layout does not matter

A text assembles to the same program however it is laid out.

* **`Item.Edit`**, **`Line.Edit`** and **`Edit`** are the edits of the words of an item, of a line and of a
  text. They are about the text alone: about blanks, comments, line breaks and the zeros in front of a
  number.
* **`Item.Words.of_edit`**, **`Line.Edit.read?`** and **`Edit.readItems?`** say what each of them leaves of
  what was there: as many items, each meaning the same.
* **`assemble_of_edits`** is about any number of edits, one after the other.
-/

namespace ClosureMachine

namespace Assembly

open Text

/-! ## Edits -/

/-- A numeral with zeros in front, or anything as it is. -/
def Padded (word word' : List Char) : Prop :=
  word' = word
    ∨ Decimal.isNumeral word = true ∧ ∃ zeros, word' = List.replicate zeros '0' ++ word

/-- What may stand in front of the name of an instruction: a numeral, or nothing. -/
def IsOffset (ws : List (List Char)) : Prop :=
  ws = [] ∨ ∃ number, Decimal.isNumeral number = true ∧ ws = [number]

/-- Edits of the words of an item. -/
inductive Item.Edit : List (List Char) → List (List Char) → Prop
  | pad {ws ws' : List (List Char)} (h : List.Forall₂ Padded ws ws') : Edit ws ws'
  | offset {offset offset' operands : List (List Char)} {name : List Char} (h : IsOffset offset)
      (h' : IsOffset offset') (hname : IsName name) :
      Edit (offset ++ name :: operands) (offset' ++ name :: operands)

/-- Edits of a line. Its words may be edited and spaced anew, and what is behind them; of a string only
what is around the quotes. -/
inductive Line.Edit : List Char → List Char → Prop
  | indent {blanks : List Char} (line : List Char) (h : Blanks blanks) : Edit line (blanks ++ line)
  | trail {blanks : List Char} (line : List Char) (h : Blanks blanks) : Edit line (line ++ blanks)
  | comment {rest : List Char} (line : List Char) (hreturn : '\r' ∉ rest) (hfeed : '\n' ∉ rest) :
      Edit line (line ++ '%' :: rest)
  | words {front text text' back back' comment : List Char} {item : Item}
      {ws ws' : List (List Char)} (hfront : Blanks front) (hwords : item.Words ws)
      (hspaced : Spaced ws text) (hback : Blanks back) (hcomment : Comment comment)
      (hedit : Item.Edit ws ws') (hspaced' : Spaced ws' text') (hback' : Blanks back') :
      Edit (front ++ (text ++ (back ++ comment))) (front ++ (text' ++ (back' ++ comment)))
  | string {front gap gap' written text back back' comment : List Char} (hfront : Blanks front)
      (hgap : Gap gap) (hwritten : Item.Escapes written text) (hback : Blanks back)
      (hcomment : Comment comment) (hgap' : Gap gap') (hback' : Blanks back') :
      Edit (front ++ (".str".toList ++ (gap ++ '\"' :: (written ++ ['\"'])) ++ (back ++ comment)))
        (front ++ (".str".toList ++ (gap' ++ '\"' :: (written ++ ['\"'])) ++ (back' ++ comment)))

/-- The text `line` is a line behind `front`, without the break at its end. -/
structure StandsBehind (front line : List Char) : Prop where
  begins : front = [] ∨ ∃ text, front = text ++ ['\n']
  feed : '\n' ∉ line
  last : line.getLast? ≠ some '\r'

/-- A line feed, with or without a carriage return. -/
inductive Break : List Char → Prop
  | feed : Break ['\n']
  | returnFeed : Break ['\r', '\n']

/-- A line ends with a break, or where the text does. -/
def EndsLine (ending back : List Char) : Prop :=
  Break ending ∨ ending = [] ∧ back = []

/-- Edits of a text: of one of its lines, or of the break at its end; and one more line that says
nothing, in front of another or behind the last. -/
inductive Edit : List Char → List Char → Prop
  | line {front line line' ending back : List Char} (hline : StandsBehind front line)
      (hending : EndsLine ending back) (h : Line.Edit line line') :
      Edit (front ++ (line ++ (ending ++ back))) (front ++ (line' ++ (ending ++ back)))
  | ending {front line ending ending' back : List Char} (hline : StandsBehind front line)
      (h : Break ending) (h' : Break ending') :
      Edit (front ++ (line ++ (ending ++ back))) (front ++ (line ++ (ending' ++ back)))
  | insert {front line ending back : List Char} (hline : StandsBehind front line)
      (hblank : Line.blank.Spelled line) (hending : EndsLine ending back) :
      Edit (front ++ back) (front ++ (line ++ (ending ++ back)))
  | append {front last ending line : List Char} (hlast : StandsBehind front last)
      (hending : Break ending) (hblank : Line.blank.Spelled line) (hfeed : '\n' ∉ line) :
      Edit (front ++ last) (front ++ (last ++ (ending ++ line)))

/-! ## Words -/

theorem Padded.eq {word word' : List Char} (h : Padded word word')
    (hword : ¬Decimal.isNumeral word = true) : word' = word :=
  h.resolve_right fun ⟨hnumeral, _⟩ => hword hnumeral

theorem Padded.numeral {word word' : List Char} (h : Padded word word')
    (hword : Decimal.isNumeral word = true) :
    Decimal.isNumeral word' = true ∧ Decimal.toNat word' = Decimal.toNat word := by
  rcases h with rfl | ⟨-, zeros, rfl⟩
  · exact ⟨hword, rfl⟩
  · induction zeros with
    | zero => exact ⟨hword, rfl⟩
    | succ zeros ih =>
      rw [List.replicate_succ, List.cons_append, Decimal.toNat_zero_cons]
      refine ⟨?_, ih.2⟩
      have hdigits := ih.1
      simp only [Decimal.isNumeral, Bool.and_eq_true, List.all_cons] at hdigits ⊢
      exact ⟨rfl, rfl, hdigits.2⟩

theorem Padded.numerals {operands operands' : List (List Char)}
    (h : List.Forall₂ Padded operands operands')
    (hoperands : ∀ operand ∈ operands, Decimal.isNumeral operand = true) :
    (∀ operand ∈ operands', Decimal.isNumeral operand = true)
      ∧ operands'.map Decimal.toNat = operands.map Decimal.toNat := by
  induction h with
  | nil => exact ⟨hoperands, rfl⟩
  | cons hoperand _ ih =>
    obtain ⟨hfirst, hrest⟩ := List.forall_mem_cons.mp hoperands
    obtain ⟨hnumeral, hvalue⟩ := hoperand.numeral hfirst
    obtain ⟨hnumerals, hvalues⟩ := ih hrest
    exact ⟨List.forall_mem_cons.mpr ⟨hnumeral, hnumerals⟩, by simp [hvalue, hvalues]⟩

theorem Item.Denotes.padded {word word' : List Char} {n : Int64} (h : Denotes word n)
    (hpad : Padded word word') : Denotes word' n := by
  cases h with
  | numeral hdigits hn =>
    obtain ⟨hnumeral, hvalue⟩ := hpad.numeral hdigits
    exact .numeral hnumeral (hvalue ▸ hn)
  | minus hdigits hn =>
    rw [hpad.eq (by simp [Decimal.isNumeral])]
    exact .minus hdigits hn

/-- With zeros in front of its numbers an item means the same. -/
theorem Item.Words.of_padded {item : Item} {ws ws' : List (List Char)} (hwords : item.Words ws)
    (h : List.Forall₂ Padded ws ws') : ∃ item', item'.Words ws' ∧ item.Alike item' := by
  cases hwords with
  | integer hn =>
    obtain _ | ⟨hint, _ | ⟨hword, ⟨⟩⟩⟩ := h
    rw [hint.eq (by decide)]
    exact ⟨_, .integer (hn.padded hword), .same _⟩
  | function hparams hlocals =>
    obtain _ | ⟨hfunction, _ | ⟨hp, _ | ⟨hl, ⟨⟩⟩⟩⟩ := h
    obtain ⟨hparams, hparamsValue⟩ := hp.numeral hparams
    obtain ⟨hlocals, hlocalsValue⟩ := hl.numeral hlocals
    rw [hfunction.eq (by decide)]
    exact ⟨_, .function hparams hlocals, .function hparamsValue hlocalsValue⟩
  | endFunction =>
    obtain _ | ⟨hend, ⟨⟩⟩ := h
    rw [hend.eq (by decide)]
    exact ⟨_, .endFunction, .same _⟩
  | instruction hname hoperands =>
    obtain _ | ⟨hword, hrest⟩ := h
    obtain ⟨hnumerals, hvalues⟩ := Padded.numerals hrest hoperands
    rw [hword.eq hname.not_isNumeral]
    exact ⟨_, .instruction hname hnumerals, .instruction _ hvalues⟩
  | offset hnumber hname hoperands =>
    obtain _ | ⟨hoffset, _ | ⟨hword, hrest⟩⟩ := h
    obtain ⟨hnumerals, hvalues⟩ := Padded.numerals hrest hoperands
    rw [hword.eq hname.not_isNumeral]
    exact ⟨_, .offset (hoffset.numeral hnumber).1 hname hnumerals, .instruction _ hvalues⟩

section Offset

variable {offset operands : List (List Char)} {name : List Char}

/-- A name, perhaps behind a numeral, begins an instruction and nothing else. -/
theorem Item.Words.of_offset {item : Item} (h : item.Words (offset ++ name :: operands))
    (hoffset : IsOffset offset) (hname : IsName name) :
    item = .instruction name operands
      ∧ ∀ operand ∈ operands, Decimal.isNumeral operand = true := by
  rcases hoffset with rfl | ⟨number, hnumber, rfl⟩
  · cases h with
    | integer | function | endFunction => exact absurd rfl (hname.ne_of_all (by decide))
    | instruction _ hoperands => exact ⟨rfl, hoperands⟩
    | offset hnumber => exact absurd hnumber hname.not_isNumeral
  · cases h with
    | integer | function => exact absurd hnumber (by decide)
    | instruction hnumber' => exact absurd hnumber hnumber'.not_isNumeral
    | offset _ _ hoperands => exact ⟨rfl, hoperands⟩

theorem Item.words_offset (hoffset : IsOffset offset) (hname : IsName name)
    (hoperands : ∀ operand ∈ operands, Decimal.isNumeral operand = true) :
    Words (.instruction name operands) (offset ++ name :: operands) := by
  rcases hoffset with rfl | ⟨number, hnumber, rfl⟩
  · exact .instruction hname hoperands
  · exact .offset hnumber hname hoperands

end Offset

/-- **Edited words are those of an item that means the same.** -/
theorem Item.Words.of_edit {item : Item} {ws ws' : List (List Char)} (hwords : item.Words ws)
    (h : Item.Edit ws ws') : ∃ item', item'.Words ws' ∧ item.Alike item' := by
  cases h with
  | pad h => exact hwords.of_padded h
  | offset hoffset hoffset' hname =>
    obtain ⟨rfl, hoperands⟩ := hwords.of_offset hoffset hname
    exact ⟨_, words_offset hoffset' hname hoperands, .same _⟩

/-! ## Lines -/

/-- What may stand behind an item: blanks, and perhaps a comment. -/
def Behind (text : List Char) : Prop :=
  ∃ back comment, Blanks back ∧ Comment comment ∧ text = back ++ comment

theorem Blanks.append {front back : List Char} (h : Blanks front) (h' : Blanks back) :
    Blanks (front ++ back) :=
  List.forall_mem_append.mpr ⟨h, h'⟩

theorem Blanks.behind {text : List Char} (h : Blanks text) : Behind text :=
  ⟨text, [], h, Or.inl rfl, (List.append_nil _).symm⟩

theorem Comment.behind {text : List Char} (h : Comment text) : Behind text :=
  ⟨[], text, List.forall_mem_nil _, h, rfl⟩

theorem Behind.not_mem {text : List Char} (h : Behind text) : '\r' ∉ text := by
  obtain ⟨back, comment, hback, hcomment, rfl⟩ := h
  rw [List.mem_append, not_or]
  exact ⟨hback.not_mem rfl, (comment_iff.mp hcomment).2⟩

/-- Behind a comment everything belongs to it, and behind blanks there may be more. -/
theorem Behind.append {text text' : List Char} (h : Behind text) (h' : Behind text') :
    Behind (text ++ text') := by
  obtain ⟨back, comment, hback, rfl | ⟨rest, rfl, hreturn⟩, rfl⟩ := h
  · obtain ⟨back', comment', hback', hcomment', rfl⟩ := h'
    exact ⟨back ++ back', comment', Blanks.append hback hback', hcomment', by simp⟩
  · refine ⟨back, '%' :: (rest ++ text'), hback, Or.inr ⟨_, rfl, ?_⟩, by simp⟩
    rw [List.mem_append, not_or]
    exact ⟨hreturn, h'.not_mem⟩

theorem Line.Spelled.append {said : Line} {line tail : List Char} (h : said.Spelled line)
    (htail : Behind tail) : said.Spelled (line ++ tail) := by
  cases h with
  | @blank front comment hfront hcomment =>
    obtain ⟨back, comment', hback, hcomment', hbehind⟩ := (Comment.behind hcomment).append htail
    rw [List.append_assoc, hbehind, ← List.append_assoc]
    exact .blank (Blanks.append hfront hback) hcomment'
  | @item item front text back comment hfront hitem hback hcomment =>
    obtain ⟨back', comment', hback', hcomment', hbehind⟩ :=
      ((Blanks.behind hback).append (Comment.behind hcomment)).append htail
    rw [List.append_assoc, List.append_assoc, hbehind]
    exact .item hfront hitem hback' hcomment'

theorem Line.Spelled.indent {said : Line} {line blanks : List Char} (h : said.Spelled line)
    (hblanks : Blanks blanks) : said.Spelled (blanks ++ line) := by
  cases h with
  | blank hfront hcomment =>
    rw [← List.append_assoc]
    exact .blank (Blanks.append hblanks hfront) hcomment
  | item hfront hitem hback hcomment =>
    rw [← List.append_assoc]
    exact .item (Blanks.append hblanks hfront) hitem hback hcomment

/-- **An edited line says the same**, but for how its numbers are written. -/
theorem Line.Edit.read? {line line' : List Char} (h : Line.Edit line line') {said : Line}
    (hread : Line.read? line = some said) :
    ∃ said', Line.read? line' = some said'
      ∧ List.Forall₂ Item.Alike said.item?.toList said'.item?.toList := by
  have same : ∀ said : Line, List.Forall₂ Item.Alike said.item?.toList said.item?.toList :=
    fun said => List.forall₂_same.mpr fun item _ => .same item
  cases h with
  | indent _ hblanks =>
    have hspelled := (read?_eq_some_iff.mp hread).indent hblanks
    exact ⟨said, read?_eq_some_iff.mpr hspelled, same said⟩
  | trail _ hblanks =>
    have hspelled := (read?_eq_some_iff.mp hread).append (Blanks.behind hblanks)
    exact ⟨said, read?_eq_some_iff.mpr hspelled, same said⟩
  | comment _ hreturn =>
    have hcomment : Comment ('%' :: _) := Or.inr ⟨_, rfl, hreturn⟩
    have hspelled := (read?_eq_some_iff.mp hread).append (Comment.behind hcomment)
    exact ⟨said, read?_eq_some_iff.mpr hspelled, same said⟩
  | words hfront hwords hspaced hback hcomment hedit hspaced' hback' =>
    cases (read?_spaced hfront hback hcomment hwords hspaced).symm.trans hread
    obtain ⟨item', hwords', halike⟩ := hwords.of_edit hedit
    exact ⟨.item item', read?_spaced hfront hback' hcomment hwords' hspaced', .cons halike .nil⟩
  | string hfront hgap hwritten hback hcomment hgap' hback' =>
    cases (read?_quoted hfront hback hcomment hgap hwritten).symm.trans hread
    exact ⟨_, read?_quoted hfront hback' hcomment hgap' hwritten, same _⟩

/-- An edited line is still one line. -/
theorem Line.Edit.not_mem {line line' : List Char} (h : Line.Edit line line') (hfeed : '\n' ∉ line) :
    '\n' ∉ line' := by
  cases h with
  | indent _ hblanks => simp [hblanks.not_mem, hfeed, isBlank]
  | trail _ hblanks => simp [hblanks.not_mem, hfeed, isBlank]
  | comment _ _ hrest => simp [hrest, hfeed]
  | words hfront hwords hspaced hback hcomment hedit hspaced' hback' =>
    obtain ⟨item', hwords', -⟩ := hwords.of_edit hedit
    have htext := hwords'.not_mem hspaced' (c := '\n') (by decide) rfl
    simp only [List.mem_append, not_or] at hfeed ⊢
    exact ⟨hfeed.1, htext, hback'.not_mem rfl, hfeed.2.2.2⟩
  | string hfront hgap hwritten hback hcomment hgap' hback' =>
    simp only [List.mem_append, List.mem_cons, not_or] at hfeed ⊢
    obtain ⟨hfrontFeed, ⟨hstr, -, hquoted⟩, -, hcommentFeed⟩ := hfeed
    exact ⟨hfrontFeed, ⟨hstr, hgap'.blanks.not_mem rfl, hquoted⟩, hback'.not_mem rfl, hcommentFeed⟩

/-! ## Texts -/

theorem StandsBehind.lines {front line : List Char} (h : StandsBehind front line)
    (text : List Char) : lines (front ++ text) = lines front ++ lines text := by
  rcases h.begins with rfl | ⟨front, rfl⟩
  · simp
  · rw [List.append_assoc, List.singleton_append, lines_append_cons, lines_append_cons, lines_nil,
      List.append_nil]

/-- A line is read apart from what stands behind its end. Where nothing stands there, the line may be
empty; then it is no line of the text, but neither would it say anything. -/
theorem readItems?_lines {front line ending back : List Char} (h : StandsBehind front line)
    (hending : EndsLine ending back) :
    readItems? (lines (line ++ (ending ++ back))) = readItems? (line :: lines back) := by
  rcases hending with hbreak | ⟨rfl, rfl⟩
  · cases hbreak with
    | feed =>
      have hkept : dropReturn line = line := if_neg h.last
      rw [List.singleton_append, lines_cons h.feed, hkept]
    | returnFeed =>
      have hdropped : dropReturn (line ++ ['\r']) = line := by simp [dropReturn]
      have hfeed : '\n' ∉ line ++ ['\r'] := by simp [h.feed]
      have hsplit : line ++ (['\r', '\n'] ++ back) = line ++ ['\r'] ++ '\n' :: back := by simp
      rw [hsplit, lines_cons hfeed, hdropped]
  · rw [List.append_nil, List.append_nil, lines_nil, lines_of_not_mem h.feed]
    cases line with
    | nil => rfl
    | cons c line => rfl

/-- Where a line that says nothing is all of a text, the text has no items. -/
theorem readItems?_of_blank {line : List Char} (h : Line.blank.Spelled line) (hfeed : '\n' ∉ line) :
    readItems? (lines line) = some [] := by
  rw [lines_of_not_mem hfeed]
  cases line with
  | nil => rfl
  | cons c line =>
    have hsaid := Line.read?_eq_some_iff.mpr h
    exact readItems?_cons_eq_some_iff.mpr ⟨.blank, [], hsaid, rfl, rfl⟩

/-- The items of a text are those in front of a line, that of the line, and those behind it. -/
theorem readItems?_around {front line ending back : List Char} (hline : StandsBehind front line)
    (hending : EndsLine ending back) {items : List Item} :
    readItems? (lines (front ++ (line ++ (ending ++ back)))) = some items
      ↔ ∃ before said after, readItems? (lines front) = some before ∧ Line.read? line = some said
        ∧ readItems? (lines back) = some after ∧ items = before ++ (said.item?.toList ++ after) := by
  rw [hline.lines, readItems?_append_eq_some_iff, readItems?_lines hline hending]
  simp only [readItems?_cons_eq_some_iff]
  constructor
  · rintro ⟨before, _, hbefore, ⟨said, after, hsaid, hafter, rfl⟩, rfl⟩
    exact ⟨before, said, after, hbefore, hsaid, hafter, rfl⟩
  · rintro ⟨before, said, after, hbefore, hsaid, hafter, rfl⟩
    exact ⟨before, _, hbefore, ⟨said, after, hsaid, hafter, rfl⟩, rfl⟩

theorem StandsBehind.of_edit {front line line' : List Char} (h : StandsBehind front line)
    (hedit : Line.Edit line line') {said : Line} (hread : Line.read? line' = some said) :
    StandsBehind front line' where
  begins := h.begins
  feed := hedit.not_mem h.feed
  last hlast := by
    rw [Line.read?_of_return hlast] at hread
    cases hread

/-- **An edited text has as many items**, and each means the same. -/
theorem Edit.readItems? {text text' : List Char} (h : Edit text text') {items : List Item}
    (hread : readItems? (lines text) = some items) :
    ∃ items', Assembly.readItems? (lines text') = some items'
      ∧ List.Forall₂ Item.Alike items items' := by
  have same : ∀ items : List Item, List.Forall₂ Item.Alike items items :=
    fun items => List.forall₂_same.mpr fun item _ => .same item
  cases h with
  | line hline hending hedit =>
    obtain ⟨before, said, after, hbefore, hsaid, hafter, rfl⟩ :=
      (readItems?_around hline hending).mp hread
    obtain ⟨said', hsaid', halike⟩ := hedit.read? hsaid
    have hline' := hline.of_edit hedit hsaid'
    refine ⟨_, (readItems?_around hline' hending).mpr ⟨_, _, _, hbefore, hsaid', hafter, rfl⟩, ?_⟩
    exact List.rel_append (same before) (List.rel_append halike (same after))
  | ending hline hbreak hbreak' =>
    have hparts := (readItems?_around hline (Or.inl hbreak)).mp hread
    exact ⟨items, (readItems?_around hline (Or.inl hbreak')).mpr hparts, same items⟩
  | insert hline hblank hending =>
    rw [hline.lines] at hread
    obtain ⟨before, after, hbefore, hafter, rfl⟩ := readItems?_append_eq_some_iff.mp hread
    have hsaid := Line.read?_eq_some_iff.mpr hblank
    exact ⟨_, (readItems?_around hline hending).mpr ⟨_, _, _, hbefore, hsaid, hafter, rfl⟩, same _⟩
  | @append front last ending line hlast hbreak hblank hfeed =>
    have htext : front ++ last = front ++ (last ++ ([] ++ [])) := by simp
    rw [htext] at hread
    obtain ⟨before, said, after, hbefore, hsaid, hafter, rfl⟩ :=
      (readItems?_around hlast (Or.inr ⟨rfl, rfl⟩)).mp hread
    have hline := readItems?_of_blank hblank hfeed
    cases hafter
    exact ⟨_, (readItems?_around hlast (Or.inl hbreak)).mpr ⟨_, _, _, hbefore, hsaid, hline, rfl⟩,
      same _⟩

/-- Any number of edits leave items that amount to the same. -/
theorem readItems?_of_edits {text text' : List Char} (h : Relation.ReflTransGen Edit text text')
    {items : List Item} (hread : readItems? (lines text) = some items) :
    ∃ items', readItems? (lines text') = some items' ∧ program? items' = program? items := by
  induction h with
  | refl => exact ⟨items, hread, rfl⟩
  | tail _ hedit ih =>
    obtain ⟨items₁, hread₁, hprogram₁⟩ := ih
    obtain ⟨items', hread', halike⟩ := hedit.readItems? hread₁
    exact ⟨items', hread', (program?_congr halike).trans hprogram₁⟩

end Assembly

open Assembly in
/-- **Layout does not matter.** A text that assembles may be edited any number of times, and assembles to
the same program: blanks at either end of a line and between its parts, comments, lines that say
nothing, offsets, zeros in front of numbers, and line breaks of either kind. -/
theorem assemble_of_edits {text text' : String} {program : Program}
    (hedits : Relation.ReflTransGen Edit text.toList text'.toList)
    (h : assemble text = .ok program) : assemble text' = .ok program := by
  have hsome : (items? text).bind program? = some program := by
    rw [← toOption_assemble, h]
    rfl
  obtain ⟨items, hitems, hprogram⟩ := Option.bind_eq_some_iff.mp hsome
  obtain ⟨items', hitems', hsame⟩ := readItems?_of_edits hedits hitems
  apply toOption_eq_some_iff.mp
  rw [toOption_assemble, show items? text' = some items' from hitems', Option.bind_some, hsame,
    hprogram]

open Assembly Text in
/-- An instruction gets an offset and a zero in front of its operand, the break behind it a carriage
return, and a string that holds a `%` a comment. -/
theorem assemble_of_edits_quoted :
    ∃ program, program.main = #[Opcode.loadConstant.toByte, 0, 0]
      ∧ program.constants = #[.string "%"]
      ∧ assemble "LoadConstant 0\n.str \"%\"" = .ok program
      ∧ assemble "07\tLoadConstant 00\r\n.str \"%\"%\"" = .ok program := by
  have h : assemble "LoadConstant 0\n.str \"%\""
      = .ok ⟨#[Opcode.loadConstant.toByte, 0, 0], #[.string "%"]⟩ := by decide +kernel
  have hname : Item.IsName "LoadConstant".toList :=
    ⟨by decide, Opcode.loadConstant.isAlpha_of_mem_mnemonic⟩
  have hwords : (Item.instruction "LoadConstant".toList [['0']]).Words
      ["LoadConstant".toList, ['0']] := .instruction hname (by decide)
  have hspaced : ∀ operand, Spaced ["LoadConstant".toList, operand]
      ("LoadConstant".toList ++ ([' '] ++ operand)) :=
    fun operand => .cons ⟨List.cons_ne_nil _ _, List.forall_mem_singleton.mpr rfl⟩ (.last operand)
  have hpad : Line.Edit "LoadConstant 0".toList "LoadConstant 00".toList :=
    .words (List.forall_mem_nil _) hwords (hspaced _) (List.forall_mem_nil _) (Or.inl rfl)
      (.pad (.cons (Or.inl rfl) (.cons (Or.inr ⟨by decide, 1, rfl⟩) .nil))) (hspaced ['0', '0'])
      (List.forall_mem_nil _)
  have hoffset : Line.Edit "LoadConstant 00".toList "07\tLoadConstant 00".toList :=
    .words (List.forall_mem_nil _) (.instruction hname (by decide)) (hspaced ['0', '0'])
      (List.forall_mem_nil _) (Or.inl rfl)
      (.offset (Or.inl rfl) (Or.inr ⟨['0', '7'], by decide, rfl⟩) hname)
      (.cons ⟨List.cons_ne_nil _ _, List.forall_mem_singleton.mpr rfl⟩ (hspaced ['0', '0']))
      (List.forall_mem_nil _)
  have hfirst : ∀ line ∈ ["LoadConstant 0".toList, "LoadConstant 00".toList,
      "07\tLoadConstant 00".toList], StandsBehind [] line := by
    intro line hline
    refine ⟨Or.inl rfl, ?_, ?_⟩
    all_goals
      revert line
      decide
  have hlast : StandsBehind "07\tLoadConstant 00\r\n".toList ".str \"%\"".toList :=
    ⟨Or.inr ⟨"07\tLoadConstant 00\r".toList, by decide⟩, by decide, by decide⟩
  have h₁ : Edit "LoadConstant 0\n.str \"%\"".toList "LoadConstant 00\n.str \"%\"".toList :=
    .line (hfirst "LoadConstant 0".toList (by decide)) (Or.inl .feed) hpad
  have h₂ : Edit "LoadConstant 00\n.str \"%\"".toList "07\tLoadConstant 00\n.str \"%\"".toList :=
    .line (hfirst "LoadConstant 00".toList (by decide)) (Or.inl .feed) hoffset
  have h₃ : Edit "07\tLoadConstant 00\n.str \"%\"".toList "07\tLoadConstant 00\r\n.str \"%\"".toList :=
    .ending (hfirst "07\tLoadConstant 00".toList (by decide)) .feed .returnFeed
  have hcomment : Line.Edit ".str \"%\"".toList ".str \"%\"%\"".toList :=
    .comment _ (by decide : '\r' ∉ ['\"']) (by decide)
  have h₄ : Edit "07\tLoadConstant 00\r\n.str \"%\"".toList
      "07\tLoadConstant 00\r\n.str \"%\"%\"".toList :=
    .line hlast (Or.inr ⟨rfl, rfl⟩) hcomment
  have hedits := (((Relation.ReflTransGen.single h₁).tail h₂).tail h₃).tail h₄
  exact ⟨_, rfl, rfl, h, assemble_of_edits hedits h⟩

end ClosureMachine
