import ClosureMachine.Proofs.Assembly.Printing
import ClosureMachine.Proofs.Text.Quoting
import ClosureMachine.Proofs.Text.Spacing

/-!
# The grammar of a line

What is a line of assembly, said without saying how to read one.

* **`Item.Words`** are the words that an item can have, and **`Item.Spelled`** is an item as it stands in
  a line: its words with a gap between each, or `.str` and a quoted string.
* **`Line.Spelled`** is a whole line: blanks around the item, and a comment behind it.
* **`Line.read?_eq_some_iff`**: what is read of a text is what it spells, so that no text spells two
  different things.
-/

namespace ClosureMachine.Assembly

open Listing Text

/-! ## What an item looks like -/

/-- A numeral, perhaps after a minus, for an integer of 64 bits. -/
inductive Item.Denotes : List Char → Int64 → Prop
  | numeral {digits : List Char} {n : Int64} (h : Decimal.isNumeral digits = true)
      (hn : (Decimal.toNat digits : Int) = n.toInt) : Denotes digits n
  | minus {digits : List Char} {n : Int64} (h : Decimal.isNumeral digits = true)
      (hn : -(Decimal.toNat digits : Int) = n.toInt) : Denotes ('-' :: digits) n

/-- A text between quotes, and what it stands for. A backslash is followed by a quote or a backslash and
stands for that; there is no other quote. -/
inductive Item.Escapes : List Char → List Char → Prop
  | nil : Escapes [] []
  | plain {c : Char} {written text : List Char} (hquote : c ≠ '\"') (hslash : c ≠ '\\')
      (h : Escapes written text) : Escapes (c :: written) (c :: text)
  | escaped {c : Char} {written text : List Char} (hc : c = '\"' ∨ c = '\\')
      (h : Escapes written text) : Escapes ('\\' :: c :: written) (c :: text)

/-- At least one letter, and nothing else. -/
structure Item.IsName (word : List Char) : Prop where
  ne_nil : word ≠ []
  letters : ∀ c ∈ word, c.isAlpha = true

/-- The words of an item that holds no string. -/
inductive Item.Words : Item → List (List Char) → Prop
  | integer {word : List Char} {n : Int64} (hn : Denotes word n) :
      Words (.integer n) [".int".toList, word]
  | function {params locals : List Char} (hparams : Decimal.isNumeral params = true)
      (hlocals : Decimal.isNumeral locals = true) :
      Words (.function params locals) [".function".toList, params, locals]
  | endFunction : Words .endFunction [".end".toList]
  | instruction {name : List Char} {operands : List (List Char)} (hname : IsName name)
      (hoperands : ∀ operand ∈ operands, Decimal.isNumeral operand = true) :
      Words (.instruction name operands) (name :: operands)
  /-- A numeral in front of an instruction counts for nothing. -/
  | offset {number name : List Char} {operands : List (List Char)}
      (hnumber : Decimal.isNumeral number = true) (hname : IsName name)
      (hoperands : ∀ operand ∈ operands, Decimal.isNumeral operand = true) :
      Words (.instruction name operands) (number :: name :: operands)

/-- An item as it stands in a line. -/
inductive Item.Spelled : Item → List Char → Prop
  | words {item : Item} {ws : List (List Char)} {text : List Char} (hwords : item.Words ws)
      (hspaced : Spaced ws text) : Spelled item text
  | string {gap written text : List Char} (hgap : Gap gap) (h : Escapes written text) :
      Spelled (.string text) (".str".toList ++ (gap ++ '\"' :: (written ++ ['\"'])))

/-- Nothing, or anything behind a `%` but a carriage return. -/
def Comment (text : List Char) : Prop :=
  text = [] ∨ ∃ rest, text = '%' :: rest ∧ '\r' ∉ rest

/-- What a whole line says: nothing, or an item, with blanks around it and perhaps a comment. -/
inductive Line.Spelled : Line → List Char → Prop
  | blank {front comment : List Char} (hfront : Blanks front) (hcomment : Comment comment) :
      Spelled .blank (front ++ comment)
  | item {item : Item} {front text back comment : List Char} (hfront : Blanks front)
      (h : item.Spelled text) (hback : Blanks back) (hcomment : Comment comment) :
      Spelled (.item item) (front ++ (text ++ (back ++ comment)))

/-! ## Parts of a line -/

theorem Item.toInt_ofInt {n : Int} (hmin : Int64.minValue.toInt ≤ n) (hmax : n ≤ Int64.maxValue.toInt) :
    (Int64.ofInt n).toInt = n :=
  Int64.toInt_ofInt_of_le hmin (Int.lt_add_one_of_le hmax)

theorem Item.int64?_eq_some_iff {word : List Char} {n : Int64} :
    int64? word = some n ↔ Denotes word n := by
  constructor
  · intro h
    unfold int64? at h
    split at h
    next negative digits hsign =>
      simp only [Option.ite_none_right_eq_some] at h
      obtain ⟨⟨hdigits, hmin, hmax⟩, hn⟩ := h
      cases hn
      have htoInt := toInt_ofInt hmin hmax
      split at hsign
      · cases hsign
        exact .minus hdigits htoInt.symm
      · cases hsign
        exact .numeral hdigits htoInt.symm
  · rintro (⟨h, hn⟩ | ⟨h, hn⟩)
    · exact int64?_numeral h hn
    · exact int64?_minus h hn

theorem Item.unquote?_eq_some_iff {quoted text rest : List Char} :
    unquote? quoted = some (text, rest)
      ↔ ∃ written, Escapes written text ∧ quoted = written ++ '\"' :: rest := by
  constructor
  · intro h
    fun_induction unquote? quoted generalizing text rest with
    | case1 => cases h
    | case2 rest' =>
      cases h
      exact ⟨[], .nil, rfl⟩
    | case3 c rest' hc ih =>
      obtain ⟨⟨text', rest''⟩, hread, hpair⟩ := Option.map_eq_some_iff.mp h
      cases hpair
      obtain ⟨written, hwritten, rfl⟩ := ih hread
      exact ⟨_, .escaped hc hwritten, rfl⟩
    | case4 => cases h
    | case5 => cases h
    | case6 c rest' hquote _ hslash ih =>
      obtain ⟨⟨text', rest''⟩, hread, hpair⟩ := Option.map_eq_some_iff.mp h
      cases hpair
      obtain ⟨written, hwritten, rfl⟩ := ih hread
      exact ⟨_, .plain hquote hslash hwritten, rfl⟩
  · rintro ⟨written, hwritten, rfl⟩
    have hescaped : written = escaped text := by
      induction hwritten with
      | nil => rfl
      | plain hquote hslash _ ih => simp [escaped, hquote, hslash, ih]
      | escaped hc _ ih => simp [escaped, hc, ih]
    rw [hescaped, unquote?_escaped]

theorem Item.instruction?_eq_some_iff {name : List Char} {operands : List (List Char)} {item : Item} :
    instruction? name operands = some item ↔ (∀ c ∈ name, c.isAlpha = true)
      ∧ (∀ operand ∈ operands, Decimal.isNumeral operand = true)
      ∧ item = .instruction name operands := by
  simp only [instruction?, Option.ite_none_right_eq_some, List.all_eq_true, Option.some.injEq,
    and_assoc, eq_comm (a := item)]

/-- A name is no directive, and no numeral. -/
theorem Item.IsName.ne_of_all {name directive : List Char} (hname : IsName name)
    (h : directive.all Char.isAlpha = false) : name ≠ directive := by
  rintro rfl
  rw [List.all_eq_true.mpr hname.letters] at h
  cases h

theorem isDigit_of_isAlpha {c : Char} (h : c.isAlpha = true) : c.isDigit = false := by
  change (decide (c.val ≥ 65 ∧ c.val ≤ 90) || (decide (c.val ≥ 97) && decide (c.val ≤ 122))) = true
    at h
  change (decide (c.val ≥ 48) && decide (c.val ≤ 57)) = false
  simp only [Bool.or_eq_true, Bool.and_eq_true, decide_eq_true_eq, UInt32.le_iff_toNat_le,
    ge_iff_le] at h
  simp only [Bool.and_eq_false_iff, decide_eq_false_iff_not, UInt32.le_iff_toNat_le, ge_iff_le]
  change (65 ≤ c.val.toNat ∧ c.val.toNat ≤ 90) ∨ (97 ≤ c.val.toNat ∧ c.val.toNat ≤ 122) at h
  change ¬48 ≤ c.val.toNat ∨ ¬c.val.toNat ≤ 57
  omega

theorem Item.IsName.not_isNumeral {name : List Char} (hname : IsName name) :
    ¬Decimal.isNumeral name = true := by
  obtain ⟨c, letters, rfl⟩ := List.exists_cons_of_ne_nil hname.ne_nil
  simp [Decimal.isNumeral, isDigit_of_isAlpha (hname.letters c List.mem_cons_self)]

theorem Item.ofWords?_eq_some_iff {ws : List (List Char)} {item : Item}
    (hne : ∀ word ∈ ws, word ≠ []) : ofWords? ws = some item ↔ item.Words ws := by
  constructor
  · intro h
    unfold ofWords? at h
    split at h
    · cases h
    next word rest =>
      split at h
      · next hint =>
        split at h
        · obtain ⟨n, hn, rfl⟩ := Option.map_eq_some_iff.mp h
          rw [hint]
          exact .integer (int64?_eq_some_iff.mp hn)
        · cases h
      split at h
      · next hfunction =>
        split at h
        · split at h
          · next hcounts =>
            cases h
            rw [hfunction]
            exact .function hcounts.1 hcounts.2
          · cases h
        · cases h
      split at h
      · next hend =>
        split at h
        · next hrest =>
          cases h
          rw [hend, hrest]
          exact .endFunction
        · cases h
      split at h
      · next hnumber =>
        split at h
        · cases h
        · next name operands =>
          obtain ⟨hname, hoperands, rfl⟩ := instruction?_eq_some_iff.mp h
          exact .offset hnumber ⟨hne _ (List.mem_cons_of_mem _ List.mem_cons_self), hname⟩ hoperands
      · obtain ⟨hname, hoperands, rfl⟩ := instruction?_eq_some_iff.mp h
        exact .instruction ⟨hne _ List.mem_cons_self, hname⟩ hoperands
  · intro h
    cases h with
    | @integer word n hn =>
      show integer <$> int64? word = _
      rw [int64?_eq_some_iff.mpr hn]
      rfl
    | function hparams hlocals => exact if_pos ⟨hparams, hlocals⟩
    | endFunction => rfl
    | instruction hname hoperands =>
      unfold ofWords?
      dsimp only
      rw [if_neg (hname.ne_of_all (by decide)), if_neg (hname.ne_of_all (by decide)),
        if_neg (hname.ne_of_all (by decide)), if_neg hname.not_isNumeral]
      exact instruction?_eq_some_iff.mpr ⟨hname.letters, hoperands, rfl⟩
    | offset hnumber hname hoperands =>
      rw [ofWords?_offset hnumber]
      exact instruction?_eq_some_iff.mpr ⟨hname.letters, hoperands, rfl⟩

theorem isWord_of_isNumeral {word : List Char} (h : Decimal.isNumeral word = true) : IsWord word :=
  isWord_of_isAlphanum (isAlphanum_of_isNumeral h).1 (isAlphanum_of_isNumeral h).2

theorem Item.IsName.isWord {name : List Char} (hname : IsName name) : IsWord name :=
  isWord_of_isAlphanum hname.ne_nil fun c hc => isAlphanum_of_isAlpha (hname.letters c hc)

theorem Item.Denotes.isWord {word : List Char} {n : Int64} (h : Denotes word n) : IsWord word := by
  cases h with
  | numeral h => exact isWord_of_isNumeral h
  | minus h =>
    have hdigits := isWord_of_isNumeral h
    exact ⟨List.cons_ne_nil _ _, plain_cons.mpr ⟨by decide, hdigits.plain⟩,
      List.forall_mem_cons.mpr ⟨by decide, hdigits.blank⟩⟩

theorem unbroken_of_isWord {word : List Char} (h : IsWord word) : Unbroken word :=
  ⟨h.ne_nil, h.blank⟩

/-- The words of an item are words of plain characters. -/
theorem Item.Words.isWord {item : Item} {ws : List (List Char)} (h : item.Words ws) :
    ∀ word ∈ ws, IsWord word := by
  cases h with
  | integer hn =>
    exact List.forall_mem_cons.mpr ⟨isWord_of_all (by decide) (by decide),
      List.forall_mem_singleton.mpr hn.isWord⟩
  | function hparams hlocals =>
    refine List.forall_mem_cons.mpr ⟨isWord_of_all (by decide) (by decide), ?_⟩
    exact List.forall_mem_cons.mpr ⟨isWord_of_isNumeral hparams,
      List.forall_mem_singleton.mpr (isWord_of_isNumeral hlocals)⟩
  | endFunction => exact List.forall_mem_singleton.mpr (isWord_of_all (by decide) (by decide))
  | instruction hname hoperands =>
    exact List.forall_mem_cons.mpr ⟨hname.isWord, fun word hword =>
      isWord_of_isNumeral (hoperands word hword)⟩
  | offset hnumber hname hoperands =>
    refine List.forall_mem_cons.mpr ⟨isWord_of_isNumeral hnumber, ?_⟩
    exact List.forall_mem_cons.mpr ⟨hname.isWord, fun word hword =>
      isWord_of_isNumeral (hoperands word hword)⟩

/-- Where such an item stands there are only blanks and plain characters. -/
theorem Item.Words.not_mem {item : Item} {ws : List (List Char)} {text : List Char} (h : item.Words ws)
    (hspaced : Spaced ws text) {c : Char} (hplain : isPlain c = false) (hblank : isBlank c = false) :
    c ∉ text := by
  intro hmem
  rcases hspaced.mem hmem with ⟨word, hword, hmem⟩ | hc
  · exact (h.isWord word hword).plain.not_mem hplain hmem
  · rw [hc] at hblank
    cases hblank

/-- No such item begins like a string. -/
theorem Item.Words.ne_str {item : Item} {word : List Char} {ws : List (List Char)}
    (h : item.Words (word :: ws)) : word ≠ ".str".toList := by
  cases h with
  | integer | function | endFunction => decide
  | instruction hname => exact hname.ne_of_all (by decide)
  | offset hnumber =>
    rintro rfl
    cases hnumber

/-- An item does not begin with a blank. -/
theorem Item.Spelled.blank_of_head? {item : Item} {text : List Char} (h : item.Spelled text)
    (rest : List Char) : ∀ c ∈ (text ++ rest).head?, isBlank c = false := by
  cases h with
  | @words _ ws _ hwords hspaced =>
    obtain ⟨word, ws, rfl⟩ : ∃ word rest, ws = word :: rest := by
      cases hspaced <;> exact ⟨_, _, rfl⟩
    obtain ⟨tail, rfl, -⟩ := hspaced.first
    rw [List.append_assoc]
    exact (unbroken_of_isWord (hwords.isWord word List.mem_cons_self)).blank_of_head? _
  | string =>
    rintro c ⟨⟩
    rfl

theorem comment_iff {text : List Char} :
    Comment text ↔ (∀ c ∈ text.head?, c = '%') ∧ '\r' ∉ text := by
  constructor
  · rintro (rfl | ⟨rest, rfl, hreturn⟩)
    · exact ⟨fun c hc => (by cases hc), List.not_mem_nil⟩
    · refine ⟨fun c hc => ?_, ?_⟩
      · cases hc
        rfl
      · simpa using hreturn
  · rintro ⟨hhead, hreturn⟩
    cases text with
    | nil => exact Or.inl rfl
    | cons c rest =>
      rw [hhead c rfl] at hreturn ⊢
      exact Or.inr ⟨rest, rfl, fun h => hreturn (List.mem_cons_of_mem _ h)⟩

/-- What is behind an item begins with a blank or a `%`. -/
theorem head?_behind {back comment : List Char} (hback : Blanks back) (hcomment : Comment comment) :
    ∀ c ∈ (back ++ comment).head?, isBlank c = true ∨ c = '%' :=
  forall_head?_append (fun c hc => Or.inl (hback c (List.mem_of_mem_head? hc)))
    fun c hc => Or.inr ((comment_iff.mp hcomment).1 c hc)

/-- A comment begins at the first `%`. -/
theorem Line.uncommented?_append {content comment : List Char} (hcontent : '%' ∉ content)
    (hcomment : ∀ c ∈ comment.head?, c = '%') :
    uncommented? (content ++ comment) = if '\r' ∈ comment then none else some content := by
  unfold uncommented?
  rw [span_append]
  · intro c hc
    rw [bne_iff_ne]
    rintro rfl
    exact hcontent hc
  · intro c hc
    rw [hcomment c hc]
    rfl

theorem Line.uncommented?_eq_some_iff {text content : List Char} :
    uncommented? text = some content
      ↔ '%' ∉ content ∧ ∃ comment, Comment comment ∧ text = content ++ comment := by
  constructor
  · intro h
    obtain ⟨front, comment, rfl, hfront, hcomment⟩ := exists_span (· != '%') text
    have hpercent : '%' ∉ front := fun h => by simpa using hfront _ h
    have hhead : ∀ c ∈ comment.head?, c = '%' := fun c hc => by simpa using hcomment c hc
    rw [uncommented?_append hpercent hhead] at h
    split at h
    · cases h
    · next hreturn =>
      cases h
      exact ⟨hpercent, comment, comment_iff.mpr ⟨hhead, hreturn⟩, rfl⟩
  · rintro ⟨hpercent, comment, hcomment, rfl⟩
    obtain ⟨hhead, hreturn⟩ := comment_iff.mp hcomment
    rw [uncommented?_append hpercent hhead, if_neg hreturn]

theorem Line.afterStr?_eq_some_iff {text rest : List Char} :
    afterStr? text = some rest ↔ ∃ gap, Gap gap ∧ (∀ c ∈ rest.head?, isBlank c = false)
      ∧ text = ".str".toList ++ (gap ++ rest) := by
  constructor
  · intro h
    unfold afterStr? at h
    split at h
    · next c rest' =>
      split at h
      · next hc =>
        cases h
        obtain ⟨gap, rest, rfl, hgap, hrest⟩ := exists_span isBlank rest'
        rw [dropWhile_blanks_append hgap hrest]
        exact ⟨c :: gap, ⟨List.cons_ne_nil _ _, List.forall_mem_cons.mpr ⟨hc, hgap⟩⟩, hrest, rfl⟩
      · cases h
    · cases h
  · rintro ⟨gap, ⟨hne, hgap⟩, hrest, rfl⟩
    obtain ⟨c, gap, rfl⟩ := List.exists_cons_of_ne_nil hne
    obtain ⟨hc, hgap⟩ := List.forall_mem_cons.mp hgap
    show (if isBlank c = true then some ((gap ++ rest).dropWhile isBlank) else none) = _
    rw [if_pos hc, dropWhile_blanks_append hgap hrest]

/-- A text whose first word is not `.str` holds no string. -/
theorem Line.afterStr?_eq_none {word rest : List Char} (hword : IsWord word)
    (hne : word ≠ ".str".toList) (hrest : ∀ c ∈ rest.head?, isBlank c = true ∨ c = '%') :
    afterStr? (word ++ rest) = none := by
  refine Option.eq_none_iff_forall_ne_some.mpr fun behind h => ?_
  obtain ⟨gap, hgap, -, htext⟩ := afterStr?_eq_some_iff.mp h
  let inWord := fun c => !isBlank c && c != '%'
  have hinside : ∀ c ∈ word, inWord c = true := by
    intro c hc
    have hpercent : c ≠ '%' := fun h => hword.plain.not_mem (by decide) (h ▸ hc)
    simp [inWord, hword.blank c hc, hpercent]
  have hbehind : ∀ c ∈ rest.head?, inWord c = false := by
    intro c hc
    rcases hrest c hc with hblank | rfl <;> simp [inWord, *]
  have hgap : ∀ c ∈ (gap ++ behind).head?, inWord c = false := by
    intro c hc
    simp [inWord, hgap.blank_of_head? behind c hc]
  exact hne (append_cancel_of_all hinside (List.all_eq_true.mp rfl) hbehind hgap htext).1

/-! ## Reading a line -/

theorem Line.spelled_of_read? {text : List Char} {line : Line} (h : read? text = some line) :
    line.Spelled text := by
  unfold read? at h
  split at h
  · next quoted hquoted =>
    obtain ⟨⟨string, rest⟩, hread, h⟩ := Option.bind_eq_some_iff.mp h
    obtain ⟨content, hcontent, h⟩ := Option.bind_eq_some_iff.mp h
    split at h
    · next hwords =>
      cases h
      obtain ⟨front, behind, rfl, hfront, hbehind⟩ := exists_span isBlank text
      rw [dropWhile_blanks_append hfront hbehind] at hquoted
      obtain ⟨gap, hgap, -, rfl⟩ := afterStr?_eq_some_iff.mp hquoted
      obtain ⟨written, hwritten, rfl⟩ := Item.unquote?_eq_some_iff.mp hread
      obtain ⟨-, comment, hcomment, rfl⟩ := uncommented?_eq_some_iff.mp hcontent
      have hitem := Spelled.item hfront (.string hgap hwritten) (words_eq_nil_iff.mp hwords) hcomment
      simpa only [List.append_assoc, List.cons_append, List.nil_append] using hitem
    · cases h
  · cases h
  · obtain ⟨content, hcontent, hread⟩ := Option.bind_eq_some_iff.mp h
    obtain ⟨-, comment, hcomment, rfl⟩ := uncommented?_eq_some_iff.mp hcontent
    split at hread
    · next hwords =>
      cases hread
      exact .blank (words_eq_nil_iff.mp hwords) hcomment
    · next hwords =>
      obtain ⟨item, hitem, rfl⟩ := Option.map_eq_some_iff.mp hread
      obtain ⟨word, ws, hcons⟩ := List.exists_cons_of_ne_nil hwords
      rw [hcons] at hitem
      obtain ⟨hunbroken, front, body, back, hfront, hspaced, hback, rfl⟩ := words_eq_cons_iff.mp hcons
      have hws := (Item.ofWords?_eq_some_iff fun word hword => (hunbroken word hword).ne_nil).mp hitem
      have hitem := Spelled.item hfront (.words hws hspaced) hback hcomment
      simpa only [List.append_assoc] using hitem

theorem Line.read?_comment {front comment : List Char} (hfront : Blanks front)
    (hcomment : Comment comment) : read? (front ++ comment) = some .blank := by
  have hstr : afterStr? ((front ++ comment).dropWhile isBlank) = none := by
    rcases hcomment with rfl | ⟨rest, rfl, -⟩
    · rw [dropWhile_blanks_append hfront (fun c hc => by cases hc)]
      rfl
    · rw [dropWhile_blanks_append hfront (fun c hc => by cases hc; rfl)]
      rfl
  have hcontent : uncommented? (front ++ comment) = some front :=
    uncommented?_eq_some_iff.mpr ⟨hfront.not_mem rfl, comment, hcomment, rfl⟩
  unfold read?
  rw [hstr, hcontent]
  simp only [Option.bind_eq_bind, Option.bind_some, words_blanks hfront]

section Item

variable {front back comment text : List Char} (hfront : Blanks front) (hback : Blanks back)
  (hcomment : Comment comment)

include hfront hback hcomment

theorem Line.read?_spaced {item : Item} {ws : List (List Char)} (hwords : item.Words ws)
    (hspaced : Spaced ws text) : read? (front ++ (text ++ (back ++ comment))) = some (.item item) := by
  have hspelled := Item.Spelled.words hwords hspaced
  obtain ⟨word, ws, rfl⟩ : ∃ word rest, ws = word :: rest := by
    cases hspaced <;> exact ⟨_, _, rfl⟩
  obtain ⟨tail, rfl, htail⟩ := hspaced.first
  have hplain := hwords.isWord
  have hunbroken : ∀ w ∈ word :: ws, Unbroken w := fun w hw => unbroken_of_isWord (hplain w hw)
  have hstr : afterStr? ((front ++ (word ++ tail ++ (back ++ comment))).dropWhile isBlank) = none := by
    rw [dropWhile_blanks_append hfront (hspelled.blank_of_head? _), List.append_assoc]
    refine afterStr?_eq_none (hplain word List.mem_cons_self) hwords.ne_str ?_
    exact forall_head?_append (fun c hc => Or.inl (htail c hc)) (head?_behind hback hcomment)
  have hpercent : '%' ∉ front ++ (word ++ tail ++ back) := by
    have hitem : '%' ∉ word ++ tail := hwords.not_mem hspaced (by decide) rfl
    simp only [List.mem_append, not_or] at hitem ⊢
    exact ⟨hfront.not_mem rfl, hitem, hback.not_mem rfl⟩
  have hcontent : uncommented? (front ++ (word ++ tail ++ (back ++ comment)))
      = some (front ++ (word ++ tail ++ back)) :=
    uncommented?_eq_some_iff.mpr ⟨hpercent, comment, hcomment, by simp only [List.append_assoc]⟩
  have hsplit : Text.words (front ++ (word ++ tail ++ back)) = word :: ws :=
    words_eq_cons_iff.mpr ⟨hunbroken, front, _, back, hfront, hspaced, hback, rfl⟩
  have hitem : Item.ofWords? (word :: ws) = some item :=
    (Item.ofWords?_eq_some_iff fun w hw => (hplain w hw).ne_nil).mpr hwords
  unfold read?
  rw [hstr, hcontent]
  simp only [Option.bind_eq_bind, Option.bind_some, hsplit, hitem, Option.map_eq_map, Option.map_some]

theorem Line.read?_quoted {gap written : List Char} (hgap : Gap gap)
    (hwritten : Item.Escapes written text) :
    read? (front ++ (".str".toList ++ (gap ++ '\"' :: (written ++ ['\"'])) ++ (back ++ comment)))
      = some (.item (.string text)) := by
  have hstr : afterStr? ((front ++ (".str".toList ++ (gap ++ '\"' :: (written ++ ['\"']))
      ++ (back ++ comment))).dropWhile isBlank)
        = some ('\"' :: (written ++ '\"' :: (back ++ comment))) := by
    rw [List.append_assoc, dropWhile_blanks_append hfront (fun c hc => by cases hc; rfl)]
    refine afterStr?_eq_some_iff.mpr ⟨gap, hgap, fun c hc => (by cases hc; rfl), ?_⟩
    simp only [List.append_assoc, List.cons_append, List.nil_append]
  have hread : Item.unquote? (written ++ '\"' :: (back ++ comment)) = some (text, back ++ comment) :=
    Item.unquote?_eq_some_iff.mpr ⟨written, hwritten, rfl⟩
  have hcontent : uncommented? (back ++ comment) = some back :=
    uncommented?_eq_some_iff.mpr ⟨hback.not_mem rfl, comment, hcomment, rfl⟩
  unfold read?
  rw [hstr]
  simp only [hread, hcontent, Option.bind_eq_bind, Option.bind_some, words_blanks hback, if_true]

end Item

/-- **What is read of a text is what it spells.** -/
theorem Line.read?_eq_some_iff {text : List Char} {line : Line} :
    read? text = some line ↔ line.Spelled text := by
  refine ⟨spelled_of_read?, fun h => ?_⟩
  cases h with
  | blank hfront hcomment => exact read?_comment hfront hcomment
  | item hfront h hback hcomment =>
    cases h with
    | words hwords hspaced => exact read?_spaced hfront hback hcomment hwords hspaced
    | string hgap hwritten => exact read?_quoted hfront hback hcomment hgap hwritten

/-- No text spells two things. -/
theorem Line.Spelled.unique {text : List Char} {line line' : Line} (h : line.Spelled text)
    (h' : line'.Spelled text) : line = line' := by
  have hread := read?_eq_some_iff.mpr h
  exact Option.some.inj (hread.symm.trans (read?_eq_some_iff.mpr h'))

end ClosureMachine.Assembly
