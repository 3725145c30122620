import ClosureMachine.Proofs.Assembly.Grammar

/-!
# Reading a line from left to right

The same lines are read by a parser that takes what comes next as far as it goes: blanks, letters, digits
and all that is neither a quote nor a backslash. Where a part may be missing, or there is a choice, it
tries one thing after the other from the same place, and is content with the first that works, whatever
comes of the rest of the line.

* **`Parser.line`** is put together of such parsers.
* **`Parser.of_line`**: it reads nothing but what a text spells.
* **`Parser.run_line`**: nor does it miss anything. What follows a part of a line is never more of the
  same, so that it is no mistake to take as much as there is, and the first that works.
* **`Line.read?_grammar`** is about whole lines.
-/

namespace ClosureMachine.Assembly

open Text

/-- Reads the beginning of a text, and hands on what is left of it. -/
abbrev Parser (α : Type) :=
  StateT (List Char) Option α

namespace Parser

variable {α β : Type} {p : Parser α} {text rest front : List Char}

/-! ## Parsers -/

/-- All characters of a class that come next, if there are any. -/
def while1 (p : Char → Bool) : Parser (List Char) := fun text =>
  match text.span p with
  | ([], _) => none
  | split => some split

def while0 (p : Char → Bool) : Parser (List Char) := fun text =>
  some (text.span p)

/-- Exactly this text. -/
def tag (front : List Char) : Parser Unit := fun text =>
  if front <+: text then some ((), text.drop front.length) else none

/-- As often as it works. A parser that would go on without reading anything is an error. -/
def many0 (p : Parser α) : Parser (List α) := fun text =>
  match p.run text with
  | none => some ([], text)
  | some (x, rest) =>
    if rest.length < text.length then
      (many0 p rest).map fun (xs, rest) => (x :: xs, rest)
    else
      none
  termination_by text => text.length

def ends : Parser Unit := fun text =>
  if text = [] then some ((), []) else none

def integer : Parser Int64 := do
  let minus ← optional (tag ['-'])
  let digits ← while1 Char.isDigit
  StateT.lift (Item.int64? (if minus.isSome then '-' :: digits else digits))

/-- A stretch of a string without quotes and backslashes, or one of these behind a backslash. -/
def piece : Parser (List Char) :=
  while1 (fun c => c != '\"' && c != '\\')
    <|> (do tag ['\\', '\"']; return ['\"'])
    <|> (do tag ['\\', '\\']; return ['\\'])

def literal : Parser (List Char) := do
  tag ['\"']
  let pieces ← many0 piece
  tag ['\"']
  return pieces.flatten

def comment : Parser Unit := do
  tag ['%']
  let _ ← optional (while1 fun c => c != '\n' && c != '\r')

/-- Another word of a line, which is a numeral. -/
def operand : Parser (List Char) := do
  let _ ← while1 isBlank
  while1 Char.isDigit

def directive : Parser Item :=
  (do tag ".int".toList; let _ ← while1 isBlank; return .integer (← integer))
    <|> (do tag ".str".toList; let _ ← while1 isBlank; return .string (← literal))
    <|> (do tag ".function".toList; return .function (← operand) (← operand))
    <|> (do tag ".end".toList; return .endFunction)

def instruction : Parser Item := do
  let _ ← optional (do let _ ← while1 Char.isDigit; while1 isBlank)
  let name ← while1 Char.isAlpha
  return .instruction name (← many0 operand)

def line : Parser Line := do
  let _ ← while0 isBlank
  let item ← optional (directive <|> instruction)
  let _ ← while0 isBlank
  let _ ← optional comment
  ends
  return item.elim .blank .item

/-! ## What a parser takes -/

section Run

variable {x : α} {y : β} {f : α → Parser β} {q : Parser α}

theorem run_bind_of_some (h : p.run text = some (x, rest)) : (p >>= f).run text = (f x).run rest := by
  rw [StateT.run_bind, h]
  rfl

theorem run_bind_of_none (h : p.run text = none) : (p >>= f).run text = none := by
  rw [StateT.run_bind, h]
  rfl

theorem exists_of_run_bind (h : (p >>= f).run text = some (y, rest)) :
    ∃ x behind, p.run text = some (x, behind) ∧ (f x).run behind = some (y, rest) := by
  rw [StateT.run_bind] at h
  obtain ⟨⟨x, behind⟩, hp, hf⟩ := Option.bind_eq_some_iff.mp h
  exact ⟨x, behind, hp, hf⟩

theorem run_orElse_of_some (h : p.run text = some (x, rest)) :
    (p <|> q).run text = some (x, rest) := by
  rw [StateT.run_orElse, h]
  rfl

theorem run_orElse_of_none (h : p.run text = none) : (p <|> q).run text = q.run text := by
  rw [StateT.run_orElse, h]
  rfl

theorem run_orElse_cases (h : (p <|> q).run text = some (x, rest)) :
    p.run text = some (x, rest) ∨ q.run text = some (x, rest) := by
  rw [StateT.run_orElse] at h
  cases hp : p.run text with
  | none =>
    rw [hp] at h
    exact Or.inr h
  | some r =>
    rw [hp] at h
    exact Or.inl h

theorem run_optional_of_some (h : p.run text = some (x, rest)) :
    (optional p).run text = some (some x, rest) := by
  refine run_orElse_of_some ?_
  rw [StateT.run_map, h]
  rfl

theorem run_optional_of_none (h : p.run text = none) :
    (optional p).run text = some (none, text) := by
  refine (run_orElse_of_none ?_).trans rfl
  rw [StateT.run_map, h]
  rfl

theorem run_optional_cases {x? : Option α} (h : (optional p).run text = some (x?, rest)) :
    (∃ x, x? = some x ∧ p.run text = some (x, rest)) ∨ x? = none ∧ rest = text := by
  cases hp : p.run text with
  | none =>
    rw [run_optional_of_none hp] at h
    cases h
    exact Or.inr ⟨rfl, rfl⟩
  | some r =>
    rw [run_optional_of_some hp] at h
    cases h
    exact Or.inl ⟨_, rfl, rfl⟩

end Run

section Characters

variable {p : Char → Bool}

theorem run_while0 (hfront : ∀ c ∈ front, p c = true) (hrest : ∀ c ∈ rest.head?, p c = false) :
    (while0 p).run (front ++ rest) = some (front, rest) :=
  congrArg some (span_append hfront hrest)

theorem run_while1 (hne : front ≠ []) (hfront : ∀ c ∈ front, p c = true)
    (hrest : ∀ c ∈ rest.head?, p c = false) : (while1 p).run (front ++ rest) = some (front, rest) := by
  show (match (front ++ rest).span p with
    | ([], _) => none
    | split => some split) = _
  rw [span_append hfront hrest]
  obtain ⟨c, front, rfl⟩ := List.exists_cons_of_ne_nil hne
  rfl

theorem run_while1_of_head? (h : ∀ c ∈ text.head?, p c = false) : (while1 p).run text = none := by
  show (match ([] ++ text).span p with
    | ([], _) => none
    | split => some split) = _
  rw [span_append (fun c hc => by cases hc) h]

theorem of_while0 (h : (while0 p).run text = some (front, rest)) :
    text = front ++ rest ∧ ∀ c ∈ front, p c = true := by
  obtain ⟨front', rest', rfl, hfront, hrest⟩ := exists_span p text
  rw [run_while0 hfront hrest] at h
  cases h
  exact ⟨rfl, hfront⟩

theorem of_while1 (h : (while1 p).run text = some (front, rest)) :
    text = front ++ rest ∧ front ≠ [] ∧ ∀ c ∈ front, p c = true := by
  obtain ⟨front', rest', rfl, hfront, hrest⟩ := exists_span p text
  cases front' with
  | nil =>
    rw [List.nil_append, run_while1_of_head? hrest] at h
    cases h
  | cons c front' =>
    rw [run_while1 (List.cons_ne_nil _ _) hfront hrest] at h
    cases h
    exact ⟨rfl, List.cons_ne_nil _ _, hfront⟩

end Characters

theorem run_tag (front rest : List Char) : (tag front).run (front ++ rest) = some ((), rest) := by
  show (if front <+: front ++ rest then some ((), (front ++ rest).drop front.length) else none) = _
  rw [if_pos (List.prefix_append _ _), List.drop_left]

theorem of_tag (h : (tag front).run text = some ((), rest)) : text = front ++ rest := by
  change (if front <+: text then some ((), text.drop front.length) else none) = _ at h
  split at h
  · next hfront =>
    cases h
    exact (List.prefix_iff_eq_append.mp hfront).symm
  · cases h

theorem run_tag_of_head? {c : Char} (hfront : front.head? = some c) (h : ∀ d ∈ text.head?, d ≠ c) :
    (tag front).run text = none := by
  show (if front <+: text then some ((), text.drop front.length) else none) = _
  refine if_neg ?_
  rintro ⟨rest, rfl⟩
  exact h c (by rw [List.head?_append, hfront]; rfl) rfl

/-- What is read by going on is read piece by piece. -/
theorem of_many0 {R : α → List Char → Prop}
    (hp : ∀ {text x rest}, p.run text = some (x, rest) → ∃ front, R x front ∧ text = front ++ rest)
    {xs : List α} (h : (many0 p).run text = some (xs, rest)) :
    ∃ fronts, List.Forall₂ R xs fronts ∧ text = fronts.flatten ++ rest := by
  change many0 p text = _ at h
  fun_induction many0 p text generalizing xs with
  | case1 text hnone =>
    cases h
    exact ⟨[], .nil, rfl⟩
  | case2 text x behind hsome hless ih =>
    obtain ⟨⟨xs, rest⟩, hmany, hpair⟩ := Option.map_eq_some_iff.mp h
    cases hpair
    obtain ⟨front, hx, rfl⟩ := hp hsome
    obtain ⟨fronts, hxs, rfl⟩ := ih hmany
    exact ⟨front :: fronts, .cons hx hxs, by simp⟩
  | case3 => cases h

theorem run_many0_nil (h : p.run text = none) : (many0 p).run text = some ([], text) := by
  show many0 p text = _
  rw [many0, h]

theorem run_many0_cons {x : α} {xs : List α} {behind : List Char}
    (h : p.run text = some (x, behind)) (hless : behind.length < text.length)
    (hrest : (many0 p).run behind = some (xs, rest)) :
    (many0 p).run text = some (x :: xs, rest) := by
  change many0 p behind = _ at hrest
  show many0 p text = _
  rw [many0, h]
  simp only [if_pos hless, hrest, Option.map_some]

/-! ## The parts of a line -/

open Item (Denotes Escapes IsName)

theorem isNumeral_iff {digits : List Char} : Decimal.isNumeral digits = true
    ↔ digits ≠ [] ∧ ∀ c ∈ digits, c.isDigit = true := by
  simp [Decimal.isNumeral]

theorem of_integer {n : Int64} (h : integer.run text = some (n, rest)) :
    ∃ word, Denotes word n ∧ text = word ++ rest := by
  obtain ⟨minus, behind, hminus, hrest⟩ := exists_of_run_bind h
  obtain ⟨digits, behind', hdigits, hword⟩ := exists_of_run_bind hrest
  obtain ⟨rfl, -, -⟩ := of_while1 hdigits
  rw [StateT.run_lift] at hword
  obtain ⟨n', hn, hpair⟩ := Option.bind_eq_some_iff.mp hword
  cases hpair
  have hn := Item.int64?_eq_some_iff.mp hn
  rcases run_optional_cases hminus with ⟨_, rfl, htag⟩ | ⟨rfl, rfl⟩
  · have htext := of_tag htag
    exact ⟨'-' :: digits, hn, htext⟩
  · exact ⟨digits, hn, rfl⟩

theorem run_integer {word : List Char} {n : Int64} (hn : Denotes word n)
    (hrest : ∀ c ∈ rest.head?, c.isDigit = false) : integer.run (word ++ rest) = some (n, rest) := by
  have hread := Item.int64?_eq_some_iff.mpr hn
  cases hn with
  | numeral h =>
    obtain ⟨hne, hall⟩ := isNumeral_iff.mp h
    have hminus : (tag ['-']).run (word ++ rest) = none := by
      obtain ⟨c, digits, rfl⟩ := List.exists_cons_of_ne_nil hne
      refine run_tag_of_head? rfl fun d hd => ?_
      cases hd
      rintro rfl
      cases hall _ List.mem_cons_self
    unfold integer
    rw [run_bind_of_some (run_optional_of_none hminus), run_bind_of_some (run_while1 hne hall hrest),
      StateT.run_lift]
    simp only [Option.isSome_none, Bool.false_eq_true, if_false, hread]
    rfl
  | @minus digits _ h =>
    obtain ⟨hne, hall⟩ := isNumeral_iff.mp h
    have hminus : (tag ['-']).run ('-' :: digits ++ rest) = some ((), digits ++ rest) :=
      run_tag ['-'] (digits ++ rest)
    unfold integer
    rw [run_bind_of_some (run_optional_of_some hminus), run_bind_of_some (run_while1 hne hall hrest),
      StateT.run_lift]
    simp only [Option.isSome_some, if_true, hread]
    rfl

theorem escapes_of_plain {text : List Char} (h : ∀ c ∈ text, (c != '\"' && c != '\\') = true) :
    Escapes text text := by
  induction text with
  | nil => exact .nil
  | cons c text ih =>
    obtain ⟨hc, hrest⟩ := List.forall_mem_cons.mp h
    rw [Bool.and_eq_true, bne_iff_ne, bne_iff_ne] at hc
    exact .plain hc.1 hc.2 (ih hrest)

theorem escapes_append {written text written' text' : List Char} (h : Escapes written text)
    (h' : Escapes written' text') : Escapes (written ++ written') (text ++ text') := by
  induction h with
  | nil => exact h'
  | plain hquote hslash _ ih => exact .plain hquote hslash ih
  | escaped hc _ ih => exact .escaped hc ih

theorem escapes_flatten {pieces fronts : List (List Char)}
    (h : List.Forall₂ (fun x written => Escapes written x) pieces fronts) :
    Escapes fronts.flatten pieces.flatten := by
  induction h with
  | nil => exact .nil
  | cons hx _ ih => exact escapes_append hx ih

theorem of_piece {x : List Char} (h : piece.run text = some (x, rest)) :
    ∃ written, Escapes written x ∧ text = written ++ rest := by
  rcases run_orElse_cases h with h | h
  · obtain ⟨rfl, -, hx⟩ := of_while1 h
    exact ⟨x, escapes_of_plain hx, rfl⟩
  · rcases run_orElse_cases h with h | h
    · obtain ⟨_, behind, htag, hpair⟩ := exists_of_run_bind h
      cases hpair
      exact ⟨_, .escaped (Or.inl rfl) .nil, of_tag htag⟩
    · obtain ⟨_, behind, htag, hpair⟩ := exists_of_run_bind h
      cases hpair
      exact ⟨_, .escaped (Or.inr rfl) .nil, of_tag htag⟩

theorem of_literal {x : List Char} (h : literal.run text = some (x, rest)) :
    ∃ written, Escapes written x ∧ text = '\"' :: (written ++ '\"' :: rest) := by
  obtain ⟨_, behind, hopen, hrest⟩ := exists_of_run_bind h
  obtain ⟨pieces, behind', hpieces, hrest'⟩ := exists_of_run_bind hrest
  obtain ⟨_, behind'', hclose, hpair⟩ := exists_of_run_bind hrest'
  cases hpair
  obtain ⟨fronts, hfronts, hbehind⟩ := of_many0 (R := fun x written => Escapes written x) of_piece hpieces
  refine ⟨fronts.flatten, escapes_flatten hfronts, ?_⟩
  rw [of_tag hopen, hbehind, of_tag hclose]
  rfl

/-- A string begins with a stretch of plain characters, and goes on with a backslash if at all. -/
theorem exists_plain {written x : List Char} (h : Escapes written x) :
    ∃ plain written' x', (∀ c ∈ plain, (c != '\"' && c != '\\') = true) ∧ Escapes written' x'
      ∧ (∀ c ∈ written'.head?, c = '\\') ∧ written = plain ++ written' ∧ x = plain ++ x' := by
  induction h with
  | nil => exact ⟨[], [], [], fun c hc => (by cases hc), .nil, fun c hc => (by cases hc), rfl, rfl⟩
  | @plain c _ _ hquote hslash _ ih =>
    obtain ⟨plain, written', x', hplain, h, hhead, rfl, rfl⟩ := ih
    have hc : (c != '\"' && c != '\\') = true := by simp [hquote, hslash]
    exact ⟨c :: plain, written', x', List.forall_mem_cons.mpr ⟨hc, hplain⟩, h, hhead, rfl, rfl⟩
  | @escaped c written x hc h =>
    exact ⟨[], '\\' :: c :: written, c :: x, fun c hc => (by cases hc), .escaped hc h,
      fun c hc => (by cases hc; rfl), rfl, rfl⟩

theorem run_piece_escaped {c : Char} (hc : c = '\"' ∨ c = '\\') (rest : List Char) :
    piece.run ('\\' :: c :: rest) = some ([c], rest) := by
  have hplain : (while1 fun c => c != '\"' && c != '\\').run ('\\' :: c :: rest) = none := by
    refine run_while1_of_head? fun d hd => ?_
    cases hd
    rfl
  unfold piece
  rw [run_orElse_of_none hplain]
  rcases hc with rfl | rfl
  · exact run_orElse_of_some (run_bind_of_some (run_tag ['\\', '\"'] rest))
  · rw [run_orElse_of_none (run_bind_of_none ?_)]
    · exact run_bind_of_some (run_tag ['\\', '\\'] rest)
    · rfl

theorem run_piece_quote (rest : List Char) : piece.run ('\"' :: rest) = none := by
  have hplain : (while1 fun c => c != '\"' && c != '\\').run ('\"' :: rest) = none := by
    refine run_while1_of_head? fun d hd => ?_
    cases hd
    rfl
  unfold piece
  rw [run_orElse_of_none hplain, run_orElse_of_none (run_bind_of_none rfl)]
  exact run_bind_of_none rfl

theorem run_pieces {written x : List Char} (h : Escapes written x) (rest : List Char) :
    ∃ pieces, (many0 piece).run (written ++ '\"' :: rest) = some (pieces, '\"' :: rest)
      ∧ pieces.flatten = x := by
  induction hlen : written.length using Nat.strongRecOn generalizing written x with
  | ind length ih =>
    obtain ⟨plain, written', x', hplain, h', hhead, rfl, rfl⟩ := exists_plain h
    by_cases hne : plain = []
    · subst hne
      cases h' with
      | nil => exact ⟨[], run_many0_nil (run_piece_quote rest), rfl⟩
      | plain _ hslash => exact absurd (hhead _ rfl) hslash
      | @escaped c written x hc hrest =>
        obtain ⟨pieces, hpieces, rfl⟩ := ih written.length (by simp at hlen; omega) hrest rfl
        have hless : (written ++ '\"' :: rest).length < ('\\' :: c :: (written ++ '\"' :: rest)).length :=
          Nat.lt_succ_of_lt (Nat.lt_succ_self _)
        exact ⟨[c] :: pieces, run_many0_cons (run_piece_escaped hc _) hless hpieces, rfl⟩
    · have hpos : 0 < plain.length := List.length_pos_iff.mpr hne
      have hread : piece.run (plain ++ (written' ++ '\"' :: rest))
          = some (plain, written' ++ '\"' :: rest) := by
        refine run_orElse_of_some (run_while1 hne hplain (forall_head?_append ?_ ?_))
        · exact fun c hc => by rw [hhead c hc]; rfl
        · exact fun c hc => by cases hc; rfl
      obtain ⟨pieces, hpieces, rfl⟩ := ih written'.length (by simp at hlen; omega) h' rfl
      refine ⟨plain :: pieces, ?_, rfl⟩
      rw [List.append_assoc]
      exact run_many0_cons hread (by simp; omega) hpieces

theorem run_literal {written x : List Char} (h : Escapes written x) (rest : List Char) :
    literal.run ('\"' :: (written ++ '\"' :: rest)) = some (x, rest) := by
  obtain ⟨pieces, hpieces, rfl⟩ := run_pieces h rest
  refine (run_bind_of_some (run_tag ['\"'] _)).trans ?_
  refine (run_bind_of_some hpieces).trans ?_
  exact run_bind_of_some (run_tag ['\"'] _)

/-! ## Items -/

theorem of_operand {word : List Char} (h : operand.run text = some (word, rest)) :
    ∃ front, (Decimal.isNumeral word = true ∧ ∃ gap, Gap gap ∧ front = gap ++ word)
      ∧ text = front ++ rest := by
  obtain ⟨gap, rest₁, hgap, hdigits⟩ := exists_of_run_bind h
  obtain ⟨rfl, hne, hblanks⟩ := of_while1 hgap
  obtain ⟨rfl, hnumeral⟩ := of_while1 hdigits
  exact ⟨gap ++ word, ⟨isNumeral_iff.mpr hnumeral, gap, ⟨hne, hblanks⟩, rfl⟩,
    (List.append_assoc ..).symm⟩

theorem run_operand {gap word : List Char} (hgap : Gap gap) (hword : Decimal.isNumeral word = true)
    (hrest : ∀ c ∈ rest.head?, c.isDigit = false) :
    operand.run (gap ++ (word ++ rest)) = some (word, rest) := by
  obtain ⟨hne, hall⟩ := isNumeral_iff.mp hword
  have hunbroken := unbroken_of_isWord (isWord_of_isNumeral hword)
  have hblanks := run_while1 hgap.ne_nil hgap.blanks (hunbroken.blank_of_head? rest)
  exact (run_bind_of_some hblanks).trans (run_while1 hne hall hrest)

/-- Operands are read as words with gaps in front of them. -/
theorem of_operands {operands : List (List Char)}
    (h : (many0 operand).run text = some (operands, rest)) :
    (∀ word ∈ operands, Decimal.isNumeral word = true)
      ∧ ∃ tail, text = tail ++ rest ∧ ∀ word, Spaced (word :: operands) (word ++ tail) := by
  obtain ⟨fronts, hfronts, rfl⟩ := of_many0 of_operand h
  suffices hall : (∀ word ∈ operands, Decimal.isNumeral word = true)
      ∧ ∀ word, Spaced (word :: operands) (word ++ fronts.flatten) from
    ⟨hall.1, fronts.flatten, rfl, hall.2⟩
  clear h
  induction hfronts with
  | nil =>
    refine ⟨fun word hword => (by cases hword), fun word => ?_⟩
    rw [List.flatten_nil, List.append_nil]
    exact .last word
  | @cons operand _ operands fronts hoperand _ ih =>
    obtain ⟨hnumeral, gap, hgap, rfl⟩ := hoperand
    refine ⟨List.forall_mem_cons.mpr ⟨hnumeral, ih.1⟩, fun word => ?_⟩
    rw [List.flatten_cons, List.append_assoc]
    exact .cons hgap (ih.2 operand)

theorem of_directive {item : Item} (h : directive.run text = some (item, rest)) :
    ∃ front, item.Spelled front ∧ text = front ++ rest := by
  rcases run_orElse_cases h with h | h
  · obtain ⟨_, rest₁, htag, h⟩ := exists_of_run_bind h
    obtain ⟨gap, rest₂, hgap, h⟩ := exists_of_run_bind h
    obtain ⟨n, rest₃, hinteger, hpair⟩ := exists_of_run_bind h
    cases hpair
    obtain ⟨rfl, hne, hblanks⟩ := of_while1 hgap
    obtain ⟨word, hn, rfl⟩ := of_integer hinteger
    refine ⟨_, .words (.integer hn) (.cons ⟨hne, hblanks⟩ (.last word)), ?_⟩
    rw [of_tag htag]
    simp only [List.append_assoc]
  rcases run_orElse_cases h with h | h
  · obtain ⟨_, rest₁, htag, h⟩ := exists_of_run_bind h
    obtain ⟨gap, rest₂, hgap, h⟩ := exists_of_run_bind h
    obtain ⟨x, rest₃, hx, hpair⟩ := exists_of_run_bind h
    cases hpair
    obtain ⟨rfl, hne, hblanks⟩ := of_while1 hgap
    obtain ⟨written, hwritten, rfl⟩ := of_literal hx
    refine ⟨_, .string ⟨hne, hblanks⟩ hwritten, ?_⟩
    rw [of_tag htag]
    simp only [List.append_assoc, List.cons_append, List.nil_append]
  rcases run_orElse_cases h with h | h
  · obtain ⟨_, rest₁, htag, h⟩ := exists_of_run_bind h
    obtain ⟨params, rest₂, hfirst, h⟩ := exists_of_run_bind h
    obtain ⟨locals, rest₃, hsecond, hpair⟩ := exists_of_run_bind h
    cases hpair
    obtain ⟨_, ⟨hparams, gap, hgap, rfl⟩, rfl⟩ := of_operand hfirst
    obtain ⟨_, ⟨hlocals, gap', hgap', rfl⟩, rfl⟩ := of_operand hsecond
    refine ⟨_, .words (.function hparams hlocals) (.cons hgap (.cons hgap' (.last locals))), ?_⟩
    rw [of_tag htag]
    simp only [List.append_assoc]
  · obtain ⟨_, rest₁, htag, hpair⟩ := exists_of_run_bind h
    cases hpair
    exact ⟨_, .words .endFunction (.last _), of_tag htag⟩

theorem of_instruction {item : Item} (h : instruction.run text = some (item, rest)) :
    ∃ front, item.Spelled front ∧ text = front ++ rest := by
  obtain ⟨offset, rest₁, hoffset, h⟩ := exists_of_run_bind h
  obtain ⟨name, rest₂, hname, h⟩ := exists_of_run_bind h
  obtain ⟨operands, rest₃, hoperands, hpair⟩ := exists_of_run_bind h
  cases hpair
  obtain ⟨rfl, hne, hletters⟩ := of_while1 hname
  obtain ⟨hnumerals, tail, rfl, hspaced⟩ := of_operands hoperands
  rcases run_optional_cases hoffset with ⟨gap, -, hoffset⟩ | ⟨-, rfl⟩
  · obtain ⟨number, rest₄, hdigits, hblanks⟩ := exists_of_run_bind hoffset
    obtain ⟨rfl, hnumber⟩ := of_while1 hdigits
    obtain ⟨rfl, hgap⟩ := of_while1 hblanks
    refine ⟨_, .words (.offset (isNumeral_iff.mpr hnumber) ⟨hne, hletters⟩ hnumerals)
      (.cons ⟨hgap.1, hgap.2⟩ (hspaced name)), ?_⟩
    simp only [List.append_assoc]
  · exact ⟨_, .words (.instruction ⟨hne, hletters⟩ hnumerals) (hspaced name),
      (List.append_assoc ..).symm⟩

theorem of_comment (h : comment.run text = some ((), rest)) :
    ∃ written, '\r' ∉ written ∧ text = '%' :: (written ++ rest) := by
  obtain ⟨_, rest₁, htag, h⟩ := exists_of_run_bind h
  obtain ⟨written?, rest₂, hwritten, hpair⟩ := exists_of_run_bind h
  cases hpair
  rw [of_tag htag]
  rcases run_optional_cases hwritten with ⟨written, -, hwritten⟩ | ⟨-, rfl⟩
  · obtain ⟨rfl, -, hall⟩ := of_while1 hwritten
    refine ⟨written, fun hreturn => ?_, rfl⟩
    cases hall _ hreturn
  · exact ⟨[], List.not_mem_nil, rfl⟩

theorem of_ends (h : ends.run text = some ((), rest)) : text = [] ∧ rest = [] := by
  change (if text = [] then some ((), []) else none) = _ at h
  split at h
  · next htext =>
    cases h
    exact ⟨htext, rfl⟩
  · cases h

/-- **Only lines are read.** -/
theorem of_line {line : Line} (h : Parser.line.run text = some (line, rest)) :
    rest = [] ∧ line.Spelled text := by
  obtain ⟨front, rest₁, hspace, h⟩ := exists_of_run_bind h
  obtain ⟨item?, rest₂, hitem?, h⟩ := exists_of_run_bind h
  obtain ⟨back, rest₃, hspace', h⟩ := exists_of_run_bind h
  obtain ⟨comment?, rest₄, hcomment?, h⟩ := exists_of_run_bind h
  obtain ⟨_, rest₅, hends, hpair⟩ := exists_of_run_bind h
  cases hpair
  obtain ⟨rfl, rfl⟩ := of_ends hends
  obtain ⟨rfl, hfront⟩ := of_while0 hspace
  obtain ⟨rfl, hback⟩ := of_while0 hspace'
  have hcomment : Comment rest₃ := by
    rcases run_optional_cases hcomment? with ⟨_, -, hpercent⟩ | ⟨-, rfl⟩
    · obtain ⟨written, hreturn, rfl⟩ := of_comment hpercent
      exact Or.inr ⟨written, by rw [List.append_nil], hreturn⟩
    · exact Or.inl rfl
  refine ⟨rfl, ?_⟩
  rcases run_optional_cases hitem? with ⟨item, rfl, hread⟩ | ⟨rfl, rfl⟩
  · obtain ⟨body, hbody, rfl⟩ : ∃ body, item.Spelled body ∧ rest₁ = body ++ (back ++ rest₃) := by
      rcases run_orElse_cases hread with hdirective | hinstruction
      · exact of_directive hdirective
      · exact of_instruction hinstruction
    exact .item hfront hbody hback hcomment
  · rw [← List.append_assoc]
    exact .blank (List.forall_mem_append.mpr ⟨hfront, hback⟩) hcomment

/-! ## Nothing is missed -/

theorem not_alphanum_of_behind {c : Char} (h : isBlank c = true ∨ c = '%') :
    c.isDigit = false ∧ c.isAlpha = false := by
  simp only [isBlank, Bool.or_eq_true, beq_iff_eq] at h
  rcases h with (rfl | rfl) | rfl <;> decide

theorem not_blank_of_comment {comment : List Char} (hcomment : Comment comment) :
    ∀ c ∈ comment.head?, isBlank c = false := by
  intro c hc
  rw [(comment_iff.mp hcomment).1 c hc]
  rfl

section Directives

variable {gap : List Char}

theorem run_directive_of_head? (h : ∀ c ∈ text.head?, c ≠ '.') : directive.run text = none := by
  have htag : ∀ {front}, front.head? = some '.' → (tag front).run text = none := fun hfront =>
    run_tag_of_head? hfront h
  refine (run_orElse_of_none (run_bind_of_none (htag rfl))).trans ?_
  refine (run_orElse_of_none (run_bind_of_none (htag rfl))).trans ?_
  refine (run_orElse_of_none (run_bind_of_none (htag rfl))).trans ?_
  exact run_bind_of_none (htag rfl)

theorem run_directive_integer {word : List Char} {n : Int64} (hgap : Gap gap) (hn : Denotes word n)
    (hrest : ∀ c ∈ rest.head?, c.isDigit = false) :
    directive.run (".int".toList ++ (gap ++ (word ++ rest))) = some (.integer n, rest) := by
  have hword := unbroken_of_isWord hn.isWord
  refine run_orElse_of_some ((run_bind_of_some (run_tag _ _)).trans ?_)
  refine (run_bind_of_some (run_while1 hgap.ne_nil hgap.blanks (hword.blank_of_head? _))).trans ?_
  exact (run_bind_of_some (run_integer hn hrest)).trans rfl

theorem run_directive_string {written x : List Char} (hgap : Gap gap) (h : Escapes written x)
    (rest : List Char) :
    directive.run (".str".toList ++ (gap ++ '\"' :: (written ++ '\"' :: rest)))
      = some (.string x, rest) := by
  have hquote : ∀ c ∈ ('\"' :: (written ++ '\"' :: rest)).head?, isBlank c = false := by
    rintro c ⟨⟩
    rfl
  refine (run_orElse_of_none (run_bind_of_none rfl)).trans (run_orElse_of_some ?_)
  refine (run_bind_of_some (run_tag _ _)).trans ?_
  refine (run_bind_of_some (run_while1 hgap.ne_nil hgap.blanks hquote)).trans ?_
  exact (run_bind_of_some (run_literal h rest)).trans rfl

theorem run_directive_function {gap' params locals : List Char} (hgap : Gap gap) (hgap' : Gap gap')
    (hparams : Decimal.isNumeral params = true) (hlocals : Decimal.isNumeral locals = true)
    (hrest : ∀ c ∈ rest.head?, c.isDigit = false) :
    directive.run (".function".toList ++ (gap ++ (params ++ (gap' ++ (locals ++ rest)))))
      = some (.function params locals, rest) := by
  have hmiddle : ∀ c ∈ (gap' ++ (locals ++ rest)).head?, c.isDigit = false := fun c hc =>
    (not_alphanum_of_behind (Or.inl (hgap'.blank_of_head? _ c hc))).1
  refine (run_orElse_of_none (run_bind_of_none rfl)).trans ?_
  refine (run_orElse_of_none (run_bind_of_none rfl)).trans (run_orElse_of_some ?_)
  refine (run_bind_of_some (run_tag _ _)).trans ?_
  refine (run_bind_of_some (run_operand hgap hparams hmiddle)).trans ?_
  exact (run_bind_of_some (run_operand hgap' hlocals hrest)).trans rfl

theorem run_directive_end (rest : List Char) :
    directive.run (".end".toList ++ rest) = some (.endFunction, rest) := by
  refine (run_orElse_of_none (run_bind_of_none rfl)).trans ?_
  refine (run_orElse_of_none (run_bind_of_none rfl)).trans ?_
  refine (run_orElse_of_none (run_bind_of_none rfl)).trans ?_
  exact (run_bind_of_some (run_tag _ _)).trans rfl

end Directives

section Instructions

variable {back comment name body : List Char} {operands : List (List Char)} (hback : Blanks back)
  (hcomment : Comment comment)

include hback hcomment

/-- There is no other operand where the item ends. -/
theorem run_operand_end : operand.run (back ++ comment) = none := by
  have hblank := not_blank_of_comment hcomment
  by_cases hne : back = []
  · rw [hne, List.nil_append]
    exact run_bind_of_none (run_while1_of_head? hblank)
  · have hdigits : (while1 Char.isDigit).run comment = none := run_while1_of_head? fun c hc =>
      (not_alphanum_of_behind (Or.inr ((comment_iff.mp hcomment).1 c hc))).1
    exact (run_bind_of_some (run_while1 hne hback hblank)).trans hdigits

theorem run_operands {word body : List Char} {operands : List (List Char)}
    (hspaced : Spaced (word :: operands) body)
    (hoperands : ∀ operand ∈ operands, Decimal.isNumeral operand = true) :
    ∃ tail, body = word ++ tail ∧ (∀ c ∈ tail.head?, isBlank c = true)
      ∧ (many0 operand).run (tail ++ (back ++ comment)) = some (operands, back ++ comment) := by
  induction operands generalizing word body with
  | nil =>
    cases hspaced with
    | last =>
      refine ⟨[], (List.append_nil _).symm, fun c hc => (by cases hc), ?_⟩
      rw [List.nil_append]
      exact run_many0_nil (run_operand_end hback hcomment)
    | cons _ h => cases h
  | cons next operands ih =>
    obtain ⟨hnext, hoperands⟩ := List.forall_mem_cons.mp hoperands
    cases hspaced with
    | @cons _ gap _ _ hgap hspaced =>
      obtain ⟨tail, rfl, htail, hmany⟩ := ih hspaced hoperands
      have hrest : ∀ c ∈ (tail ++ (back ++ comment)).head?, c.isDigit = false := fun c hc =>
        (not_alphanum_of_behind (forall_head?_append (fun c hc => Or.inl (htail c hc))
          (head?_behind hback hcomment) c hc)).1
      refine ⟨gap ++ (next ++ tail), rfl, hgap.blank_of_head? _, ?_⟩
      have hpos := List.length_pos_iff.mpr hgap.ne_nil
      rw [List.append_assoc, List.append_assoc]
      exact run_many0_cons (run_operand hgap hnext hrest) (by simp; omega) hmany

variable (hname : IsName name) (hspaced : Spaced (name :: operands) body)
  (hoperands : ∀ operand ∈ operands, Decimal.isNumeral operand = true)

include hname hspaced hoperands

theorem run_name_operands :
    (do let name ← while1 Char.isAlpha; return .instruction name (← many0 operand) : Parser Item).run
        (body ++ (back ++ comment)) = some (.instruction name operands, back ++ comment) := by
  obtain ⟨tail, rfl, htail, hmany⟩ := run_operands hback hcomment hspaced hoperands
  have hrest : ∀ c ∈ (tail ++ (back ++ comment)).head?, c.isAlpha = false := fun c hc =>
    (not_alphanum_of_behind (forall_head?_append (fun c hc => Or.inl (htail c hc))
      (head?_behind hback hcomment) c hc)).2
  rw [List.append_assoc]
  exact (run_bind_of_some (run_while1 hname.ne_nil hname.letters hrest)).trans
    ((run_bind_of_some hmany).trans rfl)

theorem run_instruction : (directive <|> instruction).run (body ++ (back ++ comment))
    = some (.instruction name operands, back ++ comment) := by
  have hhead : ∀ c ∈ (body ++ (back ++ comment)).head?, c.isAlpha = true := by
    obtain ⟨tail, rfl, -⟩ := hspaced.first
    rw [List.append_assoc]
    exact fun c hc => hname.letters c (mem_of_head?_append hname.ne_nil _ c hc)
  have hdot : ∀ c ∈ (body ++ (back ++ comment)).head?, c ≠ '.' := by
    rintro c hc rfl
    cases hhead _ hc
  have hoffset : (do let _ ← while1 Char.isDigit; while1 isBlank : Parser (List Char)).run
      (body ++ (back ++ comment)) = none :=
    run_bind_of_none (run_while1_of_head? fun c hc => isDigit_of_isAlpha (hhead c hc))
  refine (run_orElse_of_none (run_directive_of_head? hdot)).trans ?_
  refine (run_bind_of_some (run_optional_of_none hoffset)).trans ?_
  exact run_name_operands hback hcomment hname hspaced hoperands

theorem run_instruction_offset {number gap : List Char} (hnumber : Decimal.isNumeral number = true)
    (hgap : Gap gap) :
    (directive <|> instruction).run (number ++ (gap ++ (body ++ (back ++ comment))))
      = some (.instruction name operands, back ++ comment) := by
  obtain ⟨hne, hdigits⟩ := isNumeral_iff.mp hnumber
  have hdot : ∀ c ∈ (number ++ (gap ++ (body ++ (back ++ comment)))).head?, c ≠ '.' := by
    rintro c hc rfl
    cases hdigits _ (mem_of_head?_append hne _ _ hc)
  have hmiddle : ∀ c ∈ (gap ++ (body ++ (back ++ comment))).head?, c.isDigit = false := fun c hc =>
    (not_alphanum_of_behind (Or.inl (hgap.blank_of_head? _ c hc))).1
  have hbody : ∀ c ∈ (body ++ (back ++ comment)).head?, isBlank c = false := by
    obtain ⟨tail, rfl, -⟩ := hspaced.first
    rw [List.append_assoc]
    exact (unbroken_of_isWord hname.isWord).blank_of_head? _
  have hoffset : (do let _ ← while1 Char.isDigit; while1 isBlank : Parser (List Char)).run
      (number ++ (gap ++ (body ++ (back ++ comment)))) = some (gap, body ++ (back ++ comment)) :=
    (run_bind_of_some (run_while1 hne hdigits hmiddle)).trans
      (run_while1 hgap.ne_nil hgap.blanks hbody)
  refine (run_orElse_of_none (run_directive_of_head? hdot)).trans ?_
  refine (run_bind_of_some (run_optional_of_some hoffset)).trans ?_
  exact run_name_operands hback hcomment hname hspaced hoperands

end Instructions

theorem run_instruction_of_head? (h : ∀ c ∈ text.head?, c.isDigit = false ∧ c.isAlpha = false) :
    instruction.run text = none := by
  have hoffset : (do let _ ← while1 Char.isDigit; while1 isBlank : Parser (List Char)).run text = none :=
    run_bind_of_none (run_while1_of_head? fun c hc => (h c hc).1)
  exact (run_bind_of_some (run_optional_of_none hoffset)).trans
    (run_bind_of_none (run_while1_of_head? fun c hc => (h c hc).2))

/-! ### Whole lines -/

theorem run_item {item : Item} {body back comment : List Char} (h : item.Spelled body)
    (hback : Blanks back) (hcomment : Comment comment) :
    (directive <|> instruction).run (body ++ (back ++ comment)) = some (item, back ++ comment) := by
  have hrest : ∀ c ∈ (back ++ comment).head?, c.isDigit = false := fun c hc =>
    (not_alphanum_of_behind (head?_behind hback hcomment c hc)).1
  cases h with
  | string hgap hwritten =>
    simp only [List.append_assoc, List.cons_append, List.nil_append]
    exact run_orElse_of_some (run_directive_string hgap hwritten _)
  | words hwords hspaced =>
    cases hwords with
    | integer hn =>
      obtain ⟨gap, hgap, rfl⟩ := hspaced.pair
      simp only [List.append_assoc]
      exact run_orElse_of_some (run_directive_integer hgap hn hrest)
    | function hparams hlocals =>
      obtain ⟨gap, counts, hgap, hcounts, rfl⟩ := hspaced.uncons
      obtain ⟨gap', hgap', rfl⟩ := hcounts.pair
      simp only [List.append_assoc]
      exact run_orElse_of_some (run_directive_function hgap hgap' hparams hlocals hrest)
    | endFunction =>
      rw [hspaced.single]
      exact run_orElse_of_some (run_directive_end _)
    | instruction hname hoperands => exact run_instruction hback hcomment hname hspaced hoperands
    | offset hnumber hname hoperands =>
      obtain ⟨gap, behind, hgap, hbehind, rfl⟩ := hspaced.uncons
      simp only [List.append_assoc]
      exact run_instruction_offset hback hcomment hname hbehind hoperands hnumber hgap

theorem run_comment {comment : List Char} (hcomment : Comment comment) (hfeed : '\n' ∉ comment) :
    ∃ comment?, (optional Parser.comment).run comment = some (comment?, []) := by
  rcases hcomment with rfl | ⟨written, rfl, hreturn⟩
  · exact ⟨none, run_optional_of_none (run_bind_of_none rfl)⟩
  · refine ⟨some (), run_optional_of_some ((run_bind_of_some (run_tag ['%'] _)).trans ?_)⟩
    by_cases hne : written = []
    · rw [hne]
      exact (run_bind_of_some (run_optional_of_none rfl)).trans rfl
    · have hall : ∀ c ∈ written, (c != '\n' && c != '\r') = true := by
        intro c hc
        rw [Bool.and_eq_true, bne_iff_ne, bne_iff_ne]
        exact ⟨fun h => hfeed (h ▸ List.mem_cons_of_mem _ hc), fun h => hreturn (h ▸ hc)⟩
      have hread := run_while1 hne hall (fun c (hc : c ∈ ([] : List Char).head?) => by cases hc)
      rw [List.append_nil] at hread
      exact (run_bind_of_some (run_optional_of_some hread)).trans rfl

/-- **No line is missed**, whatever else is tried first. -/
theorem run_line {line : Line} (h : line.Spelled text) (hfeed : '\n' ∉ text) :
    Parser.line.run text = some (line, []) := by
  cases h with
  | @blank front comment hfront hcomment =>
    have hend : ∀ c ∈ comment.head?, c = '%' := (comment_iff.mp hcomment).1
    have hitem : (directive <|> instruction).run comment = none :=
      (run_orElse_of_none (run_directive_of_head? fun c hc => by rw [hend c hc]; decide)).trans
        (run_instruction_of_head? fun c hc => not_alphanum_of_behind (Or.inr (hend c hc)))
    obtain ⟨comment?, hread⟩ := run_comment hcomment fun h => hfeed (List.mem_append_right _ h)
    refine (run_bind_of_some (run_while0 hfront (not_blank_of_comment hcomment))).trans ?_
    refine (run_bind_of_some (run_optional_of_none hitem)).trans ?_
    refine (run_bind_of_some (run_while0 (List.forall_mem_nil _) (not_blank_of_comment hcomment))).trans ?_
    exact (run_bind_of_some hread).trans rfl
  | @item item front body back comment hfront h hback hcomment =>
    obtain ⟨comment?, hread⟩ := run_comment hcomment fun h => hfeed (by simp [h])
    refine (run_bind_of_some (run_while0 hfront (h.blank_of_head? _))).trans ?_
    refine (run_bind_of_some (run_optional_of_some (run_item h hback hcomment))).trans ?_
    refine (run_bind_of_some (run_while0 hback (not_blank_of_comment hcomment))).trans ?_
    exact (run_bind_of_some hread).trans rfl

end Parser

/-! ## Lines -/

/-- **The grammar of a line.** A text is read as a line exactly if it spells one, and no text spells two.
A text that spells none is no line of assembly. To read the text from left to right, with no second
thoughts about how far a part of it goes, comes to the same. -/
theorem Line.read?_grammar {text : List Char} (hfeed : '\n' ∉ text) :
    (∀ line, read? text = some line ↔ line.Spelled text)
      ∧ (∀ line line' : Line, line.Spelled text → line'.Spelled text → line = line')
      ∧ (read? text = none ↔ ∀ line : Line, ¬line.Spelled text)
      ∧ Parser.line.run text = (read? text).map (·, []) := by
  refine ⟨fun _ => read?_eq_some_iff, fun _ _ h h' => h.unique h', ?_, ?_⟩
  · rw [Option.eq_none_iff_forall_ne_some]
    exact forall_congr' fun line => not_congr read?_eq_some_iff
  · cases hread : read? text with
    | some line => exact Parser.run_line (read?_eq_some_iff.mp hread) hfeed
    | none =>
      refine Option.eq_none_iff_forall_ne_some.mpr fun (line, rest) h => ?_
      rw [read?_eq_some_iff.mpr (Parser.of_line h).2] at hread
      cases hread

/-- A `%` inside a string, an escaped quote, and a comment behind it. -/
theorem Line.read?_grammar_string :
    read? "\t.str \"5%\\\"\" % \"".toList = some (.item (.string "5%\"".toList))
      ∧ Parser.line.run "\t.str \"5%\\\"\" % \"".toList = some (.item (.string "5%\"".toList), []) := by
  have hwritten : Item.Escapes "5%\\\"".toList "5%\"".toList :=
    .plain (by decide) (by decide) (.plain (by decide) (by decide) (.escaped (Or.inl rfl) .nil))
  have htab : Blanks ['\t'] := List.forall_mem_singleton.mpr rfl
  have hspace : Blanks [' '] := List.forall_mem_singleton.mpr rfl
  have hspelled : Line.Spelled (.item (.string "5%\"".toList)) "\t.str \"5%\\\"\" % \"".toList :=
    .item htab (.string ⟨List.cons_ne_nil ' ' [], hspace⟩ hwritten) hspace
      (Or.inr ⟨" \"".toList, rfl, by decide⟩)
  obtain ⟨hread, -, -, hrun⟩ := @read?_grammar "\t.str \"5%\\\"\" % \"".toList (by decide)
  have hline := (hread _).mpr hspelled
  rw [hline] at hrun
  exact ⟨hline, hrun⟩

end ClosureMachine.Assembly
