import ClosureMachine.Text.Width.Character
import ClosureMachine.Text.Width.Emoji
import ClosureMachine.Text.Width.Ligature

/-!
# The width of a sequence

How many columns a text takes, where characters that are drawn as one are counted as one: emoji
with selectors, modifiers, joiners and tags, flags of two regional indicators, and ligatures. The
text is read from its end. `Context` says how the part that is read can bear on the character in
front of it, and `Context.extend` reads that character.
-/

namespace ClosureMachine.Width

/-- What a text starts with, as far as it can join the character in front of it. -/
inductive Head where
  /-- Nothing that joins. -/
  | plain
  /-- An emoji, or a sequence that is drawn as one. -/
  | emoji
  | modifier
  | regional
  /-- Two regional indicators or more. -/
  | regionals
  /-- A joiner in front of an emoji. -/
  | joiner
  /-- A keycap in front of `joiner`. -/
  | keycap
  /-- A regional indicator in front of `joiner`. -/
  | joinedRegional
  /-- An even number of regional indicators in front of `joiner`. -/
  | joinedFlags
  /-- An odd number of regional indicators, three at least, in front of `joiner`. -/
  | joinedOddFlags
  /-- The end of a tag sequence in front of `joiner`, and so many of its letters. -/
  | tagLetters (count : Nat)
  /-- So many digits of a tag sequence, in front of `tagLetters`. -/
  | tagDigits (count : Nat)
  | alef
  /-- The end of a ligature, with a joiner in front of it or not. -/
  | letter (last : Ligature.Letter) (joined : Bool)
  deriving DecidableEq

namespace Head

/-- What a character is the head of by itself. -/
def ofChar (c : Char) : Head :=
  if Emoji.isRegional c then .regional
  else if Emoji.isModifier c then .modifier
  else if Emoji.isEmoji c then .emoji
  else if CharRange.covers Ligature.alef c then .alef
  else match Ligature.Letter.ofChar? c with
    | some last => .letter last false
    | none => .plain

/-- Whether a head belongs to a ligature. A selector in front of such a head leaves it as it is. -/
def isLigature : Head → Bool
  | .alef | .letter _ _ => true
  | _ => false

/-- Whether a head is part of a sequence that a character with a selector can go on. -/
def isJoined : Head → Bool
  | .joiner | .keycap => true
  | _ => false

/-- What `c` makes of a head behind it: the columns it adds, and the new head. It is `none` if the
two do not join. -/
def before (c : Char) : Head → Option (Int × Head)
  | .emoji => if c = Emoji.joiner then some (0, .joiner) else none
  | .modifier =>
    if Emoji.takesModifier c then some (0, .emoji)
    else if c = Emoji.joiner then some (0, .joiner)
    else none
  | .regional => if Emoji.isRegional c then some (1, .regionals) else none
  | .regionals =>
    if Emoji.isRegional c then some (1, .regionals)
    else if c = Emoji.joiner then some (0, .joiner)
    else none
  | .joiner =>
    if c = Emoji.keycap then some (0, .keycap)
    else if Emoji.isRegional c then some (1, .joinedRegional)
    else if Emoji.isModifier c then some (0, .modifier)
    else if c = Emoji.tagEnd then some (0, .tagLetters 0)
    else if Emoji.isEmoji c then some (0, .emoji)
    else none
  | .joinedRegional => if Emoji.isRegional c then some (-1, .joinedFlags) else none
  | .joinedFlags =>
    if Emoji.isRegional c then some (3, .joinedOddFlags)
    else if c = Emoji.joiner then some (0, .joiner)
    else none
  | .joinedOddFlags =>
    if Emoji.isRegional c then some (-1, .joinedFlags)
    else if c = Emoji.joiner then some (0, .joiner)
    else none
  | .tagLetters count =>
    if Emoji.isTagLetter c && count < 6 then some (0, .tagLetters (count + 1))
    else if Emoji.isTagDigit c && count < 5 then some (0, .tagDigits 1)
    else if c = Emoji.blackFlag && 3 ≤ count then some (0, .emoji)
    else none
  | .tagDigits count =>
    if Emoji.isTagDigit c && count < 3 then some (0, .tagDigits (count + 1))
    else if c = Emoji.blackFlag && count = 3 then some (0, .emoji)
    else none
  | .alef =>
    if CharRange.covers Ligature.lam c then some (0, .plain)
    else if Ligature.joinsAcross c then some (0, .alef)
    else none
  | .letter last joined =>
    if c = Emoji.joiner then some (0, .letter last true)
    else if CharRange.covers Ligature.ignorableMarks c then some (0, .letter last joined)
    else (last.before c joined).map fun (columns, longer) =>
      (columns, longer.elim .plain fun last => .letter last true)
  | .plain | .keycap => none

end Head

/-- A variation selector that says how the character in front of it is shown. -/
inductive Selector where
  | text
  | emoji
  deriving DecidableEq

def Selector.ofChar? (c : Char) : Option Selector :=
  if c = '\ufe0e' then some .text else if c = '\ufe0f' then some .emoji else none

/-- How a text can bear on the character in front of it: its head, and the selector in front of
that. -/
structure Context where
  head : Head := .plain
  selector : Option Selector := none
  deriving DecidableEq

namespace Context

/-- The head without its selector: a selector that goes unused keeps a sequence of emoji from being
joined. -/
def settled (next : Context) : Head :=
  if next.selector.isNone || next.head.isLigature then next.head else .plain

/-- The context of a selector in front of a head. A selector hides a head that it cannot be part of
a sequence with. -/
def select (selector : Selector) (head : Head) : Context :=
  let kept := head.isLigature || (selector = .emoji && head.isJoined)
  { head := if kept then head else .plain, selector }

/-- Reads the character in front of a text: the columns it adds, and the context of the longer
text. The characters up to the no-break space, control characters among them, always take one. -/
def extend (c : Char) (next : Context) : Int × Context :=
  if next.selector = some .emoji && Emoji.takesSelector c then
    (if next.head.isJoined then 0 else 2, { head := .emoji })
  else if c.toNat ≤ 0xa0 then (1, {})
  else match Selector.ofChar? c with
    | some selector => (0, select selector next.settled)
    | none =>
      if next.selector = some .text && Emoji.isNarrowAsText c then (1, {})
      else
        let (columns, head) := (next.settled.before c).getD (ofChar c, Head.ofChar c)
        (columns, { head })

end Context

/-- The columns of a text, and its context. -/
def ofSequence (text : List Char) : Int × Context :=
  text.foldr
    (fun c (columns, next) =>
      let (added, context) := next.extend c
      (columns + added, context))
    (0, {})

/-! ### Reading one more character -/

theorem ofSequence_cons (c : Char) (text : List Char) :
    ofSequence (c :: text) =
      ((ofSequence text).1 + ((ofSequence text).2.extend c).1, ((ofSequence text).2.extend c).2) :=
  rfl

/-- A text of characters that never join takes one column for each of them. -/
theorem ofSequence_eq_length {text : List Char} (h : ∀ c ∈ text, c.toNat ≤ 0xa0) :
    ofSequence text = ((text.length : Int), {}) := by
  induction text with
  | nil => rfl
  | cons c rest ih =>
    have hc : c.toNat ≤ 0xa0 := h c List.mem_cons_self
    rw [ofSequence_cons, ih fun d hd => h d (List.mem_cons_of_mem c hd)]
    simp [Context.extend, hc]

end ClosureMachine.Width
