import ClosureMachine.Text.Words
import ClosureMachine.Text.Decimal

/-!
# Lines of assembly

A line holds at most one item, and perhaps a comment from `%` to its end:

* an instruction: its mnemonic and its operands in decimal, perhaps after an offset, which counts
  for nothing;
* `.int` and a numeral, perhaps negative, that denotes a 64 bit integer;
* `.str` and a string between quotes, in which a backslash stands only before a quote or another
  backslash;
* `.function` and the numbers of parameters and of locals, which opens a block;
* `.end`, which closes it.

Blanks separate the parts. A `%` inside a string is just a character. A comment ends where its
line does, so it holds no carriage return. `Line.read?` answers `none` for everything else.
-/

namespace ClosureMachine.Assembly

/-- What a line of assembly says. Names and numbers are kept as they are written. -/
inductive Item where
  | instruction (name : List Char) (operands : List (List Char))
  | integer (n : Int64)
  | string (text : List Char)
  | function (params locals : List Char)
  | endFunction
  deriving DecidableEq

/-- A line: an item, or nothing but blanks and a comment. -/
inductive Line where
  | blank
  | item (item : Item)
  deriving DecidableEq

/-- The text of a string after its opening quote, up to the closing one, and what follows it. -/
def Item.unquote? : List Char → Option (List Char × List Char)
  | [] => none
  | '\"' :: rest => some ([], rest)
  | '\\' :: c :: rest =>
    if c = '\"' ∨ c = '\\' then
      (unquote? rest).map fun (text, rest) => (c :: text, rest)
    else
      none
  | c :: rest =>
    if c = '\\' then none else (unquote? rest).map fun (text, rest) => (c :: text, rest)

/-- The 64 bit integer that a numeral denotes, perhaps after a minus. -/
def Item.int64? (word : List Char) : Option Int64 :=
  let (negative, digits) :=
    match word with
    | '-' :: digits => (true, digits)
    | digits => (false, digits)
  let magnitude : Int := Decimal.toNat digits
  let n := if negative then -magnitude else magnitude
  if Decimal.isNumeral digits ∧ Int64.minValue.toInt ≤ n ∧ n ≤ Int64.maxValue.toInt then
    some (Int64.ofInt n)
  else
    none

/-- An instruction whose name is all letters and whose operands are numerals. -/
def Item.instruction? (name : List Char) (operands : List (List Char)) : Option Item :=
  if name.all Char.isAlpha ∧ operands.all Decimal.isNumeral then
    some (.instruction name operands)
  else
    none

/-- The item that a line with these words holds, strings left aside. -/
def Item.ofWords? : List (List Char) → Option Item
  | [] => none
  | word :: rest =>
    if word = ".int".toList then
      match rest with
      | [n] => .integer <$> int64? n
      | _ => none
    else if word = ".function".toList then
      match rest with
      | [params, locals] =>
        if Decimal.isNumeral params ∧ Decimal.isNumeral locals then
          some (.function params locals)
        else
          none
      | _ => none
    else if word = ".end".toList then
      if rest = [] then some .endFunction else none
    else if Decimal.isNumeral word then
      match rest with
      | [] => none
      | name :: operands => instruction? name operands
    else
      instruction? word rest

namespace Line

/-- What stands before the comment, if the comment holds no carriage return. -/
def uncommented? (text : List Char) : Option (List Char) :=
  let (content, comment) := text.span (· != '%')
  if '\r' ∈ comment then none else some content

/-- What follows `.str` and at least one blank. -/
def afterStr? : List Char → Option (List Char)
  | '.' :: 's' :: 't' :: 'r' :: c :: rest =>
    if Text.isBlank c then some (rest.dropWhile Text.isBlank) else none
  | _ => none

def read? (text : List Char) : Option Line :=
  match afterStr? (text.dropWhile Text.isBlank) with
  | some ('\"' :: quoted) => do
    let (text, rest) ← Item.unquote? quoted
    let content ← uncommented? rest
    if Text.words content = [] then some (.item (.string text)) else none
  | some _ => none
  | none => do
    match Text.words (← uncommented? text) with
    | [] => some .blank
    | words => .item <$> Item.ofWords? words

end Line

end ClosureMachine.Assembly
