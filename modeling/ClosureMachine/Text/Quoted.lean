import ClosureMachine.Text.Printable
import ClosureMachine.Text.GraphemeExtend

/-!
# Quoted strings

A string as it is shown inside a container: between quotes, with a backslash before a quote, a
backslash, and the letters that stand for NUL, tab, carriage return and line feed. Any other
character that is not printable, or that would join the one before it, is written by its code
point in hexadecimal digits.
-/

namespace ClosureMachine.Quoted

/-- The escape of a character by its code point: hexadecimal digits in lower case, without leading
zeros, between braces. -/
def codePoint (c : Char) : List Char :=
  ['\\', 'u', '\x7b'] ++ Nat.toDigits 16 c.toNat ++ ['\x7d']

/-- A character as it is written between quotes. -/
def escape (c : Char) : List Char :=
  match c with
  | '\x00' => ['\\', '0']
  | '\t' => ['\\', 't']
  | '\r' => ['\\', 'r']
  | '\n' => ['\\', 'n']
  | '\"' => ['\\', '\"']
  | '\\' => ['\\', '\\']
  | c => if Text.isGraphemeExtend c || !Text.isPrintable c then codePoint c else [c]

def quote (text : List Char) : List Char :=
  '\"' :: text.flatMap escape ++ ['\"']

end ClosureMachine.Quoted
