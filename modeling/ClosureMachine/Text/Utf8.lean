/-!
# The bytes of a text

Strings are ordered by the bytes of their UTF-8 encoding.
-/

namespace ClosureMachine.Text

/-- The bytes of the UTF-8 encoding of a text. -/
def utf8 (text : String) : List UInt8 :=
  text.toList.flatMap String.utf8EncodeChar

/-- Whether the bytes of one text come before those of another. -/
def precedes (a b : String) : Bool :=
  utf8 a < utf8 b

end ClosureMachine.Text
