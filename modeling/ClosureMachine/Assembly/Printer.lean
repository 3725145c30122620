import ClosureMachine.Listing
import ClosureMachine.Program

/-!
# Writing a program as assembly text

Every constant is written in its place, a function as its listing in a block, and then the listing of
the main stream. What is written this way is read back as it was, if it can be written at all: no
line of assembly holds a line feed.
-/

namespace ClosureMachine

namespace Assembly

/-- A text with a backslash before every quote and every backslash in it. -/
def escaped (text : List Char) : List Char :=
  text.flatMap fun c => if c = '\"' ∨ c = '\\' then ['\\', c] else [c]

def quoted (text : List Char) : List Char :=
  '\"' :: escaped text ++ ['\"']

end Assembly

open Assembly

/-- The lines that declare a constant. -/
def Constant.text : Constant → List Char
  | integer n => [' '].intercalate [".int".toList, Decimal.ofInt n.toInt] ++ ['\n']
  | string text => ".str ".toList ++ quoted text.toList ++ ['\n']
  | function routine =>
    [' '].intercalate
        [".function".toList, Decimal.ofNat routine.params, Decimal.ofNat routine.locals]
      ++ '\n' :: (disassemble routine.code.toList).toList ++ ".end\n".toList

/-- The assembly text of a program. -/
def Program.text (program : Program) : String :=
  String.ofList (program.constants.toList.flatMap Constant.text
    ++ (disassemble program.main.toList).toList)

end ClosureMachine
