/-!
# Ranges of characters

A class of characters, given as the ranges of code points that make it up.
-/

namespace ClosureMachine

/-- The code points from the first to the last, both included. -/
abbrev CharRange := Nat × Nat

namespace CharRange

def has (range : CharRange) (code : Nat) : Bool :=
  range.1 ≤ code && code ≤ range.2

/-- Whether a character lies in one of `ranges`, which stand in ascending order: the first that
does not end before the character decides. -/
def covers (ranges : List CharRange) (c : Char) : Bool :=
  (ranges.find? fun range => c.toNat ≤ range.2).any (·.has c.toNat)

end CharRange

end ClosureMachine
