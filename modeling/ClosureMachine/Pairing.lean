/-!
# Pairings

Pairs of which no two agree on the left or on the right, so that each side of a pair can be looked
up by the other. A pair is put in only if both of its sides are new.
-/

namespace ClosureMachine

/-- Pairs in the order in which they came in. -/
structure Pairing (α β : Type) where
  pairs : List (α × β)
  nodup_left : (pairs.map Prod.fst).Nodup
  nodup_right : (pairs.map Prod.snd).Nodup

namespace Pairing

variable {α β : Type}

def empty : Pairing α β :=
  ⟨[], .nil, .nil⟩

variable [DecidableEq α] [DecidableEq β]

/-- What is paired with `a` on the right. -/
def right? (pairing : Pairing α β) (a : α) : Option β :=
  (pairing.pairs.find? (·.1 = a)).map Prod.snd

/-- What is paired with `b` on the left. -/
def left? (pairing : Pairing α β) (b : β) : Option α :=
  (pairing.pairs.find? (·.2 = b)).map Prod.fst

/-- The pairing with one more pair, unless one of its sides is taken. -/
def add? (pairing : Pairing α β) (a : α) (b : β) : Option (Pairing α β) :=
  if h : a ∉ pairing.pairs.map Prod.fst ∧ b ∉ pairing.pairs.map Prod.snd then
    some {
      pairs := pairing.pairs ++ [(a, b)]
      nodup_left := by
        rw [List.map_append, List.nodup_append]
        exact ⟨pairing.nodup_left, by simp, by grind⟩
      nodup_right := by
        rw [List.map_append, List.nodup_append]
        exact ⟨pairing.nodup_right, by simp, by grind⟩ }
  else
    none

end Pairing

end ClosureMachine
