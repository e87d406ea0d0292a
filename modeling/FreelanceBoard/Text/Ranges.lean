/-! Sets of code points as lists of ranges. -/
namespace FreelanceBoard

/-- Closed ranges of code points in ascending order. -/
abbrev Ranges := List (Nat × Nat)

namespace Ranges

def contains : Ranges → Nat → Bool
  | [], _ => false
  | (low, high) :: rest, n => if n ≤ high then decide (low ≤ n) else contains rest n

@[simp] theorem contains_nil (n : Nat) : contains [] n = false := rfl

theorem contains_cons (low high : Nat) (rest : Ranges) (n : Nat) :
    contains ((low, high) :: rest) n = if n ≤ high then decide (low ≤ n) else contains rest n := rfl

end Ranges

end FreelanceBoard
