/-! # Quotients rounded to the nearest integer

Every inexact number of this library, binary or decimal, is an exact quotient of natural numbers
that is rounded once, to the nearest integer of some grid. A quotient half way between two
integers goes to the even one.
-/

namespace ThemeCss

/-- The integer nearest to `num / den`, a half going to the even neighbour. -/
def halfEven (num den : Nat) : Nat :=
  let floor := num / den
  let rest := num % den
  if 2 * rest < den then floor
  else if den < 2 * rest then floor + 1
  else floor + floor % 2

theorem div_le_halfEven (num den : Nat) : num / den ≤ halfEven num den := by
  simp only [halfEven]
  split
  · omega
  · split <;> omega

theorem halfEven_le_div_succ (num den : Nat) : halfEven num den ≤ num / den + 1 := by
  simp only [halfEven]
  split
  · omega
  · split <;> omega

/-- Exact quotients are not moved. -/
theorem halfEven_mul_self (n : Nat) {den : Nat} (positive : 0 < den) :
    halfEven (n * den) den = n := by
  simp only [halfEven, Nat.mul_div_cancel n positive, Nat.mul_mod_left, Nat.mul_zero, positive,
    ↓reduceIte]

end ThemeCss
