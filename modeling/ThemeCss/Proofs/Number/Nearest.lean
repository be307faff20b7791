import Mathlib
import ThemeCss.Number.Binary64

/-! # The nearest double

Rounding a quotient gives a point of the grid of doubles, and no other point of the grid is nearer
to the quotient. Everything else about rounding follows from that: it keeps the points of the grid
and the order with respect to them, and it at most doubles a quotient.
-/

namespace ThemeCss

/-- How far `n` is from `num / den`, in parts of `den`. -/
def distance (num den n : Nat) : Nat := (n * den - num) + (num - n * den)

theorem distance_mul_comm (count unit other otherUnit : Nat) :
    distance (count * unit) otherUnit other = distance (other * otherUnit) unit count := by
  rw [distance, distance, Nat.add_comm]

section Whole

variable {num den n : Nat}

/-- A whole number is the rounded quotient exactly if it is less than a half away, or a half and
even. -/
theorem halfEven_eq_iff (positive : 0 < den) : halfEven num den = n ↔
    2 * distance num den n < den ∨ 2 * distance num den n = den ∧ n % 2 = 0 := by
  have split := Nat.div_add_mod num den
  have small := Nat.mod_lt num positive
  rw [Nat.mul_comm] at split
  simp only [halfEven, distance]
  generalize num / den = floor at *
  generalize num % den = rest at *
  -- Only the two whole numbers around the quotient are within one.
  rcases Nat.lt_trichotomy n floor with below | rfl | above
  · have far : n * den + den ≤ floor * den := by
      rw [← Nat.succ_mul]
      exact Nat.mul_le_mul_right den below
    split_ifs <;> omega
  · split_ifs <;> omega
  · rcases Nat.lt_or_eq_of_le (Nat.succ_le_of_lt above) with beyond | rfl
    · have far : floor * den + den + den ≤ n * den := by
        rw [← Nat.succ_mul, ← Nat.succ_mul]
        exact Nat.mul_le_mul_right den beyond
      split_ifs <;> omega
    · have next : floor.succ * den = floor * den + den := Nat.succ_mul ..
      split_ifs <;> omega

theorem two_mul_distance_halfEven_le (num : Nat) (positive : 0 < den) :
    2 * distance num den (halfEven num den) ≤ den := by
  rcases (halfEven_eq_iff positive).mp (Eq.refl (halfEven num den)) with less | tie
  · exact less.le
  · exact tie.1.le

/-- No whole number is nearer than the rounded one. -/
theorem distance_halfEven_le (num : Nat) (positive : 0 < den) (n : Nat) :
    distance num den (halfEven num den) ≤ distance num den n := by
  by_contra! nearer
  have bound := two_mul_distance_halfEven_le num positive
  have same : halfEven num den = n := (halfEven_eq_iff positive).mpr (.inl (by omega))
  rw [same] at nearer
  exact Nat.lt_irrefl _ nearer

/-- Of two quotients the one that is at least as near to a whole number is rounded to it if the
other is. -/
theorem halfEven_eq_of_nearer {other : Nat} (positive : 0 < den) (rounded : halfEven num den = n)
    (nearer : distance other den n ≤ distance num den n) : halfEven other den = n := by
  rw [halfEven_eq_iff positive] at rounded ⊢
  omega

theorem halfEven_zero (den : Nat) : halfEven 0 den = 0 := by
  simp [halfEven]

theorem halfEven_mono {first second : Nat} (order : first ≤ second) :
    halfEven first den ≤ halfEven second den := by
  rcases (Nat.div_le_div_right (c := den) order).lt_or_eq with less | same
  · calc
      halfEven first den ≤ first / den + 1 := halfEven_le_div_succ first den
      _ ≤ second / den := less
      _ ≤ halfEven second den := div_le_halfEven second den
  · have rest : first % den ≤ second % den := by
      have left := Nat.div_add_mod first den
      have right := Nat.div_add_mod second den
      rw [same] at left
      omega
    simp only [halfEven, same]
    split_ifs <;> omega

theorem halfEven_mul_mul {factor : Nat} (positive : 0 < factor) (num den : Nat) :
    halfEven (factor * num) (factor * den) = halfEven num den := by
  have left (n : Nat) : 2 * (factor * n) < factor * den ↔ 2 * n < den := by
    rw [Nat.mul_left_comm]
    exact Nat.mul_lt_mul_left positive
  have right (n : Nat) : factor * den < 2 * (factor * n) ↔ den < 2 * n := by
    rw [Nat.mul_left_comm]
    exact Nat.mul_lt_mul_left positive
  simp only [halfEven, Nat.mul_div_mul_left num den positive, Nat.mul_mod_mul_left, left, right]

end Whole

theorem gridStep_dvd_gridStep {first second : Nat} (order : first.log2 ≤ second.log2) :
    gridStep first ∣ gridStep second := by
  rw [gridStep, gridStep, Nat.pow_eq, Nat.pow_eq]
  exact Nat.pow_dvd_pow 2 (by omega)

/-- Whether a number of units is a double. -/
def OnGrid (units : Nat) : Prop := gridStep units ∣ units

theorem onGrid_zero : OnGrid 0 := Nat.dvd_zero _

theorem onGrid_twoPow (exponent : Nat) : OnGrid (2 ^ exponent) := by
  have steps := @gridStep_dvd_steps 1 exponent (by decide)
  rwa [Nat.one_mul] at steps

theorem onGrid_roundedUnits (num den : Nat) : OnGrid (Magnitude.roundedUnits num den) :=
  Magnitude.gridStep_dvd_roundedUnits num den

/-- The step of the grid is at most a 2⁵³rd of any power of two above it, down to the unit. -/
theorem gridStep_mul_le {exponent units : Nat} (below : units < 2 ^ (exponent + 53)) :
    gridStep units * 2 ^ 53 ≤ 2 ^ (exponent + 53) := by
  have digits : units.log2 - 52 ≤ exponent := by
    rcases Nat.eq_zero_or_pos units with rfl | positive
    · simp
    · have bound := (Nat.log2_lt positive.ne').mpr below
      omega
  rw [gridStep, Nat.pow_eq, ← Nat.pow_add]
  exact Nat.pow_le_pow_right (by decide) (by omega)

/-- A double has no binary digits far below its first one. -/
theorem OnGrid.twoPow_dvd {exponent units : Nat} (onGrid : OnGrid units)
    (large : 2 ^ 52 * Nat.pow 2 exponent ≤ units) : Nat.pow 2 exponent ∣ units := by
  rw [Nat.pow_eq, ← Nat.pow_add] at large
  have nonzero : units ≠ 0 := Nat.ne_of_gt (Nat.lt_of_lt_of_le (Nat.two_pow_pos _) large)
  have digits := (Nat.le_log2 nonzero).mpr large
  refine Nat.dvd_trans ?_ onGrid
  exact Nat.pow_dvd_pow 2 (Nat.le_sub_of_add_le' digits)

namespace Magnitude

variable {num den units : Nat}

theorem distance_roundedUnits (num den : Nat) : distance num den (roundedUnits num den) =
    distance num (den * gridStep (num / den)) (halfEven num (den * gridStep (num / den))) := by
  rw [distance, distance, roundedUnits, Nat.mul_assoc, Nat.mul_comm (gridStep _)]

/-- No double is nearer to a quotient than the rounded one. -/
theorem distance_roundedUnits_le (num : Nat) (positive : 0 < den) (onGrid : OnGrid units) :
    distance num den (roundedUnits num den) ≤ distance num den units := by
  have whole := Nat.mul_pos positive (gridStep_pos (num / den))
  -- Multiples of the step at the quotient are compared by rounding whole numbers of steps.
  have multiple {units : Nat} (steps : gridStep (num / den) ∣ units) :
      distance num den (roundedUnits num den) ≤ distance num den units := by
    obtain ⟨count, rfl⟩ := steps
    have nearest := distance_halfEven_le num whole count
    rw [distance_roundedUnits]
    refine nearest.trans (le_of_eq ?_)
    rw [distance, distance, Nat.mul_comm (gridStep _) count, Nat.mul_assoc,
      Nat.mul_comm (gridStep _) den]
  by_cases order : (num / den).log2 ≤ units.log2
  · exact multiple ((gridStep_dvd_gridStep order).trans onGrid)
  · -- A double with a smaller step is below the power of two that is below the quotient.
    have nonzero : num / den ≠ 0 := by
      rintro zero
      simp [zero] at order
    have lower : 2 ^ (num / den).log2 ≤ num / den := Nat.log2_self_le nonzero
    have below : units < 2 ^ (num / den).log2 :=
      Nat.lt_log2_self.trans_le (Nat.pow_le_pow_right (by decide) (by omega))
    have nearest := @multiple (2 ^ (num / den).log2) (by
      rw [gridStep, Nat.pow_eq]
      exact Nat.pow_dvd_pow 2 (by omega))
    have inside := (Nat.le_div_iff_mul_le positive).mp lower
    have outside := Nat.mul_le_mul_right den below.le
    simp only [distance] at nearest ⊢
    omega

/-- Doubles are not moved. -/
theorem roundedUnits_of_onGrid (positive : 0 < den) (onGrid : OnGrid units) :
    roundedUnits (units * den) den = units := by
  have nearest := distance_roundedUnits_le (units * den) positive onGrid
  have same : roundedUnits (units * den) den * den = units * den := by
    simp only [distance] at nearest
    omega
  exact Nat.eq_of_mul_eq_mul_right positive same

/-- A double that is not above a quotient is not above the rounded one. -/
theorem le_roundedUnits (positive : 0 < den) (onGrid : OnGrid units)
    (below : units * den ≤ num) : units ≤ roundedUnits num den := by
  by_contra! less
  have nearest := distance_roundedUnits_le num positive onGrid
  have apart := Nat.mul_lt_mul_of_pos_right less positive
  simp only [distance] at nearest
  omega

theorem roundedUnits_zero (den : Nat) : roundedUnits 0 den = 0 := by
  rw [roundedUnits, halfEven_zero, Nat.zero_mul]

theorem roundedUnits_mono {first second : Nat} (positive : 0 < den) (order : first ≤ second) :
    roundedUnits first den ≤ roundedUnits second den := by
  by_contra! less
  have left := distance_roundedUnits_le first positive (onGrid_roundedUnits second den)
  have right := distance_roundedUnits_le second positive (onGrid_roundedUnits first den)
  have apart := Nat.mul_lt_mul_of_pos_right less positive
  -- Both quotients lie half way between the two doubles, so they are the same.
  have same : first = second := by
    simp only [distance] at left right
    omega
  rw [same] at less
  exact Nat.lt_irrefl _ less

/-- A quotient below a power of two is moved by at most half the step of the grid there. -/
theorem distance_roundedUnits_mul_le {exponent : Nat} (positive : 0 < den)
    (below : num < 2 ^ (exponent + 53) * den) :
    distance num den (roundedUnits num den) * 2 ^ 54 ≤ 2 ^ (exponent + 53) * den := by
  have near := two_mul_distance_halfEven_le num
    (Nat.mul_pos positive (gridStep_pos (num / den)))
  rw [← distance_roundedUnits] at near
  have step := gridStep_mul_le ((Nat.div_lt_iff_lt_mul positive).mpr below)
  calc
    distance num den (roundedUnits num den) * 2 ^ 54 =
        2 * distance num den (roundedUnits num den) * 2 ^ 53 := by ring
    _ ≤ den * gridStep (num / den) * 2 ^ 53 := Nat.mul_le_mul_right _ near
    _ = gridStep (num / den) * 2 ^ 53 * den := by ring
    _ ≤ 2 ^ (exponent + 53) * den := Nat.mul_le_mul_right den step

/-- Rounding at most doubles a quotient. -/
theorem roundedUnits_mul_le (num : Nat) (positive : 0 < den) :
    roundedUnits num den * den ≤ 2 * num := by
  have nearest := distance_roundedUnits_le num positive onGrid_zero
  simp only [distance] at nearest
  omega

/-- Rounding at most halves a quotient that it does not bring to zero. -/
theorem le_roundedUnits_mul (positive : 0 < den) (nonzero : roundedUnits num den ≠ 0) :
    num ≤ 2 * (roundedUnits num den * den) := by
  have near := two_mul_distance_halfEven_le num
    (Nat.mul_pos positive (gridStep_pos (num / den)))
  rw [← distance_roundedUnits] at near
  have step : gridStep (num / den) ≤ roundedUnits num den := by
    rw [roundedUnits] at nonzero ⊢
    exact Nat.le_mul_of_pos_left _ (Nat.pos_of_mul_pos_right (Nat.pos_of_ne_zero nonzero))
  have whole := Nat.mul_le_mul_left den step
  rw [Nat.mul_comm den (roundedUnits num den)] at whole
  simp only [distance] at near
  omega

theorem roundedUnits_mul_mul {factor : Nat} (positive : 0 < factor) (num den : Nat) :
    roundedUnits (factor * num) (factor * den) = roundedUnits num den := by
  simp only [roundedUnits, Nat.mul_div_mul_left num den positive, Nat.mul_assoc,
    halfEven_mul_mul positive]

/-- A quotient that is not rounded to infinity. -/
theorem nearest?_of_lt (bounded : roundedUnits num den < overflowUnits) :
    nearest? num den =
      some ⟨roundedUnits num den, gridStep_dvd_roundedUnits num den, bounded⟩ := by
  rw [nearest?, dif_pos bounded]

theorem nearest?_mul_mul {factor : Nat} (positive : 0 < factor) (num den : Nat) :
    nearest? (factor * num) (factor * den) = nearest? num den := by
  simp only [nearest?, roundedUnits_mul_mul positive]

end Magnitude

namespace Binary64

theorem ofUnits_of_lt {negative : Bool} {num den : Nat}
    (bounded : Magnitude.roundedUnits num den < overflowUnits) :
    ofUnits negative num den = .finite negative
      ⟨Magnitude.roundedUnits num den, Magnitude.gridStep_dvd_roundedUnits num den, bounded⟩ := by
  unfold ofUnits
  rw [Magnitude.nearest?_of_lt bounded]

theorem units_of_ofUnits {negative sign : Bool} {num den : Nat} {magnitude : Magnitude}
    (value : ofUnits negative num den = .finite sign magnitude) :
    magnitude.units = Magnitude.roundedUnits num den := by
  unfold ofUnits Magnitude.nearest? at value
  split at value
  · next result found =>
    split at found
    · obtain ⟨-, rfl⟩ := Binary64.finite.inj value
      exact congrArg Magnitude.units (Option.some.inj found).symm
    · cases found
  · cases value

theorem ofUnits_mul_mul {factor : Nat} (positive : 0 < factor) (negative : Bool) (num den : Nat) :
    ofUnits negative (factor * num) (factor * den) = ofUnits negative num den := by
  unfold ofUnits
  rw [Magnitude.nearest?_mul_mul positive]

end Binary64

end ThemeCss
