import ThemeCss.Proofs.Number.Rational
import ThemeCss.Proofs.Number.Thousandths

/-! # What is lost in thousandths

A double that was written in thousandths and read again has moved twice: to the nearest thousandth,
and from there to the nearest double. The second move is at most half a unit in the last place, of
the new number and of the old one. Only a power of two between the two would make a difference. Then
either the power is a whole number of thousandths and is the new number, or there are so few
thousandths that they can be tried.
-/

namespace ThemeCss

theorem abs_signed_sub (negative : Bool) (first second : ℚ) :
    |signed negative first - signed negative second| = |first - second| := by
  cases negative
  · rfl
  · exact (congrArg abs (neg_sub_neg first second)).trans (abs_sub_comm second first)

theorem log2_mono {first second : Nat} (order : first ≤ second) : first.log2 ≤ second.log2 := by
  rw [Nat.log2_eq_log_two, Nat.log2_eq_log_two]
  exact Nat.log_mono_right order

theorem gridStep_le_of_log2_le {first second : Nat} (order : first.log2 ≤ second.log2) :
    gridStep first ≤ gridStep second :=
  Nat.le_of_dvd (gridStep_pos second) (gridStep_dvd_gridStep order)

theorem gridStep_mono {first second : Nat} (order : first ≤ second) :
    gridStep first ≤ gridStep second :=
  gridStep_le_of_log2_le (log2_mono order)

/-- A number with fewer binary digits is below the power of two that the other one has reached. -/
theorem exists_twoPow_between {first second : Nat} (fewer : first.log2 < second.log2) :
    ∃ exponent, first < 2 ^ exponent ∧ 2 ^ exponent ≤ second := by
  have nonzero : second ≠ 0 := by
    rintro rfl
    exact Nat.not_lt_zero _ fewer
  have below : first < 2 ^ second.log2 :=
    Nat.lt_log2_self.trans_le (Nat.pow_le_pow_right (by decide) fewer)
  exact ⟨second.log2, below, Nat.log2_self_le nonzero⟩

namespace Magnitude

variable {num den : Nat}

/-- Rounding moves a quotient by at most half the step of the grid there. -/
theorem two_mul_distance_roundedUnits_le (num : Nat) (positive : 0 < den) :
    2 * distance num den (roundedUnits num den) ≤ den * gridStep (num / den) := by
  rw [distance_roundedUnits]
  exact two_mul_distance_halfEven_le num (Nat.mul_pos positive (gridStep_pos (num / den)))

/-- Rounding does not lead to a finer grid. -/
theorem gridStep_le_gridStep_roundedUnits (num : Nat) (positive : 0 < den) :
    gridStep (num / den) ≤ gridStep (roundedUnits num den) := by
  apply gridStep_le_of_log2_le
  by_contra! fewer
  obtain ⟨exponent, above, within⟩ := exists_twoPow_between fewer
  have reached := le_roundedUnits positive (onGrid_twoPow exponent)
    ((Nat.le_div_iff_mul_le positive).mp within)
  omega

end Magnitude

namespace Binary64

section Thousandths

variable {magnitude : Magnitude}

theorem two_mul_distance_scaled_le (magnitude : Magnitude) :
    2 * distance (magnitude.units * 1000) unitsPerOne (magnitude.scaled 3) ≤ unitsPerOne := by
  rw [scaled_three]
  exact two_mul_distance_halfEven_le _ unitsPerOne_pos

/-- Numbers that can be written in full are written in the nearest thousandths. -/
theorem thousandths_of_lt {negative : Bool}
    (within : magnitude.units < (wholeLimit negative + 1) * unitsPerOne) :
    thousandths negative magnitude = magnitude.scaled 3 := by
  rw [thousandths]
  apply Nat.min_eq_left
  by_cases whole : unitsPerOne ∣ magnitude.units
  · have count := (Nat.div_lt_iff_lt_mul unitsPerOne_pos).mpr within
    rw [scaled_of_dvd whole]
    omega
  · have few := scaled_le_of_not_dvd whole
    rw [wholeLimit]
    split <;> omega

/-- Other numbers are written as the greatest one that can be written in full. -/
theorem thousandths_of_le {negative : Bool}
    (beyond : (wholeLimit negative + 1) * unitsPerOne ≤ magnitude.units) :
    thousandths negative magnitude = 1000 * wholeLimit negative := by
  rw [thousandths]
  apply Nat.min_eq_right
  have order : 1000 * wholeLimit negative * unitsPerOne ≤ magnitude.units * 1000 := by
    rw [Nat.add_mul] at beyond
    rw [Nat.mul_assoc]
    omega
  calc 1000 * wholeLimit negative
      = halfEven (1000 * wholeLimit negative * unitsPerOne) unitsPerOne :=
        (halfEven_mul_self _ unitsPerOne_pos).symm
    _ ≤ halfEven (magnitude.units * 1000) unitsPerOne := halfEven_mono order

theorem lt_wholeLimit_mul (negative : Bool) (below : magnitude.units < 2 ^ 63 * unitsPerOne) :
    magnitude.units < (wholeLimit negative + 1) * unitsPerOne := by
  refine below.trans_le (Nat.mul_le_mul_right unitsPerOne ?_)
  cases negative <;> decide

/-- An eighth is a whole number of thousandths, and so are the powers of two above it. -/
theorem unitsPerOne_dvd_thousand_mul {exponent : Nat} (large : unitsPerOne ≤ 8 * 2 ^ exponent) :
    unitsPerOne ∣ 1000 * 2 ^ exponent := by
  have eight : 8 * 2 ^ exponent = 2 ^ (3 + exponent) := (Nat.pow_add 2 3 exponent).symm
  have power : unitsPerOne ∣ 8 * 2 ^ exponent := by
    rw [eight] at large ⊢
    unfold unitsPerOne at large ⊢
    generalize unitPlaces = places at *
    exact Nat.pow_dvd_pow 2 ((Nat.pow_le_pow_iff_right (by decide)).mp large)
  have split : 1000 * 2 ^ exponent = 125 * (8 * 2 ^ exponent) := by omega
  rw [split]
  exact Nat.dvd_mul_left_of_dvd power 125

/-- Up to an eighth, thousandths are so near to doubles that a finer grid has one as near. -/
theorem two_mul_distance_roundedUnits_of_few : ∀ count < 126,
    2 * distance (count * unitsPerOne) 1000 (Magnitude.roundedUnits (count * unitsPerOne) 1000) ≤
      1000 * gridStep ((2 * count - 1) * unitsPerOne / 2000) := by
  decide +kernel

/-- Reading the thousandths of a number moves them by at most half the step of the grid at the
number. -/
theorem two_mul_distance_reread_le (magnitude : Magnitude) :
    2 * distance (magnitude.scaled 3 * unitsPerOne) 1000
        (Magnitude.roundedUnits (magnitude.scaled 3 * unitsPerOne) 1000) ≤
      1000 * gridStep magnitude.units := by
  have thousand : 0 < 1000 := by decide
  have one := unitsPerOne_pos
  have written := two_mul_distance_scaled_le magnitude
  have near := Magnitude.two_mul_distance_roundedUnits_le
    (magnitude.scaled 3 * unitsPerOne) thousand
  generalize magnitude.scaled 3 = count at *
  by_cases order : (count * unitsPerOne / 1000).log2 ≤ magnitude.units.log2
  · exact near.trans (Nat.mul_le_mul_left 1000 (gridStep_le_of_log2_le order))
  obtain ⟨exponent, above, within⟩ := exists_twoPow_between (Nat.lt_of_not_le order)
  have reached : 1000 * 2 ^ exponent ≤ count * unitsPerOne := by
    rw [Nat.mul_comm]
    exact (Nat.le_div_iff_mul_le thousand).mp within
  rw [distance] at written
  rcases Nat.le_total unitsPerOne (8 * 2 ^ exponent) with large | small
  · -- The power of two is a whole number of thousandths, and no other number is as near.
    obtain ⟨power, whole⟩ := unitsPerOne_dvd_thousand_mul large
    have same : count = power := by
      rw [whole, Nat.mul_comm] at reached
      have least := Nat.le_of_mul_le_mul_right reached one
      rcases Nat.lt_or_eq_of_le least with more | equal
      · have next := Nat.mul_le_mul_right unitsPerOne (Nat.succ_le_of_lt more)
        rw [Nat.succ_mul, Nat.mul_comm power, ← whole] at next
        omega
      · exact equal.symm
    have exact : count * unitsPerOne = 2 ^ exponent * 1000 := by
      rw [same, Nat.mul_comm, ← whole, Nat.mul_comm]
    rw [exact, Magnitude.roundedUnits_of_onGrid thousand (onGrid_twoPow exponent), distance]
    omega
  · have few : count < 126 := by
      by_contra! many
      have product := Nat.mul_le_mul_right unitsPerOne many
      omega
    have lower : (2 * count - 1) * unitsPerOne / 2000 ≤ magnitude.units := by
      rw [Nat.div_le_iff_le_mul_add_pred (by decide), Nat.sub_mul, Nat.mul_assoc]
      omega
    exact (two_mul_distance_roundedUnits_of_few count few).trans
      (Nat.mul_le_mul_left 1000 (gridStep_mono lower))

end Thousandths

/-- The unit in the last place: the distance of neighbouring doubles at a finite double. -/
def lastPlace : Binary64 → ℚ
  | .finite _ magnitude => gridStep magnitude.units / unitsPerOne
  | _ => 0

/-- In units, the two moves are at most half a thousandth and half a step of the grid. -/
theorem distance_reread_le (magnitude : Magnitude) :
    let units := Magnitude.roundedUnits (magnitude.scaled 3 * unitsPerOne) 1000
    2000 * distance magnitude.units 1 units ≤
      unitsPerOne + 1000 * min (gridStep magnitude.units) (gridStep units) := by
  intro units
  have thousand : 0 < 1000 := by decide
  have written := two_mul_distance_scaled_le magnitude
  have old := two_mul_distance_reread_le magnitude
  have new := (Magnitude.two_mul_distance_roundedUnits_le
    (magnitude.scaled 3 * unitsPerOne) thousand).trans (Nat.mul_le_mul_left 1000
      (Magnitude.gridStep_le_gridStep_roundedUnits (magnitude.scaled 3 * unitsPerOne) thousand))
  change 2 * distance _ _ units ≤ 1000 * gridStep units at new
  change 2 * distance _ _ units ≤ _ at old
  rw [distance] at written old new ⊢
  omega

theorem value?_reread (negative : Bool) (magnitude : Magnitude) :
    (reread negative magnitude).value? = some (signed negative
      (Magnitude.roundedUnits (thousandths negative magnitude * unitsPerOne) 1000 /
        unitsPerOne : ℚ)) := by
  simp only [reread, value?, Option.some_inj]
  by_cases zero : thousandths negative magnitude = 0
  · rw [zero, Nat.zero_mul, Magnitude.roundedUnits_zero, Nat.cast_zero, zero_div, signed_zero,
      signed_zero]
  · rw [bne_iff_ne.mpr zero, Bool.and_true]

/-- What was written in thousandths and read again has moved by at most half a thousandth and half a
unit in the last place. -/
theorem exists_value?_reread (negative : Bool) {magnitude : Magnitude}
    (below : magnitude.units < 2 ^ 63 * unitsPerOne) :
    ∃ other, (reread negative magnitude).value? = some other ∧
      |other - signed negative (magnitude.units / unitsPerOne : ℚ)| ≤ 1 / 2000 +
        min (lastPlace (.finite negative magnitude)) (lastPlace (reread negative magnitude)) / 2 := by
  refine ⟨_, value?_reread negative magnitude, ?_⟩
  rw [reread, lastPlace, lastPlace]
  simp only [thousandths_of_lt (lt_wholeLimit_mul negative below)]
  have near := distance_reread_le magnitude
  generalize Magnitude.roundedUnits (magnitude.scaled 3 * unitsPerOne) 1000 = units at *
  have one := unitsPerOne_cast_pos
  have moved : |(units : ℚ) - magnitude.units| = distance magnitude.units 1 units := by
    rw [cast_distance, Nat.cast_one, mul_one]
  have cast : 2000 * |(units : ℚ) - magnitude.units| ≤
      unitsPerOne + 1000 * min (gridStep magnitude.units : ℚ) (gridStep units) := by
    rw [moved]
    exact_mod_cast near
  have sign : |signed negative (units / unitsPerOne : ℚ) -
      signed negative (magnitude.units / unitsPerOne : ℚ)| =
        |(units : ℚ) - magnitude.units| / unitsPerOne := by
    rw [abs_signed_sub, ← sub_div, abs_div, abs_of_pos one]
  rw [sign, min_div_div_right one.le, div_le_iff₀ one, add_mul, div_right_comm,
    div_mul_cancel₀ _ one.ne']
  linarith

end Binary64

end ThemeCss
