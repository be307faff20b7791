import ThemeCss.Proofs.Number.Places
import ThemeCss.Proofs.Theme.Cascade

/-! # Multiples of what is configured

The steps of spacing and the height of a line are products of a configured number and a factor. If
the number was written in thousandths, the double that was read is not exactly what was written, and
the product is rounded again, but what is printed is the decimal that is nearest to the exact
product.
-/

namespace ThemeCss

open Binary64

section Product

variable {x y : Binary64} {k : ℤ} {factor : ℚ}

theorem abs_thousandths_le (bound : |k| ≤ 10 ^ 12) : |(k / 1000 : ℚ)| ≤ 10 ^ 9 := by
  have cast : |(k : ℚ)| ≤ 10 ^ 12 := by exact_mod_cast bound
  rw [abs_div, abs_of_pos (by norm_num : (0 : ℚ) < 1000), div_le_iff₀ (by norm_num)]
  linarith

/-- What was written in thousandths is read up to an error far below a thousandth. -/
theorem abs_read_sub_le (bound : |k| ≤ 10 ^ 12) :
    |rounded (k / 1000) - k / 1000| ≤ 2 ^ 30 / 2 ^ 54 :=
  abs_rounded_sub_le ((abs_thousandths_le bound).trans_lt (by norm_num))

theorem abs_read_mul_lt (bound : |k| ≤ 10 ^ 12) (low : 0 ≤ factor) (high : factor ≤ 100) :
    |rounded (k / 1000) * factor| < 2 ^ 37 := by
  have size := abs_thousandths_le bound
  have read := abs_le_abs_add (abs_read_sub_le bound)
  calc
    |rounded (k / 1000) * factor| = |rounded (k / 1000 : ℚ)| * factor := by
      rw [abs_mul, abs_of_nonneg low]
    _ ≤ (10 ^ 9 + 2 ^ 30 / 2 ^ 54) * 100 :=
      mul_le_mul (by linarith) high low (by norm_num)
    _ < 2 ^ 37 := by norm_num

/-- The errors of the number and of the product, in thousandths. -/
theorem abs_product_sub_lt (bound : |k| ≤ 10 ^ 12) (low : 0 ≤ factor) (high : factor ≤ 100) :
    |rounded (rounded (k / 1000) * factor) * 1000 - k * factor| < 1 / 8 := by
  have number : |rounded (k / 1000) * factor - k / 1000 * factor| ≤ 2 ^ 30 / 2 ^ 54 * 100 := by
    rw [abs_mul_sub_mul _ _ low]
    exact mul_le_mul (abs_read_sub_le bound) high low (by norm_num)
  have product := abs_rounded_sub_le_add number (abs_read_mul_lt bound low high)
  calc
    |rounded (rounded (k / 1000) * factor) * 1000 - k * factor| =
        |rounded (rounded (k / 1000) * factor) - k / 1000 * factor| * 1000 := by
      rw [← abs_mul_sub_mul _ _ (by norm_num)]
      ring_nf
    _ ≤ (2 ^ 37 / 2 ^ 54 + 2 ^ 30 / 2 ^ 54 * 100) * 1000 :=
      mul_le_mul_of_nonneg_right product (by norm_num)
    _ < 1 / 8 := by norm_num

/-- The product with a factor in quarters is printed in thousandths next to the exact one. -/
theorem exists_compact_mul (bound : |k| ≤ 10 ^ 12) (value : x.value? = some (rounded (k / 1000)))
    {num den : ℕ} (right : y.value? = some (num / den : ℚ)) (high : (num / den : ℚ) ≤ 100)
    (positive : 0 < den) (small : den ≤ 4) : ∃ count : ℤ,
      (x * y).compact.toList = decimalText 3 count ∧ |count - k * (num / den : ℚ)| ≤ 1 / 2 := by
  have low : (0 : ℚ) ≤ num / den := by positivity
  have few := abs_read_mul_lt bound low high
  have product := value?_mul value right (lt_finiteLimit (by linarith))
  have near := abs_product_sub_lt bound low high
  refine ⟨_, toList_compact_eq_decimalText product ?_, ?_⟩
  · have size := abs_le_abs_add (abs_rounded_sub_le few)
    linarith
  · have exact : (k * (num / den) : ℚ) = ((k * num : ℤ) : ℚ) / den := by
      rw [Int.cast_mul, Int.cast_natCast, mul_div_assoc]
    have room : (1 / 8 : ℚ) ≤ 1 / (2 * den) := by
      have four : (den : ℚ) ≤ 4 := by exact_mod_cast small
      exact one_div_le_one_div_of_le (by positivity) (by linarith)
    rw [exact] at near ⊢
    exact abs_nearestWhole_sub_quotient_le positive (near.trans_le room)

end Product

/-- What is printed for an exact measure, without the unit. -/
structure IsMeasure (exact : ℚ) (text : String) : Prop where
  nearest : IsNearestNumeral 3 text.toList exact
  /-- A measure with at most three places is printed as it is. -/
  decimal {count : ℤ} (few : exact = count / 1000) : numeralValue? text.toList = some exact
  zero (none : exact = 0) : text = "0"

theorem isMeasure_of_le_half {exact : ℚ} {text : String} {count : ℤ}
    (written : text.toList = decimalText 3 count) (near : |count - exact * 1000| ≤ 1 / 2) :
    IsMeasure exact text := by
  have thousand : (10 ^ 3 : ℚ) = 1000 := by norm_num
  have value : numeralValue? text.toList = some (count / 10 ^ 3 : ℚ) := by
    rw [written, numeralValue?_decimalText (by decide)]
  have nearest : IsNearestNumeral 3 text.toList exact :=
    isNearestNumeral_of_le_half value (by rwa [thousand])
  refine ⟨nearest, fun few => nearest.eq_of_decimal (few.trans (by rw [thousand])), ?_⟩
  rintro rfl
  rw [zero_mul, ← Int.cast_zero] at near
  rw [← String.toList_inj, written, eq_of_abs_sub_le_half near]
  decide

/-- A quarter is a number of units, and few quarters are on the grid. -/
theorem exists_quarter : ∃ quarter, 0 < quarter ∧ unitsPerOne = quarter * 4 ∧
    ∀ {num}, num ≤ Nat.pow 2 53 → OnGrid (num * quarter) :=
  ⟨Nat.pow 2 (unitPlaces - 2), twoPow_pos _, by decide +kernel, gridStep_dvd_steps⟩

/-- Quarters are doubles. -/
theorem rounded_quarters {num : ℕ} (few : num ≤ 2 ^ 53) : rounded (num / 4) = num / 4 := by
  obtain ⟨quarter, positive, units, onGrid⟩ := exists_quarter
  have exact := rounded_of_onGrid (onGrid few)
  have nonzero : (quarter : ℚ) ≠ 0 := by exact_mod_cast positive.ne'
  rwa [units, Nat.cast_mul, Nat.cast_mul, Nat.cast_ofNat, mul_comm (quarter : ℚ),
    mul_div_mul_right _ _ nonzero] at exact

theorem value?_ofDecimal_quarters (digits places : ℕ) {num : ℕ} (few : num ≤ 12)
    (exact : (digits / 10 ^ places : ℚ) = num / 4) :
    (ofDecimal false digits (-(places : ℤ))).value? = some (num / 4 : ℚ) := by
  have twelve : (num : ℚ) ≤ 12 := by exact_mod_cast few
  have small : (digits / 10 ^ places : ℚ) < finiteLimit := by
    rw [exact]
    exact lt_finiteLimit (by linarith)
  rw [value?_ofDecimal false digits places small, exact]
  exact congrArg some (rounded_quarters (few.trans (by decide)))

theorem value?_ofNat_quarters (n : ℕ) (few : n ≤ 2 ^ 53) :
    (ofNat n).value? = some ((n * 4 : ℕ) / 4 : ℚ) := by
  rw [value?_ofNat few, Nat.cast_mul, Nat.cast_ofNat, mul_div_cancel_right₀ _ (by norm_num)]

/-- The steps of spacing are quarters. -/
theorem exists_quarters : ∀ step ∈ Utilities.spacingSteps,
    ∃ num : ℕ, num ≤ 12 ∧ step.value? = some (num / 4 : ℚ) := by
  simp only [Utilities.spacingSteps, List.forall_mem_cons]
  exact ⟨⟨0 * 4, by decide, value?_ofNat_quarters 0 (by decide)⟩,
    ⟨1, by decide, value?_ofDecimal_quarters 25 2 (by decide) (by norm_num)⟩,
    ⟨2, by decide, value?_ofDecimal_quarters 5 1 (by decide) (by norm_num)⟩,
    ⟨3, by decide, value?_ofDecimal_quarters 75 2 (by decide) (by norm_num)⟩,
    ⟨1 * 4, by decide, value?_ofNat_quarters 1 (by decide)⟩,
    ⟨6, by decide, value?_ofDecimal_quarters 15 1 (by decide) (by norm_num)⟩,
    ⟨2 * 4, by decide, value?_ofNat_quarters 2 (by decide)⟩,
    ⟨3 * 4, by decide, value?_ofNat_quarters 3 (by decide)⟩, List.forall_mem_nil _⟩

/-- What is printed for a step of spacing. -/
theorem isMeasure_step {k : ℤ} {unit : Length} {step : Binary64} (bound : |k| ≤ 10 ^ 12)
    (value : unit.value.value? = some (rounded (k / 1000)))
    (known : step ∈ Utilities.spacingSteps) : ∃ factor, step.value? = some factor ∧
      IsMeasure (k / 1000 * factor) (unit.value * step).compact := by
  obtain ⟨num, few, quarters⟩ := exists_quarters step known
  have high : (num / 4 : ℚ) ≤ 100 := by
    have twelve : (num : ℚ) ≤ 12 := by exact_mod_cast few
    linarith
  obtain ⟨count, written, near⟩ :=
    exists_compact_mul bound value (by exact_mod_cast quarters) (by exact_mod_cast high)
      (by decide : 0 < 4) le_rfl
  refine ⟨_, quarters, isMeasure_of_le_half written ?_⟩
  have thousandfold : (k / 1000 * (num / 4) * 1000 : ℚ) = k * (num / (4 : ℕ)) := by
    push_cast
    ring
  rwa [thousandfold]

/-- In per cent a number of thousandths has one place. -/
theorem isShortestNumeral_lineHeight {k : ℤ} {ratio : Binary64} (bound : |k| ≤ 10 ^ 12)
    (value : ratio.value? = some (rounded (k / 1000))) :
    IsShortestNumeral (ratio * ofNat 100).compact.toList (k / 10) := by
  have hundred : (ofNat 100).value? = some ((100 : ℕ) / (1 : ℕ) : ℚ) := by
    rw [value?_ofNat (by decide), Nat.cast_one, div_one]
  obtain ⟨count, written, near⟩ :=
    exists_compact_mul bound value hundred (by norm_num) Nat.one_pos (by decide)
  have whole : count = k * 100 := by
    apply eq_of_abs_sub_le_half
    push_cast at near ⊢
    rwa [div_one] at near
  have percent : (k / 10 : ℚ) = (k * 100 : ℤ) / 10 ^ 3 := by
    push_cast
    ring
  rw [written, whole, percent]
  exact isShortestNumeral_decimalText (by decide) _

namespace Theme

/-- If a number was written in thousandths, multiples of it are printed as if they had been computed
exactly: each step of spacing as the nearest number with three places, and the height of a line in
per cent. -/
theorem measures_nearest {k : ℤ} (bound : |k| ≤ 10 ^ 12) :
    (∀ unit : Length, unit.value.value? = some (rounded (k / 1000)) →
      ∃ number : Binary64 → String,
        (∀ step ∈ Utilities.spacingSteps, ∃ factor, step.value? = some factor ∧
          IsMeasure (k / 1000 * factor) (number step)) ∧
        Utilities.spacingClasses unit =
          Utilities.spacingProperties.flatMap fun (property, letter) =>
            Utilities.spacingDirections.flatMap fun (direction, sides) =>
              Utilities.spacingSteps.zipIdx.map fun (step, index) =>
                ⟨s!"{letter}{direction}-{index}",
                  Utilities.sideDeclarations property sides (number step ++ unit.unit)⟩) ∧
    ∀ theme : Theme, theme.spacing.lineHeight.value? = some (rounded (k / 1000)) →
      ∃ number : String, IsShortestNumeral number.toList (k / 10) ∧
        .rule (Page.bodyRule theme) ∈ theme.text.blocks ∧
        (Page.bodyRule theme).declarations.filter (·.property == "line-height") =
          [⟨"line-height", number ++ "%"⟩] := by
  refine ⟨fun unit value => ?_, fun theme value => ?_⟩
  · refine ⟨fun step => (unit.value * step).compact, ?_, rfl⟩
    exact fun step known => isMeasure_step bound value known
  · refine ⟨_, isShortestNumeral_lineHeight bound value, ?_, rfl⟩
    exact List.mem_cons_of_mem _ List.mem_cons_self

/-- A theme whose unit and whose lines are an eighth more than the size of text. -/
def loose : Theme :=
  { ofColors shore with
    spacing := ⟨⟨ofDecimal false 1125 (-3), "rem"⟩, ofDecimal false 1125 (-3)⟩ }

/-- A quarter of 1.125 has five places, and 1.125 is 112.5 per cent. -/
theorem measures_nearest_loose :
    |(1125 : ℤ)| ≤ 10 ^ 12 ∧
      loose.spacing.baseUnit.value.value? = some (rounded ((1125 : ℤ) / 1000)) ∧
      IsMeasure ((1125 : ℤ) / 1000 * (1 / 4)) "0.281" ∧
      loose.spacing.lineHeight.value? = some (rounded ((1125 : ℤ) / 1000)) ∧
      IsShortestNumeral "112.5".toList ((1125 : ℤ) / 10) := by
  have bound : |(1125 : ℤ)| ≤ 10 ^ 12 := by decide
  have spacing : loose.spacing =
      ⟨⟨ofDecimal false 1125 (-3), "rem"⟩, ofDecimal false 1125 (-3)⟩ := rfl
  have value : (ofDecimal false 1125 (-3)).value? = some (rounded ((1125 : ℤ) / 1000)) := by
    have read := value?_ofDecimal false 1125 3 (lt_finiteLimit (by norm_num))
    have thousandths : signed false ((1125 : ℕ) / 10 ^ 3 : ℚ) = ((1125 : ℤ) / 1000 : ℚ) := by
      norm_num [signed]
    rw [← thousandths]
    exact read
  have unitValue : loose.spacing.baseUnit.value.value? = some (rounded ((1125 : ℤ) / 1000)) := by
    simpa only [spacing] using value
  have ratioValue : loose.spacing.lineHeight.value? = some (rounded ((1125 : ℤ) / 1000)) := by
    simpa only [spacing] using value
  obtain ⟨units, ratios⟩ := measures_nearest bound
  obtain ⟨number, steps, classes⟩ := units loose.spacing.baseUnit unitValue
  obtain ⟨percent, shortest, -, height⟩ := ratios loose ratioValue
  refine ⟨bound, unitValue, ?_, ratioValue, ?_⟩
  · obtain ⟨factor, quarter, measure⟩ := steps _ (List.mem_cons_of_mem _ List.mem_cons_self)
    have known : (ofDecimal false 25 (-2)).value? = some ((1 : ℕ) / 4 : ℚ) :=
      value?_ofDecimal_quarters 25 2 (by decide) (by norm_num)
    have printed : (Utilities.spacingClasses loose.spacing.baseUnit)[1]?.map
        (·.declarations.map (·.value)) = some ["0.281rem"] := by decide +kernel
    rw [classes] at printed
    change some [number (ofDecimal false 25 (-2)) ++ "rem"] = some ["0.281" ++ "rem"] at printed
    simp only [Option.some.injEq, List.cons.injEq, and_true, String.append_left_inj] at printed
    obtain rfl := Option.some.inj (quarter.symm.trans known)
    rwa [printed, Nat.cast_one] at measure
  · have printed : (Page.bodyRule loose).declarations.filter (·.property == "line-height") =
        [⟨"line-height", "112.5" ++ "%"⟩] := by decide +kernel
    rw [height] at printed
    simp only [List.cons.injEq, Declaration.mk.injEq, true_and, and_true,
      String.append_left_inj] at printed
    rwa [printed] at shortest

end Theme

end ThemeCss
