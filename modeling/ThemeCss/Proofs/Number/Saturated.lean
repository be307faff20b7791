import ThemeCss.Proofs.Number.LastPlace
import ThemeCss.Proofs.Number.Places

/-! # Which numbers are written

Whole numbers are kept within 64 bits when they are written, and what is not finite is written as a
word. A double that such a text was written for is within half a thousandth of it if and only if it
is one of the numbers of 64 bits or lies between them.
-/

namespace ThemeCss

open Binary64

/-- A numeral that is at most half a thousandth away from a finite double. -/
def IsFaithful (product : Binary64) (text : String) : Prop :=
  ∃ exact number, product.value? = some exact ∧ numeralValue? text.toList = some number ∧
    |number - exact| ≤ 1 / 2000

/-- What is written for a double: a faithful numeral as long as it is a number of 64 bits, and
otherwise the nearest of those, or a word. -/
structure IsPrinted (product : Binary64) (text : String) : Prop where
  number : product ≠ .nan
  faithful : IsFaithful product text ↔
    ∃ exact, product.value? = some exact ∧ -2 ^ 63 ≤ exact ∧ exact < 2 ^ 63
  above : ∀ exact, product.value? = some exact → 2 ^ 63 ≤ exact → text = "9223372036854775807"
  below : ∀ exact, product.value? = some exact → exact < -2 ^ 63 → text = "-9223372036854775808"
  infinite : ∀ negative, product = .infinite negative → text = if negative then "-inf" else "inf"

namespace Binary64

variable {negative : Bool} {magnitude : Magnitude}

/-- From 2⁵³ on all doubles are whole numbers. -/
theorem unitsPerOne_dvd_of_le (large : 2 ^ 53 * unitsPerOne ≤ magnitude.units) :
    unitsPerOne ∣ magnitude.units := by
  have half : 2 ^ 52 * unitsPerOne ≤ magnitude.units :=
    (Nat.mul_le_mul_right unitsPerOne (by decide)).trans large
  unfold unitsPerOne at half ⊢
  exact OnGrid.twoPow_dvd magnitude.onGrid half

theorem numeralValue?_compact (negative : Bool) (magnitude : Magnitude) :
    numeralValue? (finite negative magnitude).compact.toList =
      some (signed negative (thousandths negative magnitude / 1000 : ℚ)) := by
  have thousand : (10 ^ 3 : ℚ) = 1000 := by norm_num
  rw [toList_compact, thousandthsText_eq_decimalText, numeralValue?_decimalText (by decide),
    cast_signed, thousand, signed_div_right]

/-- The numbers of 64 bits reach one further down than up. -/
theorem lt_wholeLimit_iff : magnitude.units < (wholeLimit negative + 1) * unitsPerOne ↔
    -2 ^ 63 ≤ signed negative (magnitude.units / unitsPerOne : ℚ) ∧
      signed negative (magnitude.units / unitsPerOne : ℚ) < 2 ^ 63 := by
  have one := unitsPerOne_cast_pos
  have size := div_unitsPerOne_nonneg magnitude.units
  cases negative with
  | false =>
    have limit : wholeLimit false + 1 = 2 ^ 63 := by decide
    have bound : (magnitude.units / unitsPerOne : ℚ) < 2 ^ 63 ↔
        magnitude.units < 2 ^ 63 * unitsPerOne := by
      rw [div_lt_iff₀ one]
      exact_mod_cast Iff.rfl
    rw [limit, signed, if_neg Bool.false_ne_true, bound, iff_and_self]
    intro _
    linarith
  | true =>
    have bound : (magnitude.units / unitsPerOne : ℚ) ≤ 2 ^ 63 ↔
        magnitude.units ≤ 2 ^ 63 * unitsPerOne := by
      rw [div_le_iff₀ one]
      exact_mod_cast Iff.rfl
    have limit : wholeLimit true = 2 ^ 63 := rfl
    rw [limit, signed, if_pos rfl, neg_le_neg_iff, bound, iff_comm, and_iff_left (by linarith)]
    constructor
    · intro within
      rw [Nat.add_mul]
      have positive := unitsPerOne_pos
      omega
    · intro within
      by_contra! large
      -- Such a large double is a whole number, and there is none in between.
      have whole := unitsPerOne_dvd_of_le ((Nat.mul_le_mul_right unitsPerOne
        (by decide : 2 ^ 53 ≤ 2 ^ 63)).trans large.le)
      obtain ⟨count, same⟩ := whole
      rw [same, Nat.mul_comm unitsPerOne] at within large
      have less := Nat.lt_of_mul_lt_mul_right within
      have more := Nat.lt_of_mul_lt_mul_right large
      omega

/-- Within 64 bits the text is faithful. -/
theorem isFaithful_of_lt (within : magnitude.units < (wholeLimit negative + 1) * unitsPerOne) :
    IsFaithful (.finite negative magnitude) (finite negative magnitude).compact := by
  refine ⟨_, _, rfl, numeralValue?_compact negative magnitude, ?_⟩
  have one := unitsPerOne_cast_pos
  have near := two_mul_distance_scaled_le magnitude
  have cast : 2 * |(magnitude.scaled 3 : ℚ) * unitsPerOne - 1000 * magnitude.units| ≤
      unitsPerOne := by
    have exact : (1000 * magnitude.units : ℚ) = (magnitude.units * 1000 : ℕ) := by
      rw [Nat.cast_mul, Nat.cast_ofNat, mul_comm]
    rw [exact, ← cast_distance]
    exact_mod_cast near
  have positive : (0 : ℚ) < 1000 * unitsPerOne := mul_pos (by norm_num) one
  rw [thousandths_of_lt within, abs_signed_sub, div_sub_div _ _ (by norm_num) one.ne', abs_div,
    abs_of_pos positive, div_le_iff₀ positive]
  linarith

/-- Beyond 64 bits the text is a whole number away from the double. -/
theorem not_isFaithful_of_le (beyond : (wholeLimit negative + 1) * unitsPerOne ≤ magnitude.units) :
    ¬ IsFaithful (.finite negative magnitude) (finite negative magnitude).compact := by
  rintro ⟨exact, number, value, printed, near⟩
  obtain rfl := Option.some.inj value
  rw [numeralValue?_compact, Option.some_inj] at printed
  subst printed
  have far : (wholeLimit negative + 1 : ℚ) ≤ magnitude.units / unitsPerOne := by
    rw [le_div_iff₀ unitsPerOne_cast_pos]
    exact_mod_cast beyond
  have limit : (thousandths negative magnitude / 1000 : ℚ) = wholeLimit negative := by
    rw [thousandths_of_le beyond, Nat.cast_mul, Nat.cast_ofNat, mul_div_cancel_left₀ _ (by norm_num)]
  rw [abs_signed_sub, limit, abs_sub_comm] at near
  have apart := le_abs_self (magnitude.units / unitsPerOne - wholeLimit negative : ℚ)
  linarith

theorem compact_of_le (beyond : (wholeLimit negative + 1) * unitsPerOne ≤ magnitude.units) :
    (finite negative magnitude).compact =
      if negative then "-9223372036854775808" else "9223372036854775807" := by
  rw [← String.toList_inj, toList_compact, thousandths_of_le beyond]
  cases negative <;> decide

/-- A double that is a number is written as `IsPrinted` says. -/
theorem isPrinted_compact {product : Binary64} (number : product ≠ .nan) :
    IsPrinted product product.compact := by
  cases product with
  | nan => contradiction
  | infinite sign =>
    refine ⟨number, ?_, fun exact value => ?_, fun exact value => ?_, ?_⟩
    · constructor
      · rintro ⟨exact, _, value, -⟩
        cases value
      · rintro ⟨exact, value, -⟩
        cases value
    · cases value
    · cases value
    · rintro negative ⟨⟩
      cases sign <;> rfl
  | finite negative magnitude =>
    have beyond (outside : ¬ (-2 ^ 63 ≤ signed negative (magnitude.units / unitsPerOne : ℚ) ∧
        signed negative (magnitude.units / unitsPerOne : ℚ) < 2 ^ 63)) :
        (wholeLimit negative + 1) * unitsPerOne ≤ magnitude.units :=
      Nat.le_of_not_lt fun within => outside (lt_wholeLimit_iff.mp within)
    have size := div_unitsPerOne_nonneg magnitude.units
    refine ⟨number, ⟨fun faithful => ?_, ?_⟩, ?_, ?_, ?_⟩
    · refine ⟨_, rfl, ?_⟩
      by_contra outside
      exact not_isFaithful_of_le (beyond outside) faithful
    · rintro ⟨exact, value, within⟩
      obtain rfl := Option.some.inj value
      exact isFaithful_of_lt (lt_wholeLimit_iff.mpr within)
    · intro exact value large
      obtain rfl := Option.some.inj value
      rw [compact_of_le (beyond fun within => by linarith [within.2])]
      cases negative with
      | false => rfl
      | true =>
        rw [signed, if_pos rfl] at large
        linarith
    · intro exact value small
      obtain rfl := Option.some.inj value
      rw [compact_of_le (beyond fun within => by linarith [within.1])]
      cases negative with
      | false =>
        rw [signed, if_neg Bool.false_ne_true] at small
        linarith
      | true => rfl
    · rintro sign ⟨⟩

end Binary64

end ThemeCss
