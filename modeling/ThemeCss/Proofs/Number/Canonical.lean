import ThemeCss.Proofs.Number.Places

/-! # The form in which doubles are written

Doubles of less than 64 bits are written in one form, whichever way is taken: whole numbers as they
are, others in thousandths without the zeros at the end. The text is that of the nearest thousandth,
of two equally near ones of the even one, so the order of doubles is kept.
-/

namespace ThemeCss

/-- A number in the middle between two whole ones goes to the even one. -/
theorem even_nearestWhole_of_tie (number : ℚ) (tie : |nearestWhole number - number| = 1 / 2) :
    Even (nearestWhole number) := by
  induction number using forall_of_nonneg with
  | flip number even =>
    rw [nearestWhole_neg, even_neg]
    apply even
    rwa [nearestWhole_neg, Int.cast_neg, neg_sub_neg, abs_sub_comm] at tie
  | positive number above =>
    obtain ⟨num, den, positive, rfl⟩ := exists_quotient above
    have size : (0 : ℚ) < den := by exact_mod_cast positive
    rw [nearestWhole_quotient num positive, Int.cast_natCast, abs_natCast_sub_div _ num positive,
      div_eq_div_iff size.ne' two_ne_zero, one_mul] at tie
    have half : distance num den (halfEven num den) * 2 = den := by exact_mod_cast tie
    rw [nearestWhole_quotient num positive]
    rcases (halfEven_eq_iff positive).mp (Eq.refl (halfEven num den)) with less | ⟨-, even⟩
    · omega
    · exact (Nat.even_iff.mpr even).natCast

/-- The numeral stands for the decimal with so many places that is nearest to a number, and for the
even one of two that are equally near. -/
def IsNearestEvenNumeral (places : ℕ) (text : List Char) (exact : ℚ) : Prop :=
  ∃ count : ℤ, numeralValue? text = some (count / 10 ^ places : ℚ) ∧ ∀ other : ℤ, other ≠ count →
    |(count / 10 ^ places : ℚ) - exact| < |(other / 10 ^ places : ℚ) - exact| ∨
      |(count / 10 ^ places : ℚ) - exact| = |(other / 10 ^ places : ℚ) - exact| ∧ Even count

/-- The nearest whole number is nearer than any other one, or in a tie and even. -/
theorem nearestWhole_lt_or_even {other : ℤ} {number : ℚ} (apart : other ≠ nearestWhole number) :
    |nearestWhole number - number| < |other - number| ∨
      |nearestWhole number - number| = |other - number| ∧ Even (nearestWhole number) := by
  have near := abs_nearestWhole_sub_le number
  rcases (abs_sub_le_of_le_half near other).lt_or_eq with nearer | tie
  · exact .inl nearer
  · refine .inr ⟨tie, even_nearestWhole_of_tie number (le_antisymm near ?_)⟩
    -- Two whole numbers at the same distance are at least a half away each.
    have whole := one_le_abs_sub apart
    have way := abs_sub_le (other : ℚ) number (nearestWhole number)
    rw [abs_sub_comm number, ← tie] at way
    linarith

theorem isNearestEvenNumeral_decimalText {places : ℕ} (positive : 0 < places) (exact : ℚ) :
    IsNearestEvenNumeral places (decimalText places (nearestWhole (exact * 10 ^ places)))
      exact := by
  refine ⟨_, numeralValue?_decimalText positive _, fun other apart => ?_⟩
  have power : (0 : ℚ) < 10 ^ places := by positivity
  rw [abs_div_tenPow_sub, abs_div_tenPow_sub, div_lt_div_iff_of_pos_right power,
    div_left_inj' power.ne']
  exact nearestWhole_lt_or_even apart

/-- The parts of a numeral in the form `-?(0|[1-9][0-9]*)(\.[0-9]{1,n})?`: no zero in front of other
digits, at most so many places and no zero at their end, and no sign at zero. -/
structure IsCanonical (places : ℕ) (negative : Bool) (whole kept : List Char) : Prop where
  digits : ∀ c ∈ whole ++ kept, c.isDigit = true
  some_digit : whole ≠ []
  leading : whole.head? = some '0' → whole = ['0']
  few : kept.length ≤ places
  trailing : kept.getLast? ≠ some '0'
  unsigned : whole = ['0'] → kept = [] → negative = false

/-- The text is a numeral in the form in which numbers are written. -/
def IsCanonicalNumeral (places : ℕ) (text : List Char) : Prop :=
  ∃ negative whole kept, IsCanonical places negative whole kept ∧
    text = (if negative then ['-'] else []) ++ (whole ++ pointed kept)

theorem isCanonicalNumeral_decimalText {places : ℕ} (positive : 0 < places) (count : ℤ) :
    IsCanonicalNumeral places (decimalText places count) := by
  obtain ⟨kept, text, trimmed⟩ := exists_decimalText positive count
  refine ⟨decide (count < 0), _, kept, ?_, by simpa only [decide_eq_true_eq] using text⟩
  constructor
  case digits => exact trimmed.digits
  case some_digit => exact trimmed.some_digit
  case leading =>
    intro zero
    rw [eq_zero_of_head?_toDigits zero]
    rfl
  case few => exact trimmed.few
  case trailing =>
    intro zero
    obtain ⟨front, rfl⟩ := List.getLast?_eq_some_iff.mp zero
    refine trimmed.last (List.concat_ne_nil '0' front) ?_
    rw [← List.append_assoc, digitsValue_concat, Nat.sub_self, Nat.add_zero]
    exact Nat.dvd_mul_right 10 _
  case unsigned =>
    rintro zero rfl
    have value := trimmed.value
    rw [zero] at value
    have none : count.natAbs = 0 := value.symm.trans (Nat.zero_mul _)
    rw [decide_eq_false_iff_not, Int.natAbs_eq_zero.mp none]
    exact lt_irrefl 0

namespace Binary64

/-- A double that is less than 2⁶³ in size is written as the nearest thousandth, a tie going to the
even one, in canonical form; and what is written for a greater one does not stand for less. -/
theorem compact_canonical {x : Binary64} {number : ℚ} (value : x.value? = some number)
    (within : |number| < 2 ^ 63) :
    IsCanonicalNumeral 3 x.compact.toList ∧
      IsNearestEvenNumeral 3 x.compact.toList number ∧
      ∀ (y : Binary64) (other : ℚ), y.value? = some other → |other| < 2 ^ 63 → x.le y = true →
        ∃ less more, numeralValue? x.compact.toList = some less ∧
          numeralValue? y.compact.toList = some more ∧ less ≤ more := by
  have places : 0 < 3 := by decide
  have thousand : (1000 : ℚ) = 10 ^ 3 := by norm_num
  have text {z : Binary64} {exact : ℚ} (value : z.value? = some exact) (within : |exact| < 2 ^ 63) :
      z.compact.toList = decimalText 3 (nearestWhole (exact * 10 ^ 3)) := by
    rw [toList_compact_eq_decimalText value within, thousand]
  rw [text value within]
  refine ⟨isCanonicalNumeral_decimalText places _, isNearestEvenNumeral_decimalText places number,
    fun y other known few order => ?_⟩
  rw [text known few]
  refine ⟨_, _, numeralValue?_decimalText places _, numeralValue?_decimalText places _, ?_⟩
  have scaled := mul_le_mul_of_nonneg_right ((le_iff_of_value? value known).mp order)
    (by norm_num : (0 : ℚ) ≤ 10 ^ 3)
  exact div_le_div_of_nonneg_right (Int.cast_le.mpr (nearestWhole_mono scaled)) (by norm_num)

/-- A sixteenth is in the middle between 0.062 and 0.063. -/
theorem compact_canonical_sixteenth :
    (ofDecimal true 625 (-4)).value? = some (-1 / 16 : ℚ) ∧ |(-1 / 16 : ℚ)| < 2 ^ 63 ∧
      (ofNat 1).value? = some 1 ∧ |(1 : ℚ)| < 2 ^ 63 ∧
      (ofDecimal true 625 (-4)).le (ofNat 1) = true ∧
      IsCanonicalNumeral 3 "-0.062".toList ∧ IsNearestEvenNumeral 3 "-0.062".toList (-1 / 16) ∧
      ∃ less more, numeralValue? "-0.062".toList = some less ∧
        numeralValue? "1".toList = some more ∧ less ≤ more := by
  have place : (ofDecimal true 625 (-4)).place? = some (-((unitsPerOne / 16 : ℕ) : ℤ)) := by
    decide +kernel
  have inside : unitsPerOne / 16 < overflowUnits := by decide +kernel
  have whole : 16 ∣ unitsPerOne := by decide +kernel
  have value : (ofDecimal true 625 (-4)).value? = some (-1 / 16 : ℚ) := by
    rw [value?_of_place? place (by rw [abs_neg, Nat.abs_cast]; exact Int.ofNat_lt.mpr inside),
      Int.cast_neg, Int.cast_natCast, Nat.cast_div whole (by norm_num), Nat.cast_ofNat, neg_div,
      div_right_comm, div_self unitsPerOne_cast_pos.ne', neg_div]
  have within : |(-1 / 16 : ℚ)| < 2 ^ 63 := by norm_num
  have one : |(1 : ℚ)| < 2 ^ 63 := by norm_num
  have order : (ofDecimal true 625 (-4)).le (ofNat 1) = true := by decide +kernel
  have low : (ofDecimal true 625 (-4)).compact = "-0.062" := by decide +kernel
  have high : (ofNat 1).compact = "1" := by decide +kernel
  obtain ⟨canonical, nearest, mono⟩ := compact_canonical value within
  have kept := mono (ofNat 1) 1 value?_one one order
  rw [low] at canonical nearest kept
  rw [high] at kept
  exact ⟨value, within, value?_one, one, order, canonical, nearest, kept⟩

end Binary64

end ThemeCss
