import ThemeCss.Proofs.Theme.Columns
import ThemeCss.Report

/-! # The ratio of two sizes

A report sets its two sizes in proportion as a grid does with its columns, and writes the ratio with
one decimal. The roundings on the way never move a ratio over the middle between two decimals: sizes
that can be written in the table are too small for that. So where the written ratio gets another
digit is a question about the sizes alone.
-/

namespace ThemeCss

namespace Binary64

/-- Whether a number has the sign of negative ones. -/
def isNegative : Binary64 → Bool
  | .nan => false
  | .infinite negative => negative
  | .finite negative _ => negative

theorem isNegative_ofUnits (negative : Bool) (num den : ℕ) :
    (ofUnits negative num den).isNegative = negative := by
  unfold ofUnits
  split <;> rfl

theorem isNegative_ofNat (n : ℕ) : (ofNat n).isNegative = false := isNegative_ofUnits false _ _

section Signs

variable {a b : Binary64} {p q : ℚ} (left : a.value? = some p) (right : b.value? = some q)

include left right

theorem isNegative_mul : (a * b).isNegative = (a.isNegative ^^ b.isNegative) := by
  obtain ⟨negative, first, rfl, rfl⟩ := exists_of_value? left
  obtain ⟨sign, second, rfl, rfl⟩ := exists_of_value? right
  change (mul (.finite negative first) (.finite sign second)).isNegative = _
  rw [mul, isNegative_ofUnits]
  rfl

theorem isNegative_div (nonzero : q ≠ 0) :
    (a / b).isNegative = (a.isNegative ^^ b.isNegative) := by
  obtain ⟨negative, first, rfl, rfl⟩ := exists_of_value? left
  obtain ⟨sign, second, rfl, rfl⟩ := exists_of_value? right
  have units : second.units ≠ 0 := by
    intro zero
    rw [zero, Nat.cast_zero, zero_div, signed_zero] at nonzero
    exact nonzero rfl
  change (div (.finite negative first) (.finite sign second)).isNegative = _
  rw [div, if_neg units, isNegative_ofUnits]
  rfl

end Signs

end Binary64

namespace Page

open Binary64

variable {column columns : ℕ}

theorem isNegative_share (some_column : 0 < columns) (inside : column ≤ columns)
    (few : columns ≤ 2 ^ 53) :
    (ofNat column / ofNat columns * ofNat 100).isNegative = false := by
  have top : (ofNat column).value? = some (column : ℚ) := value?_ofNat (inside.trans few)
  have bottom : (ofNat columns).value? = some (columns : ℚ) := value?_ofNat few
  have nonzero : (columns : ℚ) ≠ 0 := by exact_mod_cast some_column.ne'
  have hundred : (ofNat 100).value? = some (100 : ℚ) := value?_ofNat (by decide)
  rw [isNegative_mul (value?_quotient some_column inside few) hundred,
    isNegative_div top bottom nonzero, isNegative_ofNat, isNegative_ofNat, isNegative_ofNat,
    Bool.xor_self, Bool.xor_self]

/-- A share is written without sign. -/
theorem exists_fixed_share (some_column : 0 < columns) (inside : column ≤ columns)
    (few : columns ≤ 2 ^ 53) (places : ℕ) : ∃ count : ℕ,
      nearestWhole (share column columns * 10 ^ places) = count ∧
        ((ofNat column / ofNat columns * ofNat 100).fixed places).toList =
          Nat.toDigits 10 (count / 10 ^ places) ++
            '.' :: paddedDigits places (count % 10 ^ places) := by
  obtain ⟨negative, magnitude, same, nearest⟩ :=
    exists_scaled (value?_share some_column inside few) places
  have unsigned := isNegative_share some_column inside few
  rw [same, isNegative] at unsigned
  subst unsigned
  exact ⟨magnitude.scaled places, nearest, by rw [same, toList_fixed]; rfl⟩

/-- What the digits in front of the point say about a share. -/
theorem length_fixed_share_le_iff {digits : ℕ} (some_digit : 0 < digits)
    (some_column : 0 < columns) (inside : column ≤ columns) (few : columns ≤ 2 ^ 53) :
    ((ofNat column / ofNat columns * ofNat 100).fixed 1).toList.length ≤ digits + 2 ↔
      nearestWhole (share column columns * 10) < 10 ^ (digits + 1) := by
  obtain ⟨count, nearest, text⟩ := exists_fixed_share some_column inside few 1
  have width := length_paddedDigits (mod_tenPow_lt count 1) Nat.one_pos
  have whole : (count : ℤ) < 10 ^ (digits + 1) ↔ count < 10 ^ (digits + 1) := by
    rw [← Int.ofNat_lt, Nat.cast_pow]
    rfl
  rw [pow_one] at nearest
  rw [text, nearest, whole, List.length_append, List.length_cons, width, Nat.add_le_add_iff_right,
    Nat.length_toDigits_le_iff (by decide) some_digit, pow_one,
    Nat.div_lt_iff_lt_mul (by decide), ← Nat.pow_succ]

theorem three_le_length_fixed_share (some_column : 0 < columns) (inside : column ≤ columns)
    (few : columns ≤ 2 ^ 53) :
    3 ≤ ((ofNat column / ofNat columns * ofNat 100).fixed 1).toList.length := by
  obtain ⟨count, -, text⟩ := exists_fixed_share some_column inside few 1
  have width := length_paddedDigits (mod_tenPow_lt count 1) Nat.one_pos
  have front : 0 < (Nat.toDigits 10 (count / 10 ^ 1)).length :=
    List.length_pos_of_ne_nil Nat.toDigits_ne_nil
  rw [text, List.length_append, List.length_cons, width]
  omega

end Page

theorem nearestWhole_lt {number : ℚ} {n : ℤ} (below : number + 1 / 2 < n) :
    nearestWhole number < n := by
  have near := (abs_le.mp (abs_nearestWhole_sub_le number)).2
  have less : (nearestWhole number : ℚ) < n := by linarith
  exact_mod_cast less

namespace Page

variable {column columns : ℕ}

/-- A share that is not close to all of the width has two digits in front of the point. -/
theorem nearestWhole_share_lt_thousand (inside : column ≤ columns)
    (part : 1000 * column ≤ 999 * columns) : nearestWhole (share column columns * 10) < 1000 := by
  have size : (0 : ℚ) ≤ columns := Nat.cast_nonneg _
  have exact : (100 * column / columns : ℚ) ≤ 99.9 := by
    have cast : (1000 * column : ℚ) ≤ 999 * columns := by exact_mod_cast part
    exact div_le_of_le_mul₀ size (by norm_num) (by linarith)
  have error := (abs_le.mp (abs_share_sub_le inside)).2
  apply nearestWhole_lt
  push_cast
  norm_num at error exact ⊢
  linarith

/-- The roundings carry no share over the middle between the decimals on the two sides of 9.95. -/
theorem share_lt_iff (some_column : 0 < columns) (inside : column ≤ columns)
    (few : columns < 10 ^ 12) :
    share column columns * 10 < 199 / 2 ↔ 2000 * column < 199 * columns := by
  have size : (0 : ℚ) < 2 * columns := by exact_mod_cast Nat.mul_pos two_pos some_column
  have bound : (columns : ℚ) < 10 ^ 12 := by exact_mod_cast few
  have error := abs_le.mp (abs_share_sub_le inside)
  have exact : (100 * column / columns : ℚ) * (2 * columns) = 200 * column := by
    have nonzero : (columns : ℚ) ≠ 0 := by exact_mod_cast some_column.ne'
    field_simp
    ring
  generalize (100 * column / columns : ℚ) = ratio at error exact
  -- The errors are less than the distance of another ratio from the middle.
  have gap : (10 * (328 / 2 ^ 54) : ℚ) * (2 * columns) < 1 := by
    have most : (10 * (328 / 2 ^ 54) : ℚ) * (2 * 10 ^ 12) < 1 := by norm_num
    linarith
  rcases lt_trichotomy (2000 * column) (199 * columns) with less | tie | more
  · have cast : (2000 * column + 1 : ℚ) ≤ 199 * columns := by exact_mod_cast less
    have apart : (10 * (328 / 2 ^ 54) : ℚ) < 199 / 2 - 10 * ratio := by
      refine lt_of_mul_lt_mul_right ?_ size.le
      linarith
    exact iff_of_true (by linarith) less
  · have same : (column / columns : ℚ) = (199 : ℕ) / (2000 : ℕ) := by
      rw [div_eq_div_iff (by linarith) (by norm_num)]
      exact_mod_cast (Nat.mul_comm column 2000).trans tie
    have middle : ¬ share 199 2000 * 10 < 199 / 2 := by decide +kernel
    refine iff_of_false ?_ tie.not_lt
    rwa [share, same, ← share]
  · have cast : (199 * columns + 1 : ℚ) ≤ 2000 * column := by exact_mod_cast more
    have apart : (10 * (328 / 2 ^ 54) : ℚ) < 10 * ratio - 199 / 2 := by
      refine lt_of_mul_lt_mul_right ?_ size.le
      linarith
    exact iff_of_false (by linarith) more.not_gt

theorem nearestWhole_share_lt_hundred_iff (some_column : 0 < columns) (inside : column ≤ columns)
    (few : columns < 10 ^ 12) :
    nearestWhole (share column columns * 10) < 100 ↔ 2000 * column < 199 * columns := by
  have middle : nearestWhole (199 / 2) = 100 := by decide +kernel
  rw [← share_lt_iff some_column inside few]
  refine ⟨fun less => ?_, fun less => ?_⟩
  · by_contra! reached
    have order := nearestWhole_mono reached
    omega
  · apply nearestWhole_lt
    push_cast
    linarith

end Page

end ThemeCss
