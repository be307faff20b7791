import ThemeCss.Proofs.Number.Places
import ThemeCss.Section.Page

/-! # The widths of columns

The width of some columns is their share of all columns in per cent, with four decimals. A quotient,
a product and the decimals are rounded one after the other, but for no number of columns do the
roundings add up to another decimal than the nearest one.
-/

namespace ThemeCss.Page

open Binary64

/-- The share of the width that is computed, in per cent. -/
def share (column columns : ℕ) : ℚ := rounded (rounded (column / columns) * 100)

section Share

variable {column columns : ℕ}

/-- The share of all columns is at most one. -/
theorem quotient_le_one (inside : column ≤ columns) : (column / columns : ℚ) ≤ 1 :=
  div_le_one_of_le₀ (by exact_mod_cast inside) (Nat.cast_nonneg _)

theorem quotient_between (inside : column ≤ columns) :
    0 ≤ rounded (column / columns : ℚ) ∧ rounded (column / columns : ℚ) ≤ 1 := by
  refine ⟨rounded_nonneg (by positivity), ?_⟩
  have most := rounded_le (by decide : 1 ≤ 2 ^ 53) (quotient_le_one inside)
  exact_mod_cast most

theorem value?_quotient (some_column : 0 < columns) (inside : column ≤ columns)
    (few : columns ≤ 2 ^ 53) :
    (ofNat column / ofNat columns).value? = some (rounded (column / columns)) := by
  apply value?_div (value?_ofNat (inside.trans few)) (value?_ofNat few)
  · exact_mod_cast some_column.ne'
  · rw [abs_of_nonneg (by positivity)]
    exact lt_finiteLimit ((quotient_le_one inside).trans (by norm_num))

theorem value?_share (some_column : 0 < columns) (inside : column ≤ columns)
    (few : columns ≤ 2 ^ 53) :
    (ofNat column / ofNat columns * ofNat 100).value? = some (share column columns) := by
  obtain ⟨low, high⟩ := quotient_between inside
  have hundred : (ofNat 100).value? = some (100 : ℚ) := value?_ofNat (by decide)
  apply value?_mul (value?_quotient some_column inside few) hundred
  rw [abs_of_nonneg (by positivity)]
  exact lt_finiteLimit (by linarith)

theorem share_mono (columns : ℕ) {less more : ℕ} (order : less ≤ more) :
    share less columns ≤ share more columns := by
  have quotients : (less / columns : ℚ) ≤ more / columns :=
    div_le_div_of_nonneg_right (by exact_mod_cast order) (Nat.cast_nonneg _)
  apply rounded_mono
  exact mul_le_mul_of_nonneg_right (rounded_mono quotients) (by norm_num)

theorem share_self (some_column : 0 < columns) : share columns columns = 100 := by
  have one : (columns / columns : ℚ) = 1 := div_self (by exact_mod_cast some_column.ne')
  have hundred : rounded (100 : ℕ) = (100 : ℕ) := rounded_natCast (by decide)
  rw [share, one, rounded_one, one_mul]
  exact_mod_cast hundred

/-- The errors of the quotient and of the product. -/
theorem abs_share_sub_le (inside : column ≤ columns) :
    |share column columns - 100 * column / columns| ≤ 328 / 2 ^ 54 := by
  obtain ⟨low, high⟩ := quotient_between inside
  have below : |(column / columns : ℚ)| < 2 ^ 1 := by
    rw [abs_of_nonneg (by positivity)]
    exact (quotient_le_one inside).trans_lt (by norm_num)
  have quotient := abs_rounded_sub_le below
  have product : |rounded (column / columns) * 100 - 100 * column / columns| ≤
      2 ^ 1 / 2 ^ 54 * 100 := by
    have factor : (100 * column / columns : ℚ) = column / columns * 100 := by ring
    rw [factor, abs_mul_sub_mul _ _ (by norm_num)]
    exact mul_le_mul_of_nonneg_right quotient (by norm_num)
  have size : |rounded (column / columns : ℚ) * 100| < 2 ^ 7 := by
    rw [abs_of_nonneg (by positivity)]
    linarith
  refine (abs_rounded_sub_le_add product size).trans ?_
  norm_num

/-- The errors are less than the distance of a share from the middle between two decimals. -/
theorem abs_nearestWhole_share_sub_le (some_column : 0 < columns) (few : columns ≤ 2 ^ 31)
    (inside : column ≤ columns) :
    |nearestWhole (share column columns * 10 ^ 4) - (100 * column / columns * 10 ^ 4 : ℚ)| ≤
      1 / 2 := by
  have size : (0 : ℚ) < columns := by exact_mod_cast some_column
  have bound : (columns : ℚ) ≤ 2 ^ 31 := by exact_mod_cast few
  have quotient : (100 * column / columns * 10 ^ 4 : ℚ) =
      ((1000000 * column : ℕ) : ℤ) / columns := by
    push_cast
    ring
  rw [quotient]
  apply abs_nearestWhole_sub_quotient_le some_column
  rw [← quotient]
  calc
    |share column columns * 10 ^ 4 - 100 * column / columns * 10 ^ 4| =
        |share column columns - 100 * column / columns| * 10 ^ 4 :=
      abs_mul_sub_mul _ _ (by norm_num)
    _ ≤ 328 / 2 ^ 54 * 10 ^ 4 :=
      mul_le_mul_of_nonneg_right (abs_share_sub_le inside) (by norm_num)
    _ < 1 / (2 * 2 ^ 31) := by norm_num
    _ ≤ 1 / (2 * columns) := one_div_le_one_div_of_le (by positivity) (by linarith)

end Share

/-- What the widths of columns are, as texts without the sign of per cent. -/
structure IsWidths (columns : ℕ) (width : ℕ → String) : Prop where
  nearest {column : ℕ} (known : 1 ≤ column ∧ column ≤ columns) :
    IsNearestNumeral 4 (width column).toList (100 * column / columns)
  close {column : ℕ} (known : 1 ≤ column ∧ column ≤ columns) :
    ∃ number, numeralValue? (width column).toList = some number ∧
      |number - 100 * column / columns| ≤ 1 / 20000
  places {column : ℕ} (known : 1 ≤ column ∧ column ≤ columns) :
    HasPlaces 4 (width column).toList
  mono {less more : ℕ} (some_column : 1 ≤ less) (order : less ≤ more) (inside : more ≤ columns) :
    ∃ narrow wide, numeralValue? (width less).toList = some narrow ∧
      numeralValue? (width more).toList = some wide ∧ narrow ≤ wide
  full : width columns = "100.0000"

/-- The width that is written for some columns, without the sign of per cent. -/
def widthText (columns column : ℕ) : String :=
  (ofNat column / ofNat columns * ofNat 100).fixed 4

theorem isWidths_widthText {columns : ℕ} (some_column : 1 ≤ columns) (few : columns ≤ 2 ^ 31) :
    IsWidths columns (widthText columns) := by
  have exactly {column : ℕ} (inside : column ≤ columns) :=
    exists_fixed (value?_share some_column inside (few.trans (by decide))) (by decide : 0 < 4)
  have nearest {column : ℕ} (inside : column ≤ columns) :
      IsNearestNumeral 4 (widthText columns column).toList (100 * column / columns) :=
    isNearestNumeral_of_le_half (exactly inside).2
      (abs_nearestWhole_share_sub_le some_column few inside)
  constructor
  case nearest => exact fun known => nearest known.2
  case close =>
    intro column known
    have close := (nearest known.2).abs_sub_le (exactly known.2).2
    refine ⟨_, (exactly known.2).2, close.trans ?_⟩
    norm_num
  case places => exact fun known => (exactly known.2).1
  case mono =>
    intro less more _ order inside
    refine ⟨_, _, (exactly (order.trans inside)).2, (exactly inside).2, ?_⟩
    have scaled := mul_le_mul_of_nonneg_right (share_mono columns order)
      (by norm_num : (0 : ℚ) ≤ 10 ^ 4)
    exact div_le_div_of_nonneg_right (Int.cast_le.mpr (nearestWhole_mono scaled)) (by norm_num)
  case full =>
    have value := value?_share some_column le_rfl (few.trans (by decide))
    rw [share_self some_column] at value
    have hundred : (ofNat 100).value? = some (100 : ℚ) := value?_ofNat (by decide)
    rw [widthText, eq_of_value? value hundred (by norm_num)]
    decide +kernel

/-- Each width is the nearest one with four decimals, the same in both declarations of its class.
Widths do not decrease with the number of columns, and all columns are exactly as wide as the
page. -/
theorem columnClasses_nearest {columns : ℕ} (some_column : 1 ≤ columns)
    (few : columns ≤ 2 ^ 31) :
    ∃ width, IsWidths columns width ∧
      columnClasses columns = (List.range columns).map fun before =>
        ⟨s!"col-{before + 1}",
          [⟨"flex", "0 0 " ++ width (before + 1) ++ "%"⟩,
            ⟨"max-width", width (before + 1) ++ "%"⟩]⟩ := by
  refine ⟨widthText columns, isWidths_widthText some_column few, ?_⟩
  apply List.map_congr_left
  intro before _
  simp only [columnClass, columnWidth, String.append_assoc]
  rfl

/-- Of twelve columns, four are a third of the page and all are the whole of it. -/
theorem columnClasses_nearest_twelve :
    (1 ≤ 12 ∧ 12 ≤ 2 ^ 31) ∧ ∃ width, IsWidths 12 width ∧ width 4 = "33.3333" ∧
      IsNearestNumeral 4 "33.3333".toList (100 * (4 : ℕ) / (12 : ℕ)) ∧ width 12 = "100.0000" := by
  have some_column : 1 ≤ 12 := by decide
  have few : 12 ≤ 2 ^ 31 := by decide
  obtain ⟨width, widths, classes⟩ := columnClasses_nearest some_column few
  have printed : (columnClasses 12)[3]?.map (·.declarations.map (·.value)) =
      some ["0 0 33.3333%", "33.3333%"] := by decide +kernel
  have third : width 4 = "33.3333" := by
    have fourth : (List.range 12)[3]? = some 3 := rfl
    rw [classes, List.getElem?_map, fourth] at printed
    simp only [Option.map_some, List.map_cons, List.map_nil, Option.some.injEq, List.cons.injEq,
      and_true] at printed
    have percent : "33.3333%" = "33.3333" ++ "%" := by decide
    rw [percent] at printed
    exact (String.append_left_inj "%").mp printed.2
  refine ⟨⟨some_column, few⟩, width, widths, third, ?_, widths.full⟩
  rw [← third]
  exact widths.nearest (by decide)

end ThemeCss.Page
