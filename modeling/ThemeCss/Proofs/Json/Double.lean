import ThemeCss.Json.Writer
import ThemeCss.Proofs.Json.Numeral

/-! # Doubles in JSON

The fewest digits that read back make a numeral with a point or an exponent. Its exponent is bounded
by that of the number, so the numeral of a number that is not close to infinity can be read.
-/

namespace ThemeCss.Json

namespace Numeral

/-- The numeral of a natural number. -/
def ofNat (n : Nat) : Numeral := ⟨false, Nat.toDigits 10 n, none, none⟩

theorem wellFormed_ofNat (n : Nat) : (ofNat n).WellFormed where
  whole := isDigits_toDigits n
  leading := by
    intro zero
    obtain rfl := eq_zero_of_head?_toDigits zero
    rfl
  places := by simp [ofNat]
  power := by simp [ofNat]

theorem text_ofNat (n : Nat) : (ofNat n).text = Nat.toDigits 10 n := by
  simp [text, ofNat, placesText, powerText]

/-- A natural number of 64 bits is read as it was written. -/
theorem value_ofNat {n : Nat} (fits : n ≤ greatestSignificand) (rest : List Char) :
    (ofNat n).value rest = .ok (.whole n) := by
  have digits : Nat.ofDigitChars 10 (Nat.toDigits 10 n) 0 = n := Nat.ofDigitChars_ten_toDigits
  have within : Nat.ofDigitChars 10 (Nat.toDigits 10 n) 0 ≤ greatestSignificand := by rwa [digits]
  have appended := appendDigits_of_le within
  rw [digits] at appended
  simp [value, parts, ofNat, appended, appendDigits]

end Numeral

section LayOut

variable {digits : List Char} {exponent : Int}

theorem IsDigits.append {first second : List Char} (some_digit : IsDigits first)
    (digitChars : ∀ c ∈ second, c.isDigit = true) : IsDigits (first ++ second) := by
  refine ⟨List.append_ne_nil_of_left_ne_nil some_digit.1 second, ?_⟩
  exact List.forall_mem_append.mpr ⟨some_digit.2, digitChars⟩

theorem isDigit_of_mem_replicate {count : Nat} {c : Char} (member : c ∈ List.replicate count '0') :
    c.isDigit = true := by
  rw [List.eq_of_mem_replicate member]
  rfl

theorem isDigits_singleton {c : Char} (digit : c.isDigit = true) : IsDigits [c] :=
  ⟨List.cons_ne_nil c [], List.forall_mem_singleton.mpr digit⟩

theorem isDigits_zero : IsDigits ['0'] := isDigits_singleton rfl

/-- The digits of a list, or a zero where there are none. -/
theorem isDigits_orZero {places : List Char} (digitChars : ∀ c ∈ places, c.isDigit = true) :
    IsDigits (if places.isEmpty then ['0'] else places) := by
  split
  · exact isDigits_zero
  · next some_digit =>
    exact ⟨fun empty => some_digit (List.isEmpty_iff.mpr empty), digitChars⟩

variable (negative : Bool)

theorem exists_layOut_small (some_digit : IsDigits digits) (below : -5 ≤ exponent ∧ exponent < 0) :
    ∃ numeral : Numeral,
      numeral.text = (if negative then ['-'] else []) ++ Binary64.layOut digits exponent ∧
        numeral.WellFormed ∧ numeral.reach ≤ 302 := by
  let places := List.replicate (-exponent - 1).toNat '0' ++ digits
  have placeDigits : IsDigits places := by
    refine ⟨List.append_ne_nil_of_right_ne_nil _ some_digit.1, ?_⟩
    exact List.forall_mem_append.mpr ⟨fun c => isDigit_of_mem_replicate, some_digit.2⟩
  refine ⟨⟨negative, ['0'], some places, none⟩, ?_, ⟨isDigits_zero, fun _ => rfl, ?_, ?_⟩, ?_⟩
  · simp [Numeral.text, Numeral.placesText, Numeral.powerText, Binary64.layOut, below, places]
  · rintro _ ⟨⟩
    exact placeDigits
  · simp
  · simp [Numeral.reach]

theorem exists_layOut_middle (some_digit : IsDigits digits) (leading : digits.head? ≠ some '0')
    (within : 0 ≤ exponent ∧ exponent ≤ 15) : ∃ numeral : Numeral,
      numeral.text = (if negative then ['-'] else []) ++ Binary64.layOut digits exponent ∧
        numeral.WellFormed ∧ numeral.reach ≤ 302 := by
  let width := exponent.toNat + 1
  let whole := digits.take width ++ List.replicate (width - digits.length) '0'
  let places := if (digits.drop width).isEmpty then ['0'] else digits.drop width
  obtain ⟨first, others, rfl⟩ := List.exists_cons_of_ne_nil some_digit.1
  have wholeDigits : IsDigits whole :=
    IsDigits.append
      ⟨List.cons_ne_nil _ _, fun c member => some_digit.2 c (List.mem_of_mem_take member)⟩
      fun c => isDigit_of_mem_replicate
  have placeDigits : IsDigits places :=
    isDigits_orZero fun c member => some_digit.2 c (List.mem_of_mem_drop member)
  refine ⟨⟨negative, whole, some places, none⟩, ?_, ⟨wholeDigits, ?_, ?_, ?_⟩, ?_⟩
  · have above : ¬ (-5 ≤ exponent ∧ exponent < 0) := by omega
    simp [Numeral.text, Numeral.placesText, Numeral.powerText, Binary64.layOut, above, within,
      places, whole, width]
  · intro zero
    exact absurd zero leading
  · rintro _ ⟨⟩
    exact placeDigits
  · simp
  · simp [Numeral.reach, whole, width]
    omega

theorem exists_layOut_large (some_digit : IsDigits digits)
    (apart : ¬ (-5 ≤ exponent ∧ exponent < 0) ∧ ¬ (0 ≤ exponent ∧ exponent ≤ 15))
    (small : exponent ≤ 300) : ∃ numeral : Numeral,
      numeral.text = (if negative then ['-'] else []) ++ Binary64.layOut digits exponent ∧
        numeral.WellFormed ∧ numeral.reach ≤ 302 := by
  obtain ⟨first, others, rfl⟩ := List.exists_cons_of_ne_nil some_digit.1
  obtain ⟨firstDigit, otherDigits⟩ := List.forall_mem_cons.mp some_digit.2
  refine ⟨⟨negative, [first], if others.isEmpty then none else some others,
    some (decide (exponent < 0), Nat.toDigits 10 exponent.natAbs)⟩, ?_,
    ⟨isDigits_singleton firstDigit, ?_, ?_, ?_⟩, ?_⟩
  · rw [Binary64.layOut, if_neg apart.1, if_neg apart.2]
    cases others <;> by_cases below : exponent < 0 <;>
      simp [Numeral.text, Numeral.placesText, Numeral.powerText, below]
  · intro zero
    exact congrArg (fun c => [c]) (Option.some.inj zero)
  · cases others with
    | nil => simp
    | cons second more =>
      rintro _ ⟨⟩
      exact ⟨List.cons_ne_nil second more, otherDigits⟩
  · rintro _ ⟨⟩
    exact isDigits_toDigits _
  · by_cases below : exponent < 0
    · simp [Numeral.reach, below]
    · simp [Numeral.reach, below, digitsValue_toDigits]
      omega

/-- Digits that do not begin with a zero are laid out as a numeral that reaches no further than the
exponent. -/
theorem exists_layOut (some_digit : IsDigits digits) (leading : digits.head? ≠ some '0')
    (small : exponent ≤ 300) : ∃ numeral : Numeral,
      numeral.text = (if negative then ['-'] else []) ++ Binary64.layOut digits exponent ∧
        numeral.WellFormed ∧ numeral.reach ≤ 302 := by
  by_cases below : -5 ≤ exponent ∧ exponent < 0
  · exact exists_layOut_small negative some_digit below
  · by_cases within : 0 ≤ exponent ∧ exponent ≤ 15
    · exact exists_layOut_middle negative some_digit leading within
    · exact exists_layOut_large negative some_digit ⟨below, within⟩ small

end LayOut

theorem digits_significantDigits {n : Nat} (positive : 0 < n) :
    IsDigits (Binary64.significantDigits n) ∧ (Binary64.significantDigits n).head? ≠ some '0' := by
  obtain ⟨count, zeros⟩ := Binary64.exists_append_zeros (Nat.toDigits 10 n)
  rw [← Binary64.significantDigits] at zeros
  have some_digit : Binary64.significantDigits n ≠ [] := by
    intro empty
    have value := digitsValue_toDigits n
    rw [zeros, digitsValue_append_zeros, empty] at value
    simp [digitsValue] at value
    omega
  refine ⟨⟨some_digit, fun c member => ?_⟩, fun zero => ?_⟩
  · apply (isDigits_toDigits n).2
    rw [zeros]
    exact List.mem_append_left _ member
  · have leading : (Nat.toDigits 10 n).head? = some '0' := by
      rw [zeros, List.head?_append_of_ne_nil _ some_digit, zero]
    have := eq_zero_of_head?_toDigits leading
    omega

theorem shortest_readsBack (magnitude : Magnitude) :
    magnitude.readsBack magnitude.shortest = true ∨ magnitude.shortest = ⟨0, 0⟩ := by
  rw [Magnitude.shortest]
  generalize List.flatMap _ _ = candidates
  cases found : candidates.find? magnitude.readsBack with
  | none => exact .inr rfl
  | some decimal => exact .inl (List.find?_some found)

theorem tenPow_length_toDigits_le {n : Nat} (positive : 0 < n) :
    10 ^ ((Nat.toDigits 10 n).length - 1) ≤ n := by
  by_contra! less
  have some_digit : 0 < (Nat.toDigits 10 n).length := Nat.length_toDigits_pos
  by_cases single : (Nat.toDigits 10 n).length = 1
  · rw [single] at less
    simp at less
    omega
  · have shorter := (Nat.length_toDigits_le_iff (b := 10) (by decide) (by omega)).mpr less
    omega

/-- A decimal is a quotient of powers of ten. -/
theorem exists_ofDecimal (negative : Bool) (digits : Nat) (exponent : Int) : ∃ up down : Nat,
    exponent = up - down ∧ Binary64.ofDecimal negative digits exponent =
      Binary64.ofUnits negative (digits * 10 ^ up * unitsPerOne) (10 ^ down) := by
  obtain ⟨places, rfl | rfl⟩ := Int.eq_nat_or_neg exponent
  · exact ⟨places, 0, by simp, rfl⟩
  · refine ⟨0, places, by simp, ?_⟩
    rw [Binary64.ofDecimal_neg, Nat.pow_zero, Nat.mul_one]

/-- The decimal that reads back has no greater exponent than the double. -/
theorem exponent_of_readsBack {magnitude : Magnitude} {decimal : Decimal} {most : Nat}
    (reads : magnitude.readsBack decimal = true) (nonzero : magnitude.units ≠ 0)
    (bound : magnitude.units ≤ 2 * 10 ^ most * unitsPerOne) :
    0 < decimal.digits ∧
      decimal.exponent + (Nat.toDigits 10 decimal.digits).length - 1 ≤ most := by
  obtain ⟨digits, exponent⟩ := decimal
  have value : Binary64.ofDecimal false digits exponent = .finite false magnitude :=
    of_decide_eq_true reads
  obtain ⟨up, down, rfl, quotient⟩ := exists_ofDecimal false digits exponent
  rw [quotient] at value
  have units := Binary64.units_of_ofUnits value
  have halved := Magnitude.le_roundedUnits_mul (Nat.pow_pos (n := down) (by decide : 0 < 10))
    (units ▸ nonzero)
  rw [← units] at halved
  have scaled : digits * 10 ^ up ≤ 4 * 10 ^ most * 10 ^ down := by
    refine Nat.le_of_mul_le_mul_right (halved.trans ?_) unitsPerOne_pos
    have product := Nat.mul_le_mul_right (10 ^ down) bound
    generalize unitsPerOne = one at *
    calc
      2 * (magnitude.units * 10 ^ down) ≤ 2 * (2 * 10 ^ most * one * 10 ^ down) :=
        Nat.mul_le_mul_left 2 product
      _ = 4 * 10 ^ most * 10 ^ down * one := by ring
  have positive : 0 < digits := by
    rw [Nat.pos_iff_ne_zero]
    rintro rfl
    have doubled := Magnitude.roundedUnits_mul_le (0 * 10 ^ up * unitsPerOne)
      (Nat.pow_pos (n := down) (by decide : 0 < 10))
    rw [← units, Nat.zero_mul, Nat.zero_mul, Nat.mul_zero, Nat.le_zero, Nat.mul_eq_zero] at doubled
    exact doubled.elim nonzero (Nat.pow_pos (by decide)).ne'
  refine ⟨positive, ?_⟩
  have length := Nat.mul_le_mul_right (10 ^ up) (tenPow_length_toDigits_le positive)
  have room : 4 * 10 ^ most * 10 ^ down < 10 ^ (most + down + 1) := by
    have power := Nat.pow_pos (n := most + down) (by decide : 0 < 10)
    rw [Nat.mul_assoc, ← Nat.pow_add, Nat.pow_succ]
    omega
  rw [← Nat.pow_add] at length
  have fewer := (Nat.pow_lt_pow_iff_right (by decide)).mp ((length.trans scaled).trans_lt room)
  dsimp only
  omega

/-- A double that is at most a power of ten far below infinity is finite. -/
theorem exists_of_abs_le {value : Binary64} {most : Nat}
    (small : value.abs.le (.ofDecimal false 1 most) = true)
    (far : 2 * 10 ^ most * unitsPerOne < overflowUnits) :
    ∃ negative magnitude, value = .finite negative magnitude ∧
      magnitude.units ≤ 2 * 10 ^ most * unitsPerOne := by
  have within : 1 * 10 ^ most * unitsPerOne ≤ 10 ^ most * unitsPerOne * 1 := by
    rw [Nat.mul_one, Nat.one_mul]
  obtain ⟨limit, limitValue, bound⟩ := exists_ofUnits Nat.one_pos within far false
  have decimal : Binary64.ofDecimal false 1 most = .finite false limit := limitValue
  rw [decimal] at small
  cases value with
  | nan => cases small
  | infinite negative =>
    simp only [Binary64.abs, Binary64.le, Binary64.place?, decide_eq_true_eq, Bool.false_eq_true,
      ↓reduceIte] at small
    exact absurd limit.bounded (Nat.not_lt.mpr (Int.ofNat_le.mp small))
  | finite negative magnitude =>
    refine ⟨negative, magnitude, rfl, ?_⟩
    simp only [Binary64.abs, Binary64.le, Binary64.place?, decide_eq_true_eq, Bool.false_eq_true,
      ↓reduceIte] at small
    exact (Int.ofNat_le.mp small).trans bound

/-- A double that is at most 10³⁰⁰ in size is written as a numeral that can be read. -/
theorem exists_writeDouble {value : Binary64}
    (small : value.abs.le (.ofDecimal false 1 300) = true) : ∃ numeral : Numeral,
      numeral.text = (writeDouble value).toList ∧ numeral.WellFormed ∧ numeral.reach ≤ 302 := by
  have decimal : ((300 : Nat) : Int) = 300 := rfl
  rw [← decimal] at small
  obtain ⟨negative, magnitude, rfl, bound⟩ := exists_of_abs_le small (by decide +kernel)
  have zero : ∃ numeral : Numeral,
      numeral.text = (if negative then ['-'] else []) ++ ['0', '.', '0'] ∧
        numeral.WellFormed ∧ numeral.reach ≤ 302 :=
    ⟨⟨negative, ['0'], some ['0'], none⟩, rfl, ⟨isDigits_zero, fun _ => rfl,
      by simpa using isDigits_zero, by simp⟩, by simp [Numeral.reach]⟩
  have written : (writeDouble (.finite negative magnitude)).toList =
      (if negative then ['-'] else []) ++ if magnitude.units = 0 then ['0', '.', '0'] else
        Binary64.layOut (Binary64.significantDigits magnitude.shortest.digits)
          (magnitude.shortest.exponent +
            (Nat.toDigits 10 magnitude.shortest.digits).length - 1) := by
    have finite : (Binary64.finite negative magnitude).isFinite = true := rfl
    rw [writeDouble, if_pos finite, Binary64.shortestText, String.toList_ofList]
    cases negative <;> rfl
  rw [written]
  by_cases none_left : magnitude.units = 0
  · rwa [if_pos none_left]
  · rw [if_neg none_left]
    rcases shortest_readsBack magnitude with reads | nothing
    · obtain ⟨positive, exponent⟩ := exponent_of_readsBack reads none_left bound
      have digits := digits_significantDigits positive
      exact exists_layOut negative digits.1 digits.2 exponent
    · rw [nothing]
      exact zero

end ThemeCss.Json
