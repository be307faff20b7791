import ThemeCss.Proofs.Number.LastPlace

/-! # Decimals that are written

A numeral of a style sheet stands for a rational number, whatever it was written for. For a double
the decimal with so many places is written that is nearest to the double. It is also nearest to the
number that was meant: a number with a small denominator does not come close to the middle between
two decimals without being there, so a small error before the last rounding makes no difference.
-/

namespace ThemeCss

/-- The digits behind the point, and no point without digits. -/
def pointed : List Char → List Char
  | [] => []
  | places => '.' :: places

theorem pointed_of_ne_nil {places : List Char} (some_place : places ≠ []) :
    pointed places = '.' :: places := by
  cases places with
  | nil => contradiction
  | cons _ _ => rfl

/-- The number that digits stand for, with digits behind a point if there is one. -/
def unsignedValue? (text : List Char) : Option ℚ :=
  let whole := text.takeWhile Char.isDigit
  let places := (text.dropWhile Char.isDigit).tail
  if whole ≠ [] ∧ places.all Char.isDigit ∧ text = whole ++ pointed places then
    some (digitsValue (whole ++ places) / 10 ^ places.length)
  else none

/-- The number that a numeral of a style sheet stands for. -/
def numeralValue? : List Char → Option ℚ
  | '-' :: size => (unsignedValue? size).map Neg.neg
  | size => unsignedValue? size

section Numeral

variable {text whole places : List Char} {number : ℚ}

theorem exists_of_unsignedValue? (value : unsignedValue? text = some number) :
    ∃ whole places, text = whole ++ pointed places ∧ (∀ c ∈ whole ++ places, c.isDigit = true) ∧
      whole ≠ [] ∧ number = digitsValue (whole ++ places) / 10 ^ places.length := by
  rw [unsignedValue?, Option.ite_none_right_eq_some] at value
  obtain ⟨⟨some_digit, behind, split⟩, exact⟩ := value
  refine ⟨_, _, split, ?_, some_digit, (Option.some.inj exact).symm⟩
  intro c member
  rcases List.mem_append.mp member with front | place
  · exact List.mem_takeWhile_imp front
  · exact List.all_eq_true.mp behind c place

theorem unsignedValue?_pointed (some_digit : whole ≠ [])
    (digits : ∀ c ∈ whole ++ places, c.isDigit = true) :
    unsignedValue? (whole ++ pointed places) =
      some (digitsValue (whole ++ places) / 10 ^ places.length : ℚ) := by
  have front : ∀ c ∈ whole, c.isDigit = true := fun c member =>
    digits c (List.mem_append_left places member)
  have behind : places.all Char.isDigit = true := by
    rw [List.all_eq_true]
    exact fun c member => digits c (List.mem_append_right whole member)
  have taken : (whole ++ pointed places).takeWhile Char.isDigit = whole := by
    rw [List.takeWhile_append_of_pos front]
    cases places <;> simp [pointed]
  have dropped : ((whole ++ pointed places).dropWhile Char.isDigit).tail = places := by
    rw [List.dropWhile_append_of_pos front]
    cases places <;> simp [pointed]
  rw [unsignedValue?, taken, dropped]
  exact if_pos ⟨some_digit, behind, rfl⟩

theorem numeralValue?_pointed (negative : Bool) (some_digit : whole ≠ [])
    (digits : ∀ c ∈ whole ++ places, c.isDigit = true) :
    numeralValue? ((if negative then ['-'] else []) ++ (whole ++ pointed places)) =
      some (signed negative (digitsValue (whole ++ places) / 10 ^ places.length : ℚ)) := by
  have value := unsignedValue?_pointed some_digit digits
  cases negative with
  | true =>
    change (unsignedValue? (whole ++ pointed places)).map Neg.neg = _
    rw [value]
    rfl
  | false =>
    obtain ⟨first, others, rfl⟩ := List.exists_cons_of_ne_nil some_digit
    have unsigned : first ≠ '-' := by
      rintro rfl
      exact absurd (digits '-' List.mem_cons_self) (by decide)
    refine Eq.trans ?_ value
    exact numeralValue?.eq_2 _ fun size same => unsigned (List.cons.inj same).1

end Numeral

open Binary64 (trimPlaces exists_append_zeros)

/-- A whole number of units of the last place, without zeros at the end of the places. -/
def decimalText (places : ℕ) (count : ℤ) : List Char :=
  (if count < 0 then ['-'] else []) ++ (Nat.toDigits 10 (count.natAbs / 10 ^ places) ++
    trimPlaces (paddedDigits places (count.natAbs % 10 ^ places)))

/-- A numeral of a number, none of whose numerals has fewer characters. -/
def IsShortestNumeral (text : List Char) (number : ℚ) : Prop :=
  numeralValue? text = some number ∧
    ∀ other, numeralValue? other = some number → text.length ≤ other.length

theorem digitsValue_concat (front : List Char) (last : Char) :
    digitsValue (front ++ [last]) = 10 * digitsValue front + (last.toNat - '0'.toNat) := by
  rw [digitsValue, Nat.ofDigitChars_append, Nat.ofDigitChars_cons]
  rfl

/-- Digits that end with another one than zero do not stand for a multiple of ten. -/
theorem not_dvd_digitsValue {front : List Char} {last : Char} (digit : last.isDigit = true)
    (nonzero : last ≠ '0') : ¬ 10 ∣ digitsValue (front ++ [last]) := by
  have range := Char.isDigit_iff_toNat.mp digit
  have above : last.toNat ≠ '0'.toNat := fun same => nonzero (Char.toNat_inj.mp same)
  have nine : '9'.toNat = '0'.toNat + 9 := rfl
  rw [digitsValue_concat]
  omega

/-- Trimming takes away all zeros at the end. -/
theorem exists_pointed (places : List Char) : ∃ kept zeros,
    places = kept ++ List.replicate zeros '0' ∧ trimPlaces places = pointed kept ∧
      ∀ last ∈ kept.getLast?, last ≠ '0' := by
  obtain ⟨zeros, split⟩ := exists_append_zeros places
  refine ⟨_, zeros, split, ?_, ?_⟩
  · rw [trimPlaces]
    generalize (places.reverse.dropWhile (· == '0')).reverse = kept
    cases kept <;> rfl
  · intro last member zero
    rw [List.getLast?_reverse] at member
    have kept := List.head?_dropWhile_not (· == '0') places.reverse
    rw [Option.mem_def.mp member, zero] at kept
    contradiction

/-- The digits in front of the point are the fewest for their number. -/
theorem length_toDigits_div_le {places count : ℕ} {other behind : List Char}
    (some_digit : other ≠ []) (digits : ∀ c ∈ other ++ behind, c.isDigit = true)
    (same : (count / 10 ^ places : ℚ) = digitsValue (other ++ behind) / 10 ^ behind.length) :
    (Nat.toDigits 10 (count / 10 ^ places)).length ≤ other.length := by
  rw [Nat.length_toDigits_le_iff (by decide) (List.length_pos_of_ne_nil some_digit),
    Nat.div_lt_iff_lt_mul (by positivity)]
  have fewer := ofDigitChars_lt digits 0
  rw [List.length_append, zero_add, one_mul, pow_add] at fewer
  rw [div_eq_div_iff (by positivity) (by positivity)] at same
  have cross : count * 10 ^ behind.length = digitsValue (other ++ behind) * 10 ^ places := by
    exact_mod_cast same
  apply Nat.lt_of_mul_lt_mul_right (a := 10 ^ behind.length)
  calc
    count * 10 ^ behind.length = digitsValue (other ++ behind) * 10 ^ places := cross
    _ < 10 ^ other.length * 10 ^ behind.length * 10 ^ places :=
      Nat.mul_lt_mul_of_pos_right fewer (by positivity)
    _ = 10 ^ other.length * 10 ^ places * 10 ^ behind.length := Nat.mul_right_comm ..

/-- Digits of a whole number of units of the last place, without the zeros at the end of the
places. -/
structure IsTrimmed (places count : ℕ) (whole kept : List Char) : Prop where
  digits : ∀ c ∈ whole ++ kept, c.isDigit = true
  some_digit : whole ≠ []
  few : kept.length ≤ places
  value : digitsValue (whole ++ kept) * 10 ^ (places - kept.length) = count
  last : kept ≠ [] → ¬ 10 ∣ digitsValue (whole ++ kept)

namespace IsTrimmed

variable {places count : ℕ} {whole kept : List Char}

theorem exact (trimmed : IsTrimmed places count whole kept) :
    (digitsValue (whole ++ kept) / 10 ^ kept.length : ℚ) = count / 10 ^ places := by
  rw [div_eq_div_iff (by positivity) (by positivity), ← trimmed.value]
  push_cast
  rw [mul_assoc, ← pow_add, Nat.sub_add_cancel trimmed.few]

/-- The number needs all the places that are kept. -/
theorem length_le (trimmed : IsTrimmed places count whole kept) {other behind : List Char}
    (same : (count / 10 ^ places : ℚ) = digitsValue (other ++ behind) / 10 ^ behind.length) :
    kept.length ≤ behind.length := by
  by_contra! less
  have some_place : kept ≠ [] := by
    rintro rfl
    simp at less
  refine trimmed.last some_place ?_
  rw [← trimmed.exact, div_eq_div_iff (by positivity) (by positivity)] at same
  have cross : digitsValue (whole ++ kept) * 10 ^ behind.length =
      digitsValue (other ++ behind) * 10 ^ kept.length := by exact_mod_cast same
  have multiple : digitsValue (whole ++ kept) =
      digitsValue (other ++ behind) * 10 ^ (kept.length - behind.length) := by
    apply Nat.eq_of_mul_eq_mul_right (by positivity : 0 < 10 ^ behind.length)
    rw [cross, mul_assoc, ← pow_add, Nat.sub_add_cancel less.le]
  rw [multiple]
  exact Dvd.dvd.mul_left (dvd_pow_self 10 (by omega)) _

end IsTrimmed

section Decimal

variable {places : ℕ}

/-- The digits of a whole number of units of the last place, in front of the point and behind it. -/
theorem isDigit_of_mem_places {count : ℕ} {c : Char} (member : c ∈
    Nat.toDigits 10 (count / 10 ^ places) ++ paddedDigits places (count % 10 ^ places)) :
    c.isDigit = true := by
  rcases List.mem_append.mp member with front | behind
  · exact Nat.isDigit_of_mem_toDigits (by decide) (by decide) front
  · exact isDigit_of_mem_paddedDigits behind

theorem mod_tenPow_lt (count places : ℕ) : count % 10 ^ places < 10 ^ places :=
  Nat.mod_lt count (by positivity)

theorem digitsValue_places (positive : 0 < places) (count : ℕ) : digitsValue
    (Nat.toDigits 10 (count / 10 ^ places) ++ paddedDigits places (count % 10 ^ places)) =
      count := by
  rw [digitsValue_append_paddedDigits _ (mod_tenPow_lt count places) positive,
    digitsValue_toDigits]
  exact Nat.div_add_mod' _ _

theorem exists_decimalText (positive : 0 < places) (count : ℤ) : ∃ kept,
    decimalText places count = (if count < 0 then ['-'] else []) ++
        (Nat.toDigits 10 (count.natAbs / 10 ^ places) ++ pointed kept) ∧
      IsTrimmed places count.natAbs (Nat.toDigits 10 (count.natAbs / 10 ^ places)) kept := by
  obtain ⟨kept, zeros, split, trimmed, nonzero⟩ :=
    exists_pointed (paddedDigits places (count.natAbs % 10 ^ places))
  have width : kept.length + zeros = places := by
    rw [← length_paddedDigits (mod_tenPow_lt count.natAbs places) positive, split,
      List.length_append, List.length_replicate]
  have digits : ∀ c ∈ Nat.toDigits 10 (count.natAbs / 10 ^ places) ++ kept,
      c.isDigit = true := by
    intro c member
    have place := List.mem_append_left (List.replicate zeros '0') member
    rw [List.append_assoc, ← split] at place
    exact isDigit_of_mem_places place
  refine ⟨kept, by rw [decimalText, trimmed], digits, Nat.toDigits_ne_nil, by omega, ?_, ?_⟩
  · rw [← width, Nat.add_sub_cancel_left, width, ← digitsValue_append_zeros, List.append_assoc,
      ← split, digitsValue_places positive]
  · intro some_place
    obtain ⟨front, last, rfl⟩ := (List.eq_nil_or_concat' kept).resolve_left some_place
    rw [← List.append_assoc]
    exact not_dvd_digitsValue (digits last (by simp)) (nonzero last (by simp))

/-- The text of a decimal stands for it. -/
theorem numeralValue?_decimalText (positive : 0 < places) (count : ℤ) :
    numeralValue? (decimalText places count) = some (count / 10 ^ places : ℚ) := by
  obtain ⟨kept, text, trimmed⟩ := exists_decimalText positive count
  have value := numeralValue?_pointed (decide (count < 0)) trimmed.some_digit trimmed.digits
  simp only [decide_eq_true_eq] at value
  rw [text, value, trimmed.exact, signed_div_right, signed_natAbs]

example : numeralValue? (decimalText 3 (-1250)) = some (-5 / 4) := by decide +kernel

theorem length_pointed_le {kept behind : List Char} (few : kept.length ≤ behind.length) :
    (pointed kept).length ≤ (pointed behind).length := by
  cases kept with
  | nil => exact Nat.zero_le _
  | cons _ _ =>
    cases behind with
    | nil => contradiction
    | cons _ _ => exact Nat.succ_le_succ few

/-- A numeral has a character more than the numeral without sign if the number is negative. -/
theorem exists_of_numeralValue? {text : List Char} {number : ℚ}
    (value : numeralValue? text = some number) : ∃ size, unsignedValue? size = some |number| ∧
      (if number < 0 then ['-'] else []).length + size.length ≤ text.length := by
  have nonneg {size : List Char} {exact : ℚ} (value : unsignedValue? size = some exact) :
      0 ≤ exact := by
    obtain ⟨whole, places, -, -, -, rfl⟩ := exists_of_unsignedValue? value
    positivity
  unfold numeralValue? at value
  split at value
  · obtain ⟨exact, read, rfl⟩ := Option.map_eq_some_iff.mp value
    refine ⟨_, by rwa [abs_neg, abs_of_nonneg (nonneg read)], ?_⟩
    rw [List.length_cons]
    split <;> simp [Nat.add_comm]
  · rw [if_neg (not_lt.mpr (nonneg value)), abs_of_nonneg (nonneg value)]
    exact ⟨text, value, Nat.le_of_eq (Nat.zero_add _)⟩

/-- No numeral for a decimal has fewer characters than its text. -/
theorem isShortestNumeral_decimalText (positive : 0 < places) (count : ℤ) :
    IsShortestNumeral (decimalText places count) (count / 10 ^ places) := by
  refine ⟨numeralValue?_decimalText positive count, fun other same => ?_⟩
  obtain ⟨kept, text, trimmed⟩ := exists_decimalText positive count
  obtain ⟨size, value, longer⟩ := exists_of_numeralValue? same
  obtain ⟨whole, behind, rfl, digits, some_digit, exact⟩ := exists_of_unsignedValue? value
  rw [abs_div, abs_of_pos (by positivity : (0 : ℚ) < 10 ^ places), ← Int.cast_abs,
    Int.abs_eq_natAbs, Int.cast_natCast] at exact
  have front := length_toDigits_div_le some_digit digits exact
  have point := length_pointed_le (trimmed.length_le exact)
  have sign : (count / 10 ^ places : ℚ) < 0 ↔ count < 0 := by
    rw [div_lt_iff₀ (by positivity), zero_mul, Int.cast_lt_zero]
  rw [text]
  simp only [List.length_append, sign] at longer ⊢
  omega

end Decimal

/-- A numeral with so many digits behind its point. -/
def HasPlaces (places : ℕ) (text : List Char) : Prop :=
  ∃ front behind, text = front ++ '.' :: behind ∧ behind.length = places ∧
    ∀ c ∈ behind, c.isDigit = true

namespace Binary64

variable {x : Binary64} {number : ℚ} {places : ℕ}

/-- A decimal is read as the double next to it. -/
theorem value?_ofDecimal (negative : Bool) (digits places : ℕ)
    (small : (digits / 10 ^ places : ℚ) < finiteLimit) :
    (ofDecimal negative digits (-(places : ℤ))).value? =
      some (rounded (signed negative (digits / 10 ^ places))) := by
  have cancel : ((digits * unitsPerOne : ℕ) / (10 ^ places : ℕ) / unitsPerOne : ℚ) =
      digits / 10 ^ places := by
    rw [Nat.cast_mul, Nat.cast_pow, Nat.cast_ofNat, div_right_comm,
      mul_div_cancel_right₀ _ unitsPerOne_cast_pos.ne']
  have value := value?_ofUnits negative (digits * unitsPerOne) (by positivity : 0 < 10 ^ places)
  rw [cancel] at value
  rw [ofDecimal_neg]
  exact value small

/-- The places of a double are those of the nearest whole number of units of the last place. -/
theorem exists_scaled (value : x.value? = some number) (places : ℕ) : ∃ negative magnitude,
    x = .finite negative magnitude ∧
      nearestWhole (number * 10 ^ places) = signed negative (magnitude.scaled places : ℤ) := by
  obtain ⟨negative, magnitude, rfl, rfl⟩ := exists_of_value? value
  refine ⟨negative, magnitude, rfl, ?_⟩
  have power : (magnitude.units / unitsPerOne * 10 ^ places : ℚ) =
      (magnitude.units * Nat.pow 10 places : ℕ) / unitsPerOne := by
    rw [Nat.pow_eq, Nat.cast_mul, Nat.cast_pow, Nat.cast_ofNat, div_mul_eq_mul_div]
  rw [← signed_mul_right, nearestWhole_signed, power, nearestWhole_quotient _ unitsPerOne_pos]
  rfl

theorem toList_fixed (negative : Bool) (magnitude : Magnitude) (places : ℕ) :
    ((finite negative magnitude).fixed places).toList = (if negative then ['-'] else []) ++
      (Nat.toDigits 10 (magnitude.scaled places / 10 ^ places) ++
        '.' :: paddedDigits places (magnitude.scaled places % 10 ^ places)) := by
  rw [fixed, String.toList_ofList]
  cases negative <;> rfl

/-- A fixed number of places, which stand for the nearest number with so many places. -/
theorem exists_fixed (value : x.value? = some number) (positive : 0 < places) :
    HasPlaces places (x.fixed places).toList ∧ numeralValue? (x.fixed places).toList =
      some (nearestWhole (number * 10 ^ places) / 10 ^ places : ℚ) := by
  obtain ⟨negative, magnitude, rfl, nearest⟩ := exists_scaled value places
  have text := toList_fixed negative magnitude places
  generalize magnitude.scaled places = count at nearest text
  have width := length_paddedDigits (mod_tenPow_lt count places) positive
  rw [text]
  refine ⟨⟨_, _, (List.append_assoc ..).symm, width, ?_⟩, ?_⟩
  · exact fun c behind => isDigit_of_mem_paddedDigits behind
  · have some_place := List.ne_nil_of_length_pos (width.symm ▸ positive)
    rw [← pointed_of_ne_nil some_place, numeralValue?_pointed negative Nat.toDigits_ne_nil
      (fun c => isDigit_of_mem_places), digitsValue_places positive, width, nearest, cast_signed,
      signed_div_right]

theorem thousandthsText_eq_decimalText (negative : Bool) (count : ℕ) :
    thousandthsText negative count = decimalText 3 (signed negative (count : ℤ)) := by
  have size : (signed negative (count : ℤ)).natAbs = count := by
    cases negative
    · exact Int.natAbs_natCast count
    · exact (Int.natAbs_neg count).trans (Int.natAbs_natCast count)
  have sign : (negative && count != 0) = true ↔ signed negative (count : ℤ) < 0 := by
    cases negative <;> simp [signed, Nat.pos_iff_ne_zero]
  rw [thousandthsText, decimalText, size]
  simp only [sign]
  rfl

/-- Without zeros at the end of the places the text is that of the nearest number with three. -/
theorem toList_compact_eq_decimalText (value : x.value? = some number) (within : |number| < 2 ^ 63) :
    x.compact.toList = decimalText 3 (nearestWhole (number * 1000)) := by
  obtain ⟨negative, magnitude, rfl, nearest⟩ := exists_scaled value 3
  have thousand : (10 ^ 3 : ℚ) = 1000 := by norm_num
  rw [thousand] at nearest
  have below : magnitude.units < 2 ^ 63 * unitsPerOne := by
    obtain rfl := Option.some.inj value
    rw [abs_signed negative (div_unitsPerOne_nonneg _), div_lt_iff₀ unitsPerOne_cast_pos] at within
    exact_mod_cast within
  rw [toList_compact, thousandths_of_lt (lt_wholeLimit_mul negative below),
    thousandthsText_eq_decimalText, nearest]

end Binary64

/-- A numeral of a number with so many places that no other such number is nearer to. -/
def IsNearestNumeral (places : ℕ) (text : List Char) (exact : ℚ) : Prop :=
  ∃ count : ℤ, numeralValue? text = some (count / 10 ^ places : ℚ) ∧
    ∀ other : ℤ, |(count / 10 ^ places : ℚ) - exact| ≤ |(other / 10 ^ places : ℚ) - exact|

section Nearest

variable {places : ℕ} {text : List Char} {exact : ℚ}

theorem one_le_abs_sub {first second : ℤ} (apart : first ≠ second) :
    (1 : ℚ) ≤ |(first : ℚ) - second| := by
  exact_mod_cast Int.one_le_abs (sub_ne_zero.mpr apart)

/-- What is at most a half away is nearest among the whole numbers. -/
theorem abs_sub_le_of_le_half {count : ℤ} {number : ℚ} (near : |count - number| ≤ 1 / 2)
    (other : ℤ) : |count - number| ≤ |other - number| := by
  rcases eq_or_ne other count with rfl | apart
  · exact le_rfl
  · have whole := one_le_abs_sub apart
    have way := abs_sub_le (other : ℚ) number count
    rw [abs_sub_comm number] at way
    linarith

theorem eq_of_abs_sub_le_half {count other : ℤ} (near : |(count : ℚ) - other| ≤ 1 / 2) :
    count = other := by
  by_contra apart
  have whole := one_le_abs_sub apart
  linarith

theorem abs_div_tenPow_sub (count : ℤ) (places : ℕ) (exact : ℚ) :
    |(count / 10 ^ places : ℚ) - exact| = |count - exact * 10 ^ places| / 10 ^ places := by
  have power : (0 : ℚ) < 10 ^ places := by positivity
  rw [eq_div_iff power.ne', ← abs_mul_sub_mul _ _ power.le, div_mul_cancel₀ _ power.ne']

theorem isNearestNumeral_of_le_half {count : ℤ}
    (value : numeralValue? text = some (count / 10 ^ places : ℚ))
    (near : |count - exact * 10 ^ places| ≤ 1 / 2) : IsNearestNumeral places text exact := by
  refine ⟨count, value, fun other => ?_⟩
  rw [abs_div_tenPow_sub, abs_div_tenPow_sub]
  exact div_le_div_of_nonneg_right (abs_sub_le_of_le_half near other) (by positivity)

namespace IsNearestNumeral

/-- The nearest numeral is at most half a unit of the last place away. -/
theorem abs_sub_le (nearest : IsNearestNumeral places text exact) {number : ℚ}
    (value : numeralValue? text = some number) : |number - exact| ≤ 1 / (2 * 10 ^ places) := by
  obtain ⟨count, read, near⟩ := nearest
  obtain rfl := Option.some.inj (value.symm.trans read)
  refine (near (round (exact * 10 ^ places))).trans ?_
  rw [abs_div_tenPow_sub, abs_sub_comm, ← div_div]
  exact div_le_div_of_nonneg_right (abs_sub_round _) (by positivity)

/-- A number with so many places is its nearest numeral. -/
theorem eq_of_decimal (nearest : IsNearestNumeral places text exact) {count : ℤ}
    (decimal : exact = count / 10 ^ places) : numeralValue? text = some exact := by
  obtain ⟨other, read, near⟩ := nearest
  have none := near count
  rw [← decimal, sub_self, abs_zero] at none
  rw [read, sub_eq_zero.mp (abs_nonpos_iff.mp none)]

end IsNearestNumeral

/-- A number near a quotient has a nearest whole number that is nearest to the quotient as well: the
quotient is either in the middle between two whole numbers or at some distance from it. -/
theorem abs_nearestWhole_sub_quotient_le {num : ℤ} {den : ℕ} {number : ℚ} (positive : 0 < den)
    (close : |number - num / den| < 1 / (2 * den)) :
    |nearestWhole number - (num / den : ℚ)| ≤ 1 / 2 := by
  have size : (0 : ℚ) < den := by exact_mod_cast positive
  have near := abs_nearestWhole_sub_le number
  have way := abs_sub_le (nearestWhole number : ℚ) number (num / den)
  generalize nearestWhole number = whole at near way ⊢
  -- Multiples of the denominator differ by a whole number.
  have multiple : |(whole - num / den : ℚ)| * den = |whole * (den : ℤ) - num| := by
    rw [← abs_mul_sub_mul _ _ size.le, div_mul_cancel₀ _ size.ne']
    push_cast
    rfl
  have below : 2 * |whole * (den : ℤ) - num| < den + 1 := by
    have product := mul_lt_mul_of_pos_right (way.trans_lt (add_lt_add_of_le_of_lt near close)) size
    have half : (1 / 2 + 1 / (2 * den) : ℚ) * den = (den + 1) / 2 := by
      field_simp
    rw [multiple, half, lt_div_iff₀ two_pos, mul_comm] at product
    exact_mod_cast product
  have within : 2 * |whole * (den : ℤ) - num| ≤ den := Int.le_of_lt_add_one below
  rw [le_div_iff₀ two_pos, ← mul_le_mul_iff_left₀ size, one_mul, mul_right_comm, multiple,
    mul_comm]
  exact_mod_cast within

end Nearest

end ThemeCss
