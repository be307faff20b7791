import ThemeCss.Length
import ThemeCss.Proofs.Number.Nearest

/-! # Lengths are written in thousandths

The compact form of a double is a whole number of thousandths, and reading it gives the double
nearest to that. Writing the double that was read gives the same thousandths again: it is at least
as near to them as the double they were taken from. For doubles that stand for fewer than 2⁵³
thousandths nothing is lost at all.
-/

namespace ThemeCss

theorem digitsValue_append_zeros (digits : List Char) (count : Nat) :
    digitsValue (digits ++ List.replicate count '0') = digitsValue digits * 10 ^ count := by
  rw [digitsValue, Nat.ofDigitChars_append, Nat.ofDigitChars_replicate_zero, Nat.mul_comm]
  rfl

/-- The digits of a number do not begin with zero, but for zero itself. -/
theorem eq_zero_of_head?_toDigits {n : Nat} (leading : (Nat.toDigits 10 n).head? = some '0') :
    n = 0 := by
  induction n using Nat.strongRecOn with
  | ind n ih =>
    by_cases small : n < 10
    · rw [Nat.toDigits_of_lt_base small] at leading
      exact Nat.digitChar_eq_zero.mp (Option.some.inj leading)
    · rw [Nat.toDigits_of_base_le (by decide) (by omega),
        List.head?_append_of_ne_nil _ Nat.toDigits_ne_nil] at leading
      have zero := ih (n / 10) (by omega) leading
      omega

theorem not_mem_toDigits {c : Char} (other : c.isDigit = false) (number : Nat) :
    c ∉ Nat.toDigits 10 number := by
  intro member
  rw [Nat.isDigit_of_mem_toDigits (by decide) (by decide) member] at other
  contradiction

theorem digitsValue_toDigits (n : Nat) : digitsValue (Nat.toDigits 10 n) = n :=
  Nat.ofDigitChars_ten_toDigits

theorem ofDigitChars_lt {digits : List Char} (digitChars : ∀ c ∈ digits, c.isDigit = true)
    (value : Nat) :
    Nat.ofDigitChars 10 digits value < (value + 1) * 10 ^ digits.length := by
  induction digits generalizing value with
  | nil => simp
  | cons digit rest ih =>
    obtain ⟨first, others⟩ := List.forall_mem_cons.mp digitChars
    have small : digit.toNat ≤ '0'.toNat + 9 := (Char.isDigit_iff_toNat.mp first).2
    rw [Nat.ofDigitChars_cons, List.length_cons, Nat.pow_succ', ← Nat.mul_assoc]
    refine (ih others _).trans_le (Nat.mul_le_mul_right _ ?_)
    omega

theorem length_paddedDigits {width n : Nat} (fits : n < 10 ^ width) (positive : 0 < width) :
    (paddedDigits width n).length = width := by
  have length := (Nat.length_toDigits_le_iff (b := 10) (by decide) positive).mpr fits
  rw [paddedDigits, List.length_append, List.length_replicate, Nat.sub_add_cancel length]

theorem isDigit_of_mem_paddedDigits {width n : Nat} {c : Char} (member : c ∈ paddedDigits width n) :
    c.isDigit = true := by
  rcases List.mem_append.mp member with zero | digit
  · rw [List.eq_of_mem_replicate zero]
    rfl
  · exact Nat.isDigit_of_mem_toDigits (by decide) (by decide) digit

theorem digitsValue_append_paddedDigits (front : List Char) {width n : Nat}
    (fits : n < 10 ^ width) (positive : 0 < width) :
    digitsValue (front ++ paddedDigits width n) = digitsValue front * 10 ^ width + n := by
  have length := (Nat.length_toDigits_le_iff (b := 10) (by decide) positive).mpr fits
  rw [paddedDigits, ← List.append_assoc, digitsValue, Nat.ofDigitChars_append,
    Nat.ofDigitChars_eq_ofDigitChars_zero, Nat.ofDigitChars_ten_toDigits]
  have zeros := digitsValue_append_zeros front (width - (Nat.toDigits 10 n).length)
  rw [digitsValue] at zeros
  rw [zeros, Nat.mul_comm, Nat.mul_assoc, ← Nat.pow_add, Nat.sub_add_cancel length]

namespace Binary64

theorem ofDecimal_neg (negative : Bool) (digits places : Nat) :
    ofDecimal negative digits (-(places : Int)) =
      ofUnits negative (digits * unitsPerOne) (10 ^ places) := by
  cases places with
  | zero =>
    have one : digits * Nat.pow 10 0 = digits := Nat.mul_one digits
    change ofUnits negative (digits * Nat.pow 10 0 * unitsPerOne) 1 = _
    rw [one, Nat.pow_zero]
  | succ before => rfl

/-- Digits are those without the zeros at their end, and the zeros. -/
theorem exists_append_zeros (digits : List Char) : ∃ count,
    digits = (digits.reverse.dropWhile (· == '0')).reverse ++ List.replicate count '0' := by
  refine ⟨(digits.reverse.takeWhile (· == '0')).length, ?_⟩
  have zeros : digits.reverse.takeWhile (· == '0') =
      List.replicate (digits.reverse.takeWhile (· == '0')).length '0' := by
    rw [List.eq_replicate_iff]
    refine ⟨rfl, fun c member => ?_⟩
    have zero : (c == '0') = true := List.mem_takeWhile_imp (p := (· == '0')) member
    exact eq_of_beq zero
  rw [← List.reverse_replicate, ← zeros, ← List.reverse_append, List.takeWhile_append_dropWhile,
    List.reverse_reverse]

/-- Trimming takes zeros away, and the point if nothing is left behind it. -/
theorem exists_trimPlaces (places : List Char) : ∃ kept count,
    places = kept ++ List.replicate count '0' ∧
      trimPlaces places = if kept = [] then [] else '.' :: kept := by
  obtain ⟨count, zeros⟩ := exists_append_zeros places
  refine ⟨_, count, zeros, ?_⟩
  rw [trimPlaces]
  generalize (places.reverse.dropWhile (· == '0')).reverse = kept
  cases kept <;> rfl

section Numeral

variable {whole places : List Char}

/-- Zeros at the end of the places make no difference to what is read. -/
theorem ofNumeral?_trimPlaces (negative : Bool) (some_digit : whole ≠ [])
    (wholeDigits : ∀ c ∈ whole, c.isDigit = true) (placeDigits : ∀ c ∈ places, c.isDigit = true) :
    ofNumeral? ((if negative then ['-'] else []) ++ (whole ++ trimPlaces places)) =
      some (ofUnits negative (digitsValue (whole ++ places) * unitsPerOne)
        (10 ^ places.length)) := by
  obtain ⟨kept, count, rfl, trimmed⟩ := exists_trimPlaces places
  obtain ⟨first, others, rfl⟩ := List.exists_cons_of_ne_nil some_digit
  have unsigned : first ≠ '-' ∧ first ≠ '+' := by
    have digit := wholeDigits first List.mem_cons_self
    constructor <;> rintro rfl <;> contradiction
  have sign : splitSign ((if negative then ['-'] else []) ++ (first :: others ++
      trimPlaces (kept ++ List.replicate count '0'))) =
      (negative, first :: others ++ trimPlaces (kept ++ List.replicate count '0')) := by
    cases negative
    · simp [splitSign, unsigned]
    · simp [splitSign]
  -- The value does not depend on the number of zeros that were taken away.
  have value : ofUnits negative
      (digitsValue (first :: others ++ (kept ++ List.replicate count '0')) * unitsPerOne)
      (10 ^ (kept ++ List.replicate count '0').length) =
      ofDecimal negative (digitsValue (first :: others ++ kept)) (-(kept.length : Int)) := by
    rw [ofDecimal_neg, ← List.append_assoc, digitsValue_append_zeros, List.length_append,
      List.length_replicate, Nat.pow_add, Nat.mul_comm (10 ^ kept.length),
      Nat.mul_comm (digitsValue _), Nat.mul_assoc,
      ofUnits_mul_mul (Nat.pow_pos (by decide : 0 < 10))]
  rw [value, ofNumeral?, sign, trimmed]
  have dropped (behind : List Char) : (first :: others ++ behind).dropWhile Char.isDigit =
      behind.dropWhile Char.isDigit := List.dropWhile_append_of_pos wholeDigits
  have taken (behind : List Char) : (first :: others ++ behind).takeWhile Char.isDigit =
      first :: others ++ behind.takeWhile Char.isDigit := List.takeWhile_append_of_pos wholeDigits
  by_cases none_left : kept = []
  · subst none_left
    have nothing := dropped []
    have everything := taken []
    simp only [List.append_nil, List.dropWhile_nil, List.takeWhile_nil] at nothing everything
    simp [nothing, everything]
  · have digits : kept.all Char.isDigit = true := by
      rw [List.all_eq_true]
      exact fun c member => placeDigits c (List.mem_append_left _ member)
    have point : ('.' : Char).isDigit = false := rfl
    simp only [none_left, ↓reduceIte, dropped, taken, List.dropWhile_cons, List.takeWhile_cons,
      point, Bool.false_eq_true, List.append_nil, digits, List.isEmpty_cons, Bool.false_and,
      Bool.not_false, Bool.and_self]

end Numeral

theorem exists_of_isFinite {number : Binary64} (finite : number.isFinite = true) :
    ∃ negative magnitude, number = .finite negative magnitude := by
  cases number with
  | finite negative magnitude => exact ⟨negative, magnitude, rfl⟩
  | _ => contradiction

/-- A whole number of thousandths as it is written. Zero has no sign. -/
def thousandthsText (negative : Bool) (count : Nat) : List Char :=
  (if negative && count != 0 then ['-'] else []) ++
    (Nat.toDigits 10 (count / 1000) ++ trimPlaces (paddedDigits 3 (count % 1000)))

theorem ofNumeral?_thousandthsText (negative : Bool) (count : Nat) :
    ofNumeral? (thousandthsText negative count) =
      some (ofUnits (negative && count != 0) (count * unitsPerOne) 1000) := by
  have small : count % 1000 < 10 ^ 3 := Nat.mod_lt count (by decide)
  have width := length_paddedDigits small (by decide)
  have value : digitsValue (Nat.toDigits 10 (count / 1000) ++ paddedDigits 3 (count % 1000)) =
      count := by
    rw [digitsValue_append_paddedDigits _ small (by decide), digitsValue_toDigits, Nat.mul_comm]
    exact Nat.div_add_mod count 1000
  rw [thousandthsText, ofNumeral?_trimPlaces _ Nat.toDigits_ne_nil
    (fun c member => Nat.isDigit_of_mem_toDigits (by decide) (by decide) member)
    (fun c member => isDigit_of_mem_paddedDigits member), value, width]
  rfl

/-- The greatest whole number that is written in full, without its sign. -/
def wholeLimit (negative : Bool) : Nat := if negative then 2 ^ 63 else 2 ^ 63 - 1

/-- The thousandths that are written for a finite double. -/
def thousandths (negative : Bool) (magnitude : Magnitude) : Nat :=
  min (magnitude.scaled 3) (1000 * wholeLimit negative)

theorem thousandthsText_mul (negative : Bool) (whole : Nat) :
    thousandthsText negative (1000 * whole) =
    (if negative && whole != 0 then ['-'] else []) ++ Nat.toDigits 10 whole := by
  have zeros : trimPlaces (paddedDigits 3 0) = [] := by decide
  rw [thousandthsText, Nat.mul_div_cancel_left whole (by decide), Nat.mul_mod_right, zeros,
    List.append_nil]
  simp

theorem scaled_three (magnitude : Magnitude) :
    magnitude.scaled 3 = halfEven (magnitude.units * 1000) unitsPerOne := rfl

theorem scaled_of_dvd {magnitude : Magnitude} (whole : unitsPerOne ∣ magnitude.units) :
    magnitude.scaled 3 = 1000 * (magnitude.units / unitsPerOne) := by
  obtain ⟨count, same⟩ := whole
  rw [scaled_three, same, Nat.mul_div_cancel_left count unitsPerOne_pos, Nat.mul_assoc,
    Nat.mul_comm,
    halfEven_mul_self _ unitsPerOne_pos, Nat.mul_comm]

/-- From 2⁵² on all doubles are whole numbers. -/
theorem scaled_le_of_not_dvd {magnitude : Magnitude} (fraction : ¬ unitsPerOne ∣ magnitude.units) :
    magnitude.scaled 3 ≤ 1000 * 2 ^ 53 := by
  have below : magnitude.units < 2 ^ 52 * unitsPerOne := by
    by_contra! large
    unfold unitsPerOne at fraction large
    exact fraction (OnGrid.twoPow_dvd magnitude.onGrid large)
  have floor : magnitude.units * 1000 / unitsPerOne < 1000 * 2 ^ 52 := by
    rw [Nat.div_lt_iff_lt_mul unitsPerOne_pos]
    generalize unitsPerOne = one at *
    omega
  have upper := halfEven_le_div_succ (magnitude.units * 1000) unitsPerOne
  rw [scaled_three]
  omega

theorem toList_toString_signed (negative : Bool) (n : Nat) :
    (toString (if negative then -(n : Int) else n)).toList =
      (if negative && n != 0 then ['-'] else []) ++ Nat.toDigits 10 n := by
  rw [Int.toString_eq_repr, Int.repr_eq_if]
  cases negative with
  | false => simp
  | true =>
    cases n with
    | zero => simp
    | succ before =>
      have below : ¬ (0 : Int) ≤ -((before + 1 : Nat) : Int) := by omega
      simp only [↓reduceIte, below, Int.neg_neg, Int.toNat_natCast, String.toList_append,
        Nat.toList_repr]
      rfl

theorem toList_compact (negative : Bool) (magnitude : Magnitude) :
    (Binary64.finite negative magnitude).compact.toList =
      thousandthsText negative (thousandths negative magnitude) := by
  rw [thousandths, wholeLimit]
  by_cases whole : unitsPerOne ∣ magnitude.units
  · rw [scaled_of_dvd whole, Nat.mul_min_mul_left, thousandthsText_mul]
    simp only [compact, toInt?, whole, ↓reduceIte, leastWhole, greatestWhole]
    generalize magnitude.units / unitsPerOne = count
    -- The sign of the whole number that is written is that of a number other than zero.
    have written : max (-0x8000000000000000) (min 0x7FFFFFFFFFFFFFFF
        (if negative then -(count : Int) else count)) =
        if negative then -((min count (2 ^ 63) : Nat) : Int)
        else (min count (2 ^ 63 - 1) : Nat) := by
      split <;> omega
    rw [written]
    cases negative with
    | false => exact toList_toString_signed false (min count (2 ^ 63 - 1))
    | true => exact toList_toString_signed true (min count (2 ^ 63))
  · have few := scaled_le_of_not_dvd whole
    have within : min (magnitude.scaled 3) (1000 * if negative then 2 ^ 63 else 2 ^ 63 - 1) =
        magnitude.scaled 3 := by
      rw [Nat.min_eq_left]
      split <;> omega
    rw [within, thousandthsText]
    simp only [compact, toInt?, whole, ↓reduceIte, String.toList_ofList]
    split <;> rfl

section Again

variable {negative : Bool} {magnitude again : Magnitude}

theorem thousandths_le (negative : Bool) (magnitude : Magnitude) :
    thousandths negative magnitude ≤ 1000 * 2 ^ 63 := by
  rw [thousandths, wholeLimit]
  split <;> omega

theorem roundedUnits_lt_overflowUnits {count : Nat} (few : count ≤ 1000 * 2 ^ 63) :
    Magnitude.roundedUnits (count * unitsPerOne) 1000 < overflowUnits := by
  have doubled := Magnitude.roundedUnits_mul_le (count * unitsPerOne) (by decide : 0 < 1000)
  have fewer := Nat.mul_le_mul_right unitsPerOne few
  have far : 2 ^ 64 * unitsPerOne < overflowUnits := by decide +kernel
  generalize unitsPerOne = one at *
  omega

/-- What was read is at least as near to the thousandths as what was written. -/
theorem scaled_of_roundedUnits
    (read : again.units = Magnitude.roundedUnits (magnitude.scaled 3 * unitsPerOne) 1000) :
    again.scaled 3 = magnitude.scaled 3 := by
  have nearest := Magnitude.distance_roundedUnits_le (magnitude.scaled 3 * unitsPerOne)
    (by decide : 0 < 1000) magnitude.onGrid
  rw [← read, distance_mul_comm _ _ again.units, distance_mul_comm _ _ magnitude.units] at nearest
  rw [scaled_three again]
  exact halfEven_eq_of_nearer unitsPerOne_pos (scaled_three magnitude).symm nearest

/-- The double that is read stands for the thousandths that were written. -/
theorem thousandths_of_roundedUnits (read : again.units =
      Magnitude.roundedUnits (thousandths negative magnitude * unitsPerOne) 1000) :
    thousandths (negative && thousandths negative magnitude != 0) again =
      thousandths negative magnitude := by
  by_cases within : magnitude.scaled 3 ≤ 1000 * wholeLimit negative
  · have count : thousandths negative magnitude = magnitude.scaled 3 := Nat.min_eq_left within
    rw [count] at read ⊢
    rw [thousandths, scaled_of_roundedUnits read]
    by_cases zero : magnitude.scaled 3 = 0
    · rw [zero, Nat.zero_min]
    · rw [bne_iff_ne.mpr zero, Bool.and_true, Nat.min_eq_left within]
  · have count : thousandths negative magnitude = 1000 * wholeLimit negative :=
      Nat.min_eq_right (by omega)
    rw [count] at read ⊢
    -- The nearest double is 2⁶³ for either sign.
    have units : again.units = 2 ^ 63 * unitsPerOne := by
      rw [read]
      cases negative <;> decide +kernel
    have whole : unitsPerOne ∣ again.units := by
      rw [units]
      exact Nat.dvd_mul_left unitsPerOne (2 ^ 63)
    have scaled : again.scaled 3 = 1000 * 2 ^ 63 := by
      rw [scaled_of_dvd whole, units, Nat.mul_div_cancel _ unitsPerOne_pos]
    rw [thousandths, scaled]
    cases negative <;> decide

end Again

section Exact

/-- Where the grid is not finer than thousandths, numbers are large. -/
theorem large_of_gridStep {exponent units : Nat} (room : 10 ≤ exponent)
    (coarse : Nat.pow 2 exponent ≤ 1000 * gridStep units) :
    2 ^ 43 * Nat.pow 2 exponent ≤ units := by
  rw [gridStep, Nat.pow_eq, Nat.pow_eq] at coarse
  rw [Nat.pow_eq, ← Nat.pow_add]
  have digits : 43 + exponent ≤ units.log2 := by
    by_contra! fewer
    have less : 2 ^ (units.log2 - 52) ≤ 2 ^ (exponent - 10) :=
      Nat.pow_le_pow_right (by decide) (by omega)
    have whole : 2 ^ exponent = 2 ^ 10 * 2 ^ (exponent - 10) := by
      rw [← Nat.pow_add, Nat.add_sub_cancel' room]
    have positive := Nat.two_pow_pos (exponent - 10)
    omega
  have nonzero : units ≠ 0 := by
    rintro rfl
    simp at digits
  exact (Nat.le_log2 nonzero).mp digits

theorem onGrid_twoPow_mul_unitsPerOne (exponent : Nat) : OnGrid (2 ^ exponent * unitsPerOne) := by
  unfold unitsPerOne
  rw [Nat.pow_eq, ← Nat.pow_add]
  exact onGrid_twoPow _

/-- Doubles from 2⁴³ on are multiples of a number that is more than a thousandth. -/
theorem exists_coarse : ∃ step, 0 < step ∧ 512 * step = unitsPerOne ∧
    ∀ {units}, OnGrid units → 2 ^ 43 * unitsPerOne ≤ units → step ∣ units := by
  refine ⟨Nat.pow 2 (unitPlaces - 9), twoPow_pos _, by decide +kernel, fun onGrid large => ?_⟩
  have bound : 2 ^ 52 * Nat.pow 2 (unitPlaces - 9) ≤ 2 ^ 43 * unitsPerOne := by decide +kernel
  exact onGrid.twoPow_dvd (bound.trans large)

theorem eq_of_near_multiples {step first second : Nat} (positive : 0 < step)
    (left : step ∣ first) (right : step ∣ second)
    (above : 1000 * first ≤ 1000 * second + 512 * step)
    (below : 1000 * second ≤ 1000 * first + 512 * step) : first = second := by
  obtain ⟨few, rfl⟩ := left
  obtain ⟨many, rfl⟩ := right
  rcases Nat.lt_trichotomy few many with less | rfl | more
  · have apart := Nat.mul_le_mul_left step (Nat.succ_le_of_lt less)
    rw [Nat.mul_succ] at apart
    omega
  · rfl
  · have apart := Nat.mul_le_mul_left step (Nat.succ_le_of_lt more)
    rw [Nat.mul_succ] at apart
    omega

variable {negative : Bool} {magnitude : Magnitude} {count : Nat}

theorem thousandths_eq_scaled (few : magnitude.scaled 3 ≤ 1000 * 2 ^ 62) :
    thousandths negative magnitude = magnitude.scaled 3 := by
  rw [thousandths, wholeLimit, Nat.min_eq_left]
  split <;> omega

/-- A double that is the nearest one to fewer than 2⁵³ thousandths is also the nearest one to the
thousandths that are written for it. -/
theorem roundedUnits_thousandths (negative : Bool) (few : count < 2 ^ 53)
    (nearest : magnitude.units = Magnitude.roundedUnits (count * unitsPerOne) 1000) :
    Magnitude.roundedUnits (thousandths negative magnitude * unitsPerOne) 1000 =
      magnitude.units := by
  have thousand : 0 < 1000 := by decide
  by_cases coarse : unitsPerOne ≤ 1000 * gridStep (count * unitsPerOne / 1000)
  · -- The step of the grid is more than a thousandth, so only one double is near enough.
    have large : 2 ^ 43 * unitsPerOne ≤ count * unitsPerOne / 1000 := by
      unfold unitsPerOne at coarse ⊢
      exact large_of_gridStep (by decide) coarse
    have edge := onGrid_twoPow_mul_unitsPerOne 43
    have bound := (Nat.le_div_iff_mul_le thousand).mp large
    have unitsLarge : 2 ^ 43 * unitsPerOne ≤ magnitude.units := by
      rw [nearest]
      exact Magnitude.le_roundedUnits thousand edge bound
    have scaledLarge : 2 ^ 43 * 1000 ≤ magnitude.scaled 3 := by
      rw [scaled_three]
      refine Nat.le_trans ?_ (div_le_halfEven _ _)
      rw [Nat.le_div_iff_mul_le unitsPerOne_pos]
      generalize unitsPerOne = one at *
      omega
    have doubled := Magnitude.roundedUnits_mul_le (count * unitsPerOne) thousand
    have scaledSmall : magnitude.scaled 3 ≤ 1000 * 2 ^ 62 := by
      have upper := halfEven_le_div_succ (magnitude.units * 1000) unitsPerOne
      have floor : magnitude.units * 1000 / unitsPerOne < 2 ^ 55 := by
        rw [Nat.div_lt_iff_lt_mul unitsPerOne_pos, nearest]
        have fewer := Nat.mul_lt_mul_of_pos_right few unitsPerOne_pos
        generalize unitsPerOne = one at *
        omega
      rw [scaled_three]
      omega
    rw [thousandths_eq_scaled scaledSmall]
    have againLarge : 2 ^ 43 * unitsPerOne ≤
        Magnitude.roundedUnits (magnitude.scaled 3 * unitsPerOne) 1000 := by
      apply Magnitude.le_roundedUnits thousand edge
      have product := Nat.mul_le_mul_right unitsPerOne scaledLarge
      rwa [Nat.mul_right_comm] at product
    obtain ⟨step, positive, size, multiple⟩ := exists_coarse
    have written := two_mul_distance_halfEven_le (magnitude.units * 1000) unitsPerOne_pos
    rw [← scaled_three, distance_mul_comm] at written
    have read := Magnitude.distance_roundedUnits_le (magnitude.scaled 3 * unitsPerOne) thousand
      magnitude.onGrid
    simp only [distance] at written read
    refine eq_of_near_multiples positive (multiple (onGrid_roundedUnits ..) againLarge)
      (multiple magnitude.onGrid unitsLarge) ?_ ?_
    all_goals
      rw [size]
      generalize unitsPerOne = one at *
      omega
  · -- The step is less than a thousandth, so the thousandths are those that were meant.
    have same : magnitude.scaled 3 = count := by
      rw [scaled_three, halfEven_eq_iff unitsPerOne_pos, distance_mul_comm, nearest,
        Magnitude.distance_roundedUnits]
      have near := two_mul_distance_halfEven_le (count * unitsPerOne)
        (Nat.mul_pos thousand (gridStep_pos (count * unitsPerOne / 1000)))
      exact .inl (near.trans_lt (Nat.lt_of_not_le coarse))
    rw [thousandths_eq_scaled (by omega), same, nearest]

end Exact

theorem isNumberChar_of_isDigit {c : Char} (digit : c.isDigit = true) :
    Length.isNumberChar c = true := by
  rw [Length.isNumberChar, digit]
  rfl

theorem isNumberChar_of_mem_compact {number : Binary64} (finite : number.isFinite = true) {c : Char}
    (member : c ∈ number.compact.toList) : Length.isNumberChar c = true := by
  obtain ⟨negative, magnitude, rfl⟩ := exists_of_isFinite finite
  rw [toList_compact, thousandthsText] at member
  obtain ⟨kept, count, places, trimmed⟩ :=
    exists_trimPlaces (paddedDigits 3 (thousandths negative magnitude % 1000))
  rw [trimmed, List.mem_append, List.mem_append] at member
  rcases member with sign | whole | place
  · split at sign
    · rw [List.mem_singleton.mp sign]
      decide
    · exact absurd sign List.not_mem_nil
  · exact isNumberChar_of_isDigit (Nat.isDigit_of_mem_toDigits (by decide) (by decide) whole)
  · split at place
    · exact absurd place List.not_mem_nil
    · rcases List.mem_cons.mp place with point | place
      · rw [point]
        decide
      · have padded : c ∈ paddedDigits 3 (thousandths negative magnitude % 1000) := by
          rw [places]
          exact List.mem_append_left _ place
        exact isNumberChar_of_isDigit (isDigit_of_mem_paddedDigits padded)

theorem units_of_same {left right : Bool} {a b : Magnitude}
    (same : (Binary64.finite left a).same (.finite right b) = true) : a.units = b.units := by
  simp only [Binary64.same, place?, decide_eq_true_eq] at same
  split at same <;> split at same <;> omega

theorem same_of_units {left right : Bool} {a b : Magnitude} (units : a.units = b.units)
    (sign : left = right ∨ b.units = 0) :
    (Binary64.finite left a).same (.finite right b) = true := by
  simp only [Binary64.same, place?, units, decide_eq_true_eq]
  rcases sign with rfl | zero
  · rfl
  · rw [zero]
    cases left <;> cases right <;> rfl

/-- The double that is read where a finite double was written. -/
def reread (negative : Bool) (magnitude : Magnitude) : Binary64 :=
  .finite (negative && thousandths negative magnitude != 0)
    ⟨Magnitude.roundedUnits (thousandths negative magnitude * unitsPerOne) 1000,
      Magnitude.gridStep_dvd_roundedUnits _ _,
      roundedUnits_lt_overflowUnits (thousandths_le negative magnitude)⟩

section Reread

variable (negative : Bool) (magnitude : Magnitude)

theorem ofNumeral?_compact :
    ofNumeral? (Binary64.finite negative magnitude).compact.toList =
      some (reread negative magnitude) := by
  rw [toList_compact, ofNumeral?_thousandthsText,
    ofUnits_of_lt (roundedUnits_lt_overflowUnits (thousandths_le negative magnitude))]
  rfl

theorem compact_reread :
    (reread negative magnitude).compact = (Binary64.finite negative magnitude).compact := by
  rw [← String.toList_inj, toList_compact, reread, toList_compact, thousandths_of_roundedUnits rfl]
  simp [thousandthsText]

theorem reread_same {sign : Bool} {count : Nat} (few : count < 2 ^ 53)
    (same : (Binary64.finite negative magnitude).same (ofDecimal sign count (-3)) = true) :
    (reread negative magnitude).same (.finite negative magnitude) = true := by
  have bounded : count ≤ 1000 * 2 ^ 63 := by omega
  have finite := roundedUnits_lt_overflowUnits bounded
  have decimal : ofDecimal sign count (-3) = ofUnits sign (count * unitsPerOne) 1000 :=
    ofDecimal_neg sign count 3
  rw [decimal, ofUnits_of_lt finite] at same
  have units := roundedUnits_thousandths negative few (units_of_same same)
  by_cases zero : thousandths negative magnitude = 0
  · have none : magnitude.units = 0 := by
      have onGrid := Magnitude.roundedUnits_of_onGrid (by decide : 0 < 1000) onGrid_zero
      rw [← units, zero, Nat.zero_mul]
      rwa [Nat.zero_mul] at onGrid
    exact same_of_units units (.inr none)
  · refine same_of_units units (.inl ?_)
    rw [bne_iff_ne.mpr zero, Bool.and_true]

end Reread

end Binary64

end ThemeCss
