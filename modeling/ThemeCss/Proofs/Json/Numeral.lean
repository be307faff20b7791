import ThemeCss.Json.Scalar
import ThemeCss.Proofs.Number.Thousandths

/-! # Numerals that are written and read

A numeral that was laid out is taken off the text as it was. It has a value unless it is too large:
the places behind the point only make it smaller, so at most the digits in front of it and a
positive exponent count.
-/

namespace ThemeCss.Json

/-- What may stand behind a value: the end of the text, or what goes on behind a member. -/
def Ends (rest : List Char) : Prop := ∀ c ∈ rest.head?, c = ',' ∨ c = ']' ∨ c = '}'

/-- What may stand behind a value in a text with spaces. -/
def Stops (rest : List Char) : Prop :=
  ∀ c ∈ rest.head?, isSpace c = true ∨ c = ',' ∨ c = ']' ∨ c = '}'

theorem Ends.stops {rest : List Char} (ends : Ends rest) : Stops rest :=
  fun c first => .inr (ends c first)

/-- At least one digit, and nothing else. -/
def IsDigits (digits : List Char) : Prop := digits ≠ [] ∧ ∀ c ∈ digits, c.isDigit = true

theorem isDigits_toDigits (n : Nat) : IsDigits (Nat.toDigits 10 n) :=
  ⟨Nat.toDigits_ne_nil, fun _ member => Nat.isDigit_of_mem_toDigits (by decide) (by decide) member⟩

section Taking

variable (atEnd : Cause) {digits rest : List Char}

theorem takeDigits_append (some_digit : IsDigits digits)
    (apart : ∀ c ∈ rest.head?, c.isDigit = false) :
    takeDigits atEnd (digits ++ rest) = .ok (digits, rest) := by
  have stop : rest.takeWhile Char.isDigit = [] ∧ rest.dropWhile Char.isDigit = rest := by
    cases rest with
    | nil => exact ⟨rfl, rfl⟩
    | cons c more => simp [apart c rfl]
  rw [takeDigits, List.takeWhile_append_of_pos some_digit.2,
    List.dropWhile_append_of_pos some_digit.2, stop.1, stop.2, List.append_nil]
  obtain ⟨first, others, rfl⟩ := List.exists_cons_of_ne_nil some_digit.1
  rfl

theorem takeWhole_append (some_digit : IsDigits digits)
    (leading : digits.head? = some '0' → digits = ['0'])
    (apart : ∀ c ∈ rest.head?, c.isDigit = false) :
    takeWhole atEnd (digits ++ rest) = .ok (digits, rest) := by
  obtain ⟨first, others, rfl⟩ := List.exists_cons_of_ne_nil some_digit.1
  by_cases zero : first = '0'
  · subst zero
    obtain ⟨-, rfl⟩ := List.cons.inj (leading rfl)
    have stop : rest.head?.filter Char.isDigit = none := by
      rw [Option.filter_eq_none_iff]
      exact fun c first => Bool.not_eq_true _ ▸ apart c first
    simp [takeWhole, stop]
  · rw [← takeDigits_append atEnd some_digit apart, takeWhole]
    intro more same
    exact zero (List.cons.inj same).1

end Taking

namespace Numeral

/-- The point with the digits behind it. -/
def placesText : Option (List Char) → List Char
  | none => []
  | some digits => '.' :: digits

/-- The exponent with its sign. -/
def powerText : Option (Bool × List Char) → List Char
  | none => []
  | some (negative, digits) => 'e' :: (if negative then '-' else '+') :: digits

/-- A numeral as it is written. -/
def text (numeral : Numeral) : List Char :=
  (if numeral.negative then ['-'] else []) ++
    (numeral.whole ++ (placesText numeral.places ++ powerText numeral.power))

/-- There are digits wherever digits have to be, and only a zero begins with a zero. -/
structure WellFormed (numeral : Numeral) : Prop where
  whole : IsDigits numeral.whole
  leading : numeral.whole.head? = some '0' → numeral.whole = ['0']
  places : ∀ digits ∈ numeral.places, IsDigits digits
  power : ∀ power ∈ numeral.power, IsDigits power.2

end Numeral

/-- The spellings of an exponent: with either letter, and with or without a plus. -/
inductive SpellsPower : Option (Bool × List Char) → List Char → Prop where
  | none : SpellsPower none []
  | some {mark : Char} {sign digits : List Char} : mark = 'e' ∨ mark = 'E' →
    sign = [] ∨ sign = ['+'] ∨ sign = ['-'] → IsDigits digits →
      SpellsPower (some (sign == ['-'], digits)) (mark :: (sign ++ digits))

/-- The text is the numeral, with its exponent spelled in some way. -/
def Numeral.Spelled (numeral : Numeral) (text : List Char) : Prop :=
  ∃ power, SpellsPower numeral.power power ∧ text = (if numeral.negative then ['-'] else []) ++
    (numeral.whole ++ (placesText numeral.places ++ power))

theorem Numeral.spelled_text {numeral : Numeral} (wellFormed : numeral.WellFormed) :
    numeral.Spelled numeral.text := by
  refine ⟨powerText numeral.power, ?_, rfl⟩
  cases power : numeral.power with
  | none => exact .none
  | some part =>
    obtain ⟨negative, digits⟩ := part
    have some_digit := wellFormed.power _ power
    cases negative with
    | false => exact .some (.inl rfl) (.inr (.inl rfl)) some_digit
    | true => exact .some (.inl rfl) (.inr (.inr rfl)) some_digit

section Taking

variable (atEnd : Cause) {rest : List Char}

theorem takePlaces_append {places : Option (List Char)}
    (some_digit : ∀ digits ∈ places, IsDigits digits)
    (apart : ∀ c ∈ rest.head?, c.isDigit = false ∧ c ≠ '.') :
    takePlaces atEnd (Numeral.placesText places ++ rest) = .ok (places, rest) := by
  cases places with
  | none =>
    rw [Numeral.placesText, List.nil_append, takePlaces]
    rintro more rfl
    exact (apart '.' rfl).2 rfl
  | some digits =>
    rw [Numeral.placesText, List.cons_append, takePlaces,
      takeDigits_append atEnd (some_digit digits rfl) fun c first => (apart c first).1]

theorem takePower_append {power : Option (Bool × List Char)} {text : List Char}
    (spelled : SpellsPower power text)
    (apart : ∀ c ∈ rest.head?, c.isDigit = false ∧ c ≠ 'e' ∧ c ≠ 'E') :
    takePower atEnd (text ++ rest) = .ok (power, rest) := by
  cases spelled with
  | none =>
    rw [List.nil_append]
    cases rest with
    | nil => rfl
    | cons c more => simp [takePower, apart c rfl]
  | @some mark sign digits marked signed some_digit =>
    have split : splitSign (sign ++ (digits ++ rest)) = (sign == ['-'], digits ++ rest) := by
      rcases signed with rfl | rfl | rfl
      · obtain ⟨first, others, rfl⟩ := List.exists_cons_of_ne_nil some_digit.1
        have digit := some_digit.2 first List.mem_cons_self
        rw [List.nil_append, splitSign]
        · rfl
        · rintro _ ⟨⟩
          cases digit
        · rintro _ ⟨⟩
          cases digit
      · rfl
      · rfl
    rw [List.cons_append, List.append_assoc, takePower, if_pos marked, split]
    simp only [takeDigits_append atEnd some_digit fun c first => (apart c first).1]

theorem Stops.apart (stops : Stops rest) :
    ∀ c ∈ rest.head?, c.isDigit = false ∧ c ≠ '.' ∧ c ≠ 'e' ∧ c ≠ 'E' := by
  intro c first
  rcases stops c first with space | rfl | rfl | rfl
  · simp only [isSpace, Bool.or_eq_true, beq_iff_eq] at space
    rcases space with ((rfl | rfl) | rfl) | rfl <;> decide
  all_goals decide

theorem head?_power_append {power : Option (Bool × List Char)} {text : List Char}
    (spelled : SpellsPower power text) (stops : Stops rest) :
    ∀ c ∈ (text ++ rest).head?, c.isDigit = false ∧ c ≠ '.' := by
  cases spelled with
  | none => exact fun c first => ⟨(stops.apart c first).1, (stops.apart c first).2.1⟩
  | some marked signed some_digit =>
    intro c first
    obtain rfl := Option.some.inj first
    rcases marked with rfl | rfl <;> decide

theorem head?_placesText_append (places : Option (List Char)) {power : Option (Bool × List Char)}
    {text : List Char} (spelled : SpellsPower power text) (stops : Stops rest) :
    ∀ c ∈ (Numeral.placesText places ++ (text ++ rest)).head?, c.isDigit = false := by
  cases places with
  | none => exact fun c first => (head?_power_append spelled stops c first).1
  | some digits =>
    intro c first
    obtain rfl := Option.some.inj first
    decide

/-- A numeral is taken from each of its spellings. -/
theorem takeNumeral_of_spelled {numeral : Numeral} {text : List Char}
    (wellFormed : numeral.WellFormed) (spelled : numeral.Spelled text) (stops : Stops rest) :
    takeNumeral atEnd (text ++ rest) = .ok (numeral, rest) := by
  obtain ⟨negative, whole, places, power⟩ := numeral
  obtain ⟨powerText, spelled, rfl⟩ := spelled
  have body : takeWhole atEnd (whole ++ (Numeral.placesText places ++ (powerText ++ rest))) =
      .ok (whole, _) :=
    takeWhole_append atEnd wellFormed.whole wellFormed.leading
      (head?_placesText_append places spelled stops)
  have behindWhole := takePlaces_append atEnd wellFormed.places (head?_power_append spelled stops)
  have behindPlaces := takePower_append atEnd spelled fun c first =>
    ⟨(stops.apart c first).1, (stops.apart c first).2.2⟩
  obtain ⟨first, others, rfl⟩ := List.exists_cons_of_ne_nil wellFormed.whole.1
  have unsigned : first ≠ '-' := by
    rintro rfl
    exact absurd (wellFormed.whole.2 '-' List.mem_cons_self) (by decide)
  cases negative <;>
    simp_all [takeNumeral]

/-- A written numeral is taken as it was. -/
theorem takeNumeral_text {numeral : Numeral} (wellFormed : numeral.WellFormed) (ends : Ends rest) :
    takeNumeral atEnd (numeral.text ++ rest) = .ok (numeral, rest) :=
  takeNumeral_of_spelled atEnd wellFormed (Numeral.spelled_text wellFormed) ends.stops

end Taking

/-- Digits are appended from the front, and the number stays within the bound. -/
theorem exists_appendDigits (bound value : Nat) (digits : List Char) : ∃ taken unread,
    digits = taken ++ unread ∧
      appendDigits bound value digits = (Nat.ofDigitChars 10 taken value, unread) := by
  induction digits generalizing value with
  | nil => exact ⟨[], [], rfl, rfl⟩
  | cons digit rest ih =>
    by_cases large : bound < value * 10 + (digit.toNat - '0'.toNat)
    · exact ⟨[], digit :: rest, rfl, by simp only [appendDigits, large, ↓reduceIte]; rfl⟩
    · obtain ⟨taken, unread, rfl, appended⟩ := ih (value * 10 + (digit.toNat - '0'.toNat))
      refine ⟨digit :: taken, unread, rfl, ?_⟩
      simp only [appendDigits, large, ↓reduceIte, appended, Nat.ofDigitChars_cons, Nat.mul_comm]

theorem le_ofDigitChars (digits : List Char) (value : Nat) :
    value ≤ Nat.ofDigitChars 10 digits value := by
  rw [Nat.ofDigitChars_eq_ofDigitChars_zero]
  have positive : 0 < 10 ^ digits.length := Nat.pow_pos (by decide)
  have whole := Nat.mul_le_mul_right value positive
  omega

/-- Digits that stay within the bound are all appended. -/
theorem appendDigits_of_le {bound value : Nat} {digits : List Char}
    (fits : Nat.ofDigitChars 10 digits value ≤ bound) :
    appendDigits bound value digits = (Nat.ofDigitChars 10 digits value, []) := by
  induction digits generalizing value with
  | nil => rfl
  | cons digit rest ih =>
    rw [Nat.ofDigitChars_cons, Nat.mul_comm] at fits ⊢
    have next := (le_ofDigitChars rest _).trans fits
    rw [appendDigits, ih fits]
    simp only [Nat.not_lt.mpr next, ↓reduceIte]

section Finite

/-- A quotient that is far below infinity is finite, and at most doubled. -/
theorem exists_ofUnits {num den limit : Nat} (positive : 0 < den)
    (within : num ≤ limit * unitsPerOne * den) (few : 2 * limit * unitsPerOne < overflowUnits)
    (negative : Bool) : ∃ magnitude : Magnitude,
      Binary64.ofUnits negative num den = .finite negative magnitude ∧
        magnitude.units ≤ 2 * limit * unitsPerOne := by
  have doubled := Magnitude.roundedUnits_mul_le num positive
  have bound : Magnitude.roundedUnits num den ≤ 2 * limit * unitsPerOne := by
    refine Nat.le_of_mul_le_mul_right (doubled.trans ?_) positive
    rw [Nat.mul_assoc 2, Nat.mul_assoc 2]
    exact Nat.mul_le_mul_left 2 within
  exact ⟨_, Binary64.ofUnits_of_lt (bound.trans_lt few), bound⟩

theorem finite_mul_finite (left right : Bool) (a b : Magnitude) :
    Binary64.finite left a * Binary64.finite right b =
      Binary64.ofUnits (left ^^ right) (a.units * b.units) unitsPerOne := by
  change Binary64.mul _ _ = _
  rw [Binary64.mul]

/-- A product with a power of ten that is far below infinity is finite. -/
theorem exists_grow? {significand up limit : Nat} (few : up ≤ 308) (power : 10 ^ up ≤ limit)
    (within : significand * 10 ^ up ≤ limit) (small : 8 * limit * unitsPerOne < overflowUnits) :
    ∃ value, grow? (.ofNat significand) up = some value := by
  have size : significand ≤ limit :=
    (Nat.le_mul_of_pos_right significand (Nat.pow_pos (by decide))).trans within
  have far {n : Nat} (less : n ≤ 8 * limit) : n * unitsPerOne < overflowUnits :=
    (Nat.mul_le_mul_right unitsPerOne less).trans_lt small
  have significandWithin : significand * unitsPerOne ≤ significand * unitsPerOne * 1 :=
    (Nat.mul_one _).ge
  have powerWithin : 1 * 10 ^ up * unitsPerOne ≤ 10 ^ up * unitsPerOne * 1 := by
    rw [Nat.mul_one, Nat.one_mul]
  obtain ⟨left, leftValue, leftBound⟩ :=
    exists_ofUnits Nat.one_pos significandWithin (far (by omega)) false
  obtain ⟨right, rightValue, rightBound⟩ :=
    exists_ofUnits Nat.one_pos powerWithin (far (by omega)) false
  have productBound : left.units * right.units ≤
      2 * significand * (2 * 10 ^ up) * unitsPerOne * unitsPerOne := by
    refine (Nat.mul_le_mul leftBound rightBound).trans (le_of_eq ?_)
    generalize unitsPerOne = one
    ring
  have regrouped : 2 * (2 * significand * (2 * 10 ^ up)) = 8 * (significand * 10 ^ up) := by ring
  obtain ⟨product, productValue, -⟩ := exists_ofUnits unitsPerOne_pos productBound
    (far (by omega)) false
  have value : Binary64.ofNat significand * powerOfTen up = .finite false product := by
    have significandValue : Binary64.ofNat significand = .finite false left := leftValue
    have powerValue : powerOfTen up = .finite false right := rightValue
    rw [significandValue, powerValue, finite_mul_finite, Bool.xor_self, productValue]
  refine ⟨.finite false product, ?_⟩
  rw [grow?, if_pos few, value]
  rfl

/-- The point can be moved as long as the number has few digits in front of it. -/
theorem exists_movePoint? {significand count most : Nat} {exponent : Int}
    (size : significand < 10 ^ count) (near : exponent ≤ most) (inFront : count + exponent ≤ most)
    (few : most ≤ 308) (small : 8 * Nat.pow 10 most * unitsPerOne < overflowUnits) :
    ∃ value, movePoint? (.ofNat significand) exponent = some value := by
  cases exponent with
  | ofNat up =>
    rw [Int.ofNat_eq_natCast] at near inFront
    have power : 10 ^ up ≤ Nat.pow 10 most :=
      Nat.pow_le_pow_right (by decide) (Int.ofNat_le.mp near)
    refine exists_grow? (by omega) power ?_ small
    calc
      significand * 10 ^ up ≤ 10 ^ count * 10 ^ up := Nat.mul_le_mul_right _ size.le
      _ = 10 ^ (count + up) := (Nat.pow_add ..).symm
      _ ≤ 10 ^ most := Nat.pow_le_pow_right (by decide) (by omega)
  | negSucc down => exact ⟨_, rfl⟩

end Finite

namespace Numeral

/-- The digits in front of the point, as far as a positive exponent moves it. -/
def reach (numeral : Numeral) : Nat :=
  numeral.whole.length + match numeral.power with
    | some (false, digits) => digitsValue digits
    | _ => 0

/-- The digits that are kept are those in front of the point and some behind it, or only some in
front of it. -/
theorem exists_parts {numeral : Numeral} (wellFormed : numeral.WellFormed) :
    ∃ significand kept dropped read : Nat, numeral.parts = (significand, (dropped : Int) - read) ∧
      kept + dropped = numeral.whole.length ∧ significand < 10 ^ (kept + read) := by
  obtain ⟨kept, dropped, whole, front⟩ :=
    exists_appendDigits greatestSignificand 0 numeral.whole
  obtain ⟨read, unread, places, behind⟩ := exists_appendDigits greatestSignificand
    (Nat.ofDigitChars 10 kept 0) (numeral.places.getD [])
  have wholeDigits : ∀ c ∈ kept, c.isDigit = true := fun c member =>
    wellFormed.whole.2 c (whole ▸ List.mem_append_left _ member)
  have placeDigits : ∀ c ∈ read, c.isDigit = true := by
    intro c member
    have inside : c ∈ numeral.places.getD [] := places ▸ List.mem_append_left _ member
    cases given : numeral.places with
    | none => simp [given] at inside
    | some digits => exact (wellFormed.places digits given).2 c (by simpa [given] using inside)
  refine ⟨Nat.ofDigitChars 10 read (Nat.ofDigitChars 10 kept 0), kept.length, dropped.length,
    read.length, ?_, ?_, ?_⟩
  · simp only [parts, front, behind]
    rw [places, List.length_append]
    congr 1
    omega
  · rw [whole, List.length_append]
  · have wholeBound := ofDigitChars_lt wholeDigits 0
    rw [Nat.zero_add, Nat.one_mul] at wholeBound
    rw [Nat.pow_add]
    exact (ofDigitChars_lt placeDigits _).trans_le (Nat.mul_le_mul_right _ wholeBound)

/-- A numeral that does not reach far in front of the point has a value. -/
theorem exists_value {numeral : Numeral} (wellFormed : numeral.WellFormed)
    (near : numeral.reach ≤ 302) : ∃ number, ∀ rest, numeral.value rest = .ok number := by
  obtain ⟨significand, kept, dropped, read, parts, length, size⟩ := exists_parts wellFormed
  have moved (exponent : Int) (power : Nat) (bound : exponent ≤ (dropped : Int) - read + power)
      (reach : numeral.whole.length + power ≤ 302) :
      ∃ value, movePoint? (.ofNat significand) exponent = some value :=
    exists_movePoint? size (by omega) (by omega) (by decide : 302 ≤ 308) (by decide +kernel)
  rw [reach] at near
  have plain := moved (dropped - read) 0 (by omega) (by omega)
  cases power : numeral.power with
  | none =>
    obtain ⟨size, sizeValue⟩ := plain
    cases places : numeral.places with
    | none =>
      simp only [value, parts, power, places, sizeValue]
      split_ifs <;> exact ⟨_, fun _ => rfl⟩
    | some digits =>
      simp only [value, parts, power, places, sizeValue]
      exact ⟨_, fun _ => rfl⟩
  | some part =>
    obtain ⟨down, digits⟩ := part
    cases down with
    | false =>
      simp only [power] at near
      have small : Nat.ofDigitChars 10 digits 0 ≤ greatestPower := by
        have few : digitsValue digits ≤ 302 := by omega
        exact few.trans (by decide)
      obtain ⟨size, sizeValue⟩ := moved (dropped - read + digitsValue digits) (digitsValue digits)
        (le_refl _) near
      rw [digitsValue] at sizeValue
      simp only [value, parts, power, appendDigits_of_le small, sizeValue, Bool.false_eq_true,
        ↓reduceIte]
      exact ⟨_, fun _ => rfl⟩
    | true =>
      -- A negative exponent that is too large to be told gives zero.
      obtain ⟨taken, unread, -, appended⟩ := exists_appendDigits greatestPower 0 digits
      cases unread with
      | nil =>
        obtain ⟨size, sizeValue⟩ := moved (dropped - read - Nat.ofDigitChars 10 taken 0) 0
          (by omega) (by omega)
        simp only [value, parts, power, appended, ↓reduceIte, sizeValue]
        exact ⟨_, fun _ => rfl⟩
      | cons digit unread =>
        simp only [value, parts, power, appended, Bool.not_true, Bool.false_eq_true, and_false,
          ↓reduceIte]
        exact ⟨_, fun _ => rfl⟩

end Numeral

end ThemeCss.Json
