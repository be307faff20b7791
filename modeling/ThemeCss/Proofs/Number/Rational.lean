import ThemeCss.Proofs.Number.Nearest

/-! # Doubles as rational numbers

A finite double is a rational number, and each operation on finite doubles gives the exact result
on rational numbers, rounded once. What a computation with doubles gives can so be said without
doubles, by `rounded`: it keeps the order and the doubles themselves, and it moves a number by no
more than half the distance of doubles at its size.
-/

namespace ThemeCss

/-- A number of a given size, negative or not. -/
def signed {α : Type} [Neg α] (negative : Bool) (size : α) : α :=
  if negative then -size else size

theorem signed_zero (negative : Bool) : signed negative (0 : ℚ) = 0 := by
  cases negative <;> simp [signed]

theorem signed_mul (left right : Bool) (first second : ℚ) :
    signed (left ^^ right) (first * second) = signed left first * signed right second := by
  cases left <;> cases right <;> simp [signed]

theorem signed_div (left right : Bool) (first second : ℚ) :
    signed (left ^^ right) (first / second) = signed left first / signed right second := by
  cases left <;> cases right <;> simp [signed, div_neg, neg_div]

theorem signed_add (negative : Bool) (first second : ℚ) :
    signed negative first + signed negative second = signed negative (first + second) := by
  cases negative
  · rfl
  · exact (neg_add first second).symm

theorem signed_sub {left right : Bool} (opposite : left ≠ right) (first second : ℚ) :
    signed left first + signed right second = signed left (first - second) := by
  cases left <;> cases right <;> simp [signed, add_comm, sub_eq_add_neg] at opposite ⊢

theorem signed_neg (negative : Bool) (size : ℚ) :
    signed (!negative) size = -signed negative size := by
  cases negative <;> simp [signed]

theorem cast_signed (negative : Bool) (n : ℕ) :
    ((signed negative (n : ℤ) : ℤ) : ℚ) = signed negative (n : ℚ) := by
  cases negative
  · exact Int.cast_natCast n
  · exact (Int.cast_neg _).trans (congrArg Neg.neg (Int.cast_natCast n))

theorem signed_mul_right (negative : Bool) (size factor : ℚ) :
    signed negative (size * factor) = signed negative size * factor := by
  cases negative
  · rfl
  · exact (neg_mul _ _).symm

theorem signed_div_right (negative : Bool) (size den : ℚ) :
    signed negative (size / den) = signed negative size / den := by
  cases negative
  · rfl
  · exact (neg_div _ _).symm

theorem signed_natAbs (n : ℤ) : signed (decide (n < 0)) (n.natAbs : ℚ) = n := by
  rw [← cast_signed, Int.cast_inj, signed]
  simp only [decide_eq_true_eq]
  split <;> omega

theorem abs_signed (negative : Bool) {size : ℚ} (positive : 0 ≤ size) :
    |signed negative size| = size := by
  cases negative
  · exact abs_of_nonneg positive
  · exact (abs_neg size).trans (abs_of_nonneg positive)

theorem abs_mul_sub_mul (first second : ℚ) {factor : ℚ} (positive : 0 ≤ factor) :
    |first * factor - second * factor| = |first - second| * factor := by
  rw [← sub_mul, abs_mul, abs_of_nonneg positive]

theorem abs_le_abs_add {number exact error : ℚ} (near : |number - exact| ≤ error) :
    |number| ≤ |exact| + error := by
  have apart := abs_sub_abs_le_abs_sub number exact
  linarith

theorem cast_distance (num den n : ℕ) : (distance num den n : ℚ) = |(n : ℚ) * den - num| := by
  rcases Nat.le_total (n * den) num with below | above
  · have exact : (n : ℚ) * den ≤ num := by exact_mod_cast below
    rw [abs_of_nonpos (by linarith), distance, Nat.sub_eq_zero_of_le below]
    push_cast [Nat.cast_sub below]
    ring
  · have exact : (num : ℚ) ≤ n * den := by exact_mod_cast above
    rw [abs_of_nonneg (by linarith), distance, Nat.sub_eq_zero_of_le above]
    push_cast [Nat.cast_sub above]
    ring

/-- How far a whole number is from a quotient. -/
theorem abs_natCast_sub_div (n num : ℕ) {den : ℕ} (positive : 0 < den) :
    |(n : ℚ) - num / den| = distance num den n / den := by
  have size : (0 : ℚ) < den := by exact_mod_cast positive
  rw [cast_distance, eq_div_iff size.ne', ← abs_mul_sub_mul _ _ size.le,
    div_mul_cancel₀ _ size.ne']

/-- A rounding of quotients of natural numbers: it depends on nothing but the quotient and keeps
the order. -/
structure IsRounding (round : ℕ → ℕ → ℕ) : Prop where
  zero (den : ℕ) : round 0 den = 0
  cancel {factor : ℕ} (positive : 0 < factor) (num den : ℕ) :
    round (factor * num) (factor * den) = round num den
  mono {den first second : ℕ} (positive : 0 < den) (order : first ≤ second) :
    round first den ≤ round second den

theorem isRounding_halfEven : IsRounding halfEven where
  zero := halfEven_zero
  cancel := halfEven_mul_mul
  mono _ := halfEven_mono

theorem isRounding_roundedUnits : IsRounding Magnitude.roundedUnits where
  zero := Magnitude.roundedUnits_zero
  cancel := Magnitude.roundedUnits_mul_mul
  mono := Magnitude.roundedUnits_mono

/-- A rounding of quotients on rational numbers; it does the same on both sides of zero. -/
def roundedBy (round : ℕ → ℕ → ℕ) (number : ℚ) : ℤ :=
  number.num.sign * round number.num.natAbs number.den

theorem roundedBy_neg (round : ℕ → ℕ → ℕ) (number : ℚ) :
    roundedBy round (-number) = -roundedBy round number := by
  simp [roundedBy]

theorem exists_quotient {number : ℚ} (positive : 0 ≤ number) :
    ∃ num den : ℕ, 0 < den ∧ number = num / den := by
  refine ⟨number.num.natAbs, number.den, number.den_pos, ?_⟩
  have whole : ((number.num.natAbs : ℤ) : ℚ) = number.num := by
    rw [Int.natAbs_of_nonneg (Rat.num_nonneg.mpr positive)]
  rw [← Int.cast_natCast number.num.natAbs, whole, Rat.num_div_den]

namespace IsRounding

variable {round : ℕ → ℕ → ℕ}

theorem quotient (rounds : IsRounding round) (num : ℕ) {den : ℕ} (positive : 0 < den) :
    roundedBy round (num / den) = round num den := by
  rcases Nat.eq_zero_or_pos num with rfl | above
  · simp [roundedBy, rounds.zero]
  have quotient : (0 : ℚ) < num / den :=
    div_pos (by exact_mod_cast above) (by exact_mod_cast positive)
  have sign := Rat.num_pos.mpr quotient
  have cross : ((num / den : ℚ).num.natAbs) * den = num * (num / den : ℚ).den := by
    have exact := Rat.num_div_den (num / den : ℚ)
    have left : ((num / den : ℚ).den : ℚ) ≠ 0 := by exact_mod_cast (num / den : ℚ).den_ne_zero
    have right : (den : ℚ) ≠ 0 := by exact_mod_cast positive.ne'
    rw [div_eq_div_iff left right] at exact
    zify
    rw [abs_of_pos sign]
    exact_mod_cast exact
  have reduced : round (num / den : ℚ).num.natAbs (num / den : ℚ).den = round num den := by
    rw [← rounds.cancel positive, Nat.mul_comm den, cross, Nat.mul_comm num, Nat.mul_comm den,
      rounds.cancel (num / den : ℚ).den_pos]
  rw [roundedBy, Int.sign_eq_one_of_pos sign, one_mul, reduced]

theorem monotone (rounds : IsRounding round) : Monotone (roundedBy round) := by
  apply monotone_of_odd_of_monotoneOn_nonneg (roundedBy_neg round)
  intro first left second right order
  obtain ⟨num, den, positive, rfl⟩ := exists_quotient left
  obtain ⟨other, unit, above, rfl⟩ := exists_quotient right
  rw [div_le_div_iff₀ (by exact_mod_cast positive) (by exact_mod_cast above)] at order
  rw [rounds.quotient num positive, rounds.quotient other above, ← rounds.cancel above num den,
    ← rounds.cancel positive other unit, Nat.mul_comm den unit]
  refine Int.ofNat_le.mpr (rounds.mono (Nat.mul_pos above positive) ?_)
  rw [Nat.mul_comm unit, Nat.mul_comm den]
  exact_mod_cast order

end IsRounding

/-- What does not depend on the sign is proved for numbers that are not negative. -/
theorem forall_of_nonneg {holds : ℚ → Prop} (flip : ∀ number, holds number → holds (-number))
    (positive : ∀ number, 0 ≤ number → holds number) (number : ℚ) : holds number := by
  rcases le_total 0 number with above | below
  · exact positive number above
  · rw [← neg_neg number]
    exact flip _ (positive _ (neg_nonneg.mpr below))

/-- The whole number nearest to a rational one, a half going to the even one. -/
def nearestWhole (number : ℚ) : ℤ := roundedBy halfEven number

theorem nearestWhole_neg (number : ℚ) : nearestWhole (-number) = -nearestWhole number :=
  roundedBy_neg halfEven number

theorem nearestWhole_signed (negative : Bool) (size : ℚ) :
    nearestWhole (signed negative size) = signed negative (nearestWhole size) := by
  cases negative
  · rfl
  · exact nearestWhole_neg size

theorem nearestWhole_mono : Monotone nearestWhole := isRounding_halfEven.monotone

theorem nearestWhole_quotient (num : ℕ) {den : ℕ} (positive : 0 < den) :
    nearestWhole (num / den) = halfEven num den :=
  isRounding_halfEven.quotient num positive

theorem abs_nearestWhole_sub_le (number : ℚ) : |nearestWhole number - number| ≤ 1 / 2 := by
  induction number using forall_of_nonneg with
  | flip number near =>
    rwa [nearestWhole_neg, Int.cast_neg, neg_sub_neg, abs_sub_comm]
  | positive number above =>
    obtain ⟨num, den, positive, rfl⟩ := exists_quotient above
    have near := two_mul_distance_halfEven_le num positive
    have size : (0 : ℚ) < den := by exact_mod_cast positive
    rw [nearestWhole_quotient num positive, Int.cast_natCast, abs_natCast_sub_div _ num positive,
      div_le_div_iff₀ size two_pos, mul_comm, one_mul]
    exact_mod_cast near

/-- The double next to a number, as a rational number. -/
def rounded (number : ℚ) : ℚ :=
  roundedBy Magnitude.roundedUnits (number * unitsPerOne) / unitsPerOne

theorem unitsPerOne_cast_pos : (0 : ℚ) < unitsPerOne := by
  exact_mod_cast unitsPerOne_pos

theorem div_unitsPerOne_nonneg (units : ℕ) : (0 : ℚ) ≤ units / unitsPerOne :=
  div_nonneg (Nat.cast_nonneg _) unitsPerOne_cast_pos.le

theorem quotient_nonneg (num den : ℕ) : (0 : ℚ) ≤ num / den / unitsPerOne :=
  div_nonneg (div_nonneg (Nat.cast_nonneg _) (Nat.cast_nonneg _)) unitsPerOne_cast_pos.le

theorem rounded_neg (number : ℚ) : rounded (-number) = -rounded number := by
  rw [rounded, neg_mul, roundedBy_neg, Int.cast_neg, neg_div, rounded]

theorem rounded_mono : Monotone rounded := by
  intro first second order
  have scaled := mul_le_mul_of_nonneg_right order unitsPerOne_cast_pos.le
  have units := isRounding_roundedUnits.monotone scaled
  exact div_le_div_of_nonneg_right (Int.cast_le.mpr units) unitsPerOne_cast_pos.le

/-- A quotient of units is rounded to a number of units. -/
theorem rounded_units (num : ℕ) {den : ℕ} (positive : 0 < den) :
    rounded (num / den / unitsPerOne) = Magnitude.roundedUnits num den / unitsPerOne := by
  rw [rounded, div_mul_cancel₀ _ unitsPerOne_cast_pos.ne',
    isRounding_roundedUnits.quotient num positive, Int.cast_natCast]

theorem rounded_signed (negative : Bool) (size : ℚ) :
    rounded (signed negative size) = signed negative (rounded size) := by
  cases negative
  · rfl
  · exact rounded_neg size

theorem twoPow_mul_unitsPerOne (exponent : ℕ) :
    2 ^ exponent * unitsPerOne = 2 ^ (exponent + 1021 + 53) := by
  have places : unitPlaces = 1021 + 53 := rfl
  unfold unitsPerOne
  rw [Nat.pow_eq, ← Nat.pow_add, places, Nat.add_assoc]

theorem exists_units {number : ℚ} (above : 0 ≤ number) :
    ∃ num den : ℕ, 0 < den ∧ number = num / den / unitsPerOne := by
  have one := unitsPerOne_cast_pos
  obtain ⟨num, den, positive, units⟩ := exists_quotient (mul_nonneg above one.le)
  exact ⟨num, den, positive, by rw [← units, mul_div_cancel_right₀ _ one.ne']⟩

theorem abs_units_sub (units num : ℕ) {den : ℕ} (positive : 0 < den) :
    |(units / unitsPerOne : ℚ) - num / den / unitsPerOne| =
      distance num den units / den / unitsPerOne := by
  rw [← sub_div, abs_div, abs_of_pos unitsPerOne_cast_pos, abs_natCast_sub_div units num positive]

/-- A number below a power of two is moved by at most half the step of the grid there. -/
theorem abs_rounded_sub_le {number : ℚ} {exponent : ℕ} (below : |number| < 2 ^ exponent) :
    |rounded number - number| ≤ 2 ^ exponent / 2 ^ 54 := by
  induction number using forall_of_nonneg with
  | flip number near =>
    rw [rounded_neg, neg_sub_neg, abs_sub_comm]
    exact near (by rwa [abs_neg] at below)
  | positive number above =>
    obtain ⟨num, den, positive, rfl⟩ := exists_units above
    have one := unitsPerOne_cast_pos
    have size : (0 : ℚ) < den := by exact_mod_cast positive
    have fewer : num < 2 ^ (exponent + 1021 + 53) * den := by
      rw [abs_of_nonneg above, div_lt_iff₀ one, div_lt_iff₀ size] at below
      rw [← twoPow_mul_unitsPerOne]
      exact_mod_cast below
    have near := Magnitude.distance_roundedUnits_mul_le positive fewer
    rw [← twoPow_mul_unitsPerOne] at near
    have cast : (distance num den (Magnitude.roundedUnits num den) : ℚ) * 2 ^ 54 ≤
        2 ^ exponent * unitsPerOne * den := by exact_mod_cast near
    rw [rounded_units num positive, abs_units_sub _ num positive, div_div,
      div_le_div_iff₀ (mul_pos size one) (by positivity)]
    linarith

/-- An error in what is rounded comes on top of that of the rounding. -/
theorem abs_rounded_sub_le_add {number exact error : ℚ} {exponent : ℕ}
    (near : |number - exact| ≤ error) (below : |number| < 2 ^ exponent) :
    |rounded number - exact| ≤ 2 ^ exponent / 2 ^ 54 + error :=
  (abs_sub_le _ number _).trans (add_le_add (abs_rounded_sub_le below) near)

namespace Binary64

/-- The number that a finite double is. -/
def value? : Binary64 → Option ℚ
  | .finite negative magnitude => some (signed negative (magnitude.units / unitsPerOne))
  | _ => none

theorem exists_of_value? {x : Binary64} {number : ℚ} (value : x.value? = some number) :
    ∃ negative magnitude, x = .finite negative magnitude ∧
      number = signed negative (magnitude.units / unitsPerOne : ℚ) := by
  cases x with
  | finite negative magnitude => exact ⟨negative, magnitude, rfl, (Option.some.inj value).symm⟩
  | _ => contradiction

/-- A number other than zero is at most one double. -/
theorem eq_of_value? {a b : Binary64} {number : ℚ} (left : a.value? = some number)
    (right : b.value? = some number) (nonzero : number ≠ 0) : a = b := by
  obtain ⟨negative, magnitude, rfl, rfl⟩ := exists_of_value? left
  obtain ⟨sign, other, rfl, same⟩ := exists_of_value? right
  have one := unitsPerOne_cast_pos.ne'
  have size : magnitude.units = other.units := by
    have sizes := (abs_signed negative (div_unitsPerOne_nonneg magnitude.units)).symm
    rw [same, abs_signed _ (div_unitsPerOne_nonneg _), div_left_inj' one] at sizes
    exact_mod_cast sizes
  have signs : negative = sign := by
    by_contra opposite
    have sum := signed_sub opposite (magnitude.units / unitsPerOne) (other.units / unitsPerOne)
    rw [← same, size, sub_self, signed_zero, add_self_eq_zero] at sum
    rw [size] at nonzero
    exact nonzero sum
  obtain ⟨_, _, _⟩ := magnitude
  obtain ⟨_, _, _⟩ := other
  subst signs size
  rfl

theorem rounded_of_onGrid {units : ℕ} (onGrid : OnGrid units) :
    rounded (units / unitsPerOne) = units / unitsPerOne := by
  have quotient := rounded_units units Nat.one_pos
  have exact := Magnitude.roundedUnits_of_onGrid Nat.one_pos onGrid
  rw [Nat.mul_one] at exact
  rwa [exact, Nat.cast_one, div_one] at quotient

/-- Doubles are not moved. -/
theorem rounded_of_value? {x : Binary64} {number : ℚ} (value : x.value? = some number) :
    rounded number = number := by
  obtain ⟨negative, magnitude, -, rfl⟩ := exists_of_value? value
  rw [rounded_signed, rounded_of_onGrid magnitude.onGrid]

theorem onGrid_mul_unitsPerOne {n : ℕ} (few : n ≤ 2 ^ 53) : OnGrid (n * unitsPerOne) := by
  unfold unitsPerOne
  exact gridStep_dvd_steps few

/-- Whole numbers up to 2⁵³ are doubles. -/
theorem rounded_natCast {n : ℕ} (few : n ≤ 2 ^ 53) : rounded n = n := by
  have exact := rounded_of_onGrid (onGrid_mul_unitsPerOne few)
  rwa [Nat.cast_mul, mul_div_cancel_right₀ _ unitsPerOne_cast_pos.ne'] at exact

theorem rounded_zero : rounded 0 = 0 := by
  rw [← Nat.cast_zero, rounded_natCast (Nat.zero_le _)]

theorem rounded_one : rounded 1 = 1 := by
  rw [← Nat.cast_one, rounded_natCast (by decide)]

theorem rounded_nonneg {number : ℚ} (low : 0 ≤ number) : 0 ≤ rounded number :=
  rounded_zero.symm.trans_le (rounded_mono low)

theorem rounded_le {number : ℚ} {n : ℕ} (few : n ≤ 2 ^ 53) (high : number ≤ n) :
    rounded number ≤ n :=
  (rounded_mono high).trans_eq (rounded_natCast few)

theorem le_rounded {number : ℚ} {n : ℕ} (few : n ≤ 2 ^ 53) (low : n ≤ number) :
    n ≤ rounded number :=
  (rounded_natCast few).symm.trans_le (rounded_mono low)

/-- A bound that is far enough from infinity: what is below it stays finite. -/
def finiteLimit : ℕ := Nat.pow 2 1023

theorem lt_finiteLimit {number : ℚ} (small : number ≤ 2 ^ 64) : number < finiteLimit := by
  have far : 2 ^ 64 < finiteLimit := by decide +kernel
  exact small.trans_lt (by exact_mod_cast far)

theorem value?_ofUnits (negative : Bool) (num : ℕ) {den : ℕ} (positive : 0 < den)
    (small : (num / den / unitsPerOne : ℚ) < finiteLimit) :
    (ofUnits negative num den).value? =
      some (rounded (signed negative (num / den / unitsPerOne))) := by
  have size : (0 : ℚ) < den := by exact_mod_cast positive
  have few : num < finiteLimit * unitsPerOne * den := by
    rw [div_lt_iff₀ unitsPerOne_cast_pos, div_lt_iff₀ size] at small
    exact_mod_cast small
  have limit : overflowUnits = 2 * (finiteLimit * unitsPerOne) := by decide +kernel
  have bounded : Magnitude.roundedUnits num den < overflowUnits := by
    have doubled := Magnitude.roundedUnits_mul_le num positive
    rw [limit]
    apply Nat.lt_of_mul_lt_mul_right (a := den)
    rw [Nat.mul_assoc]
    omega
  rw [ofUnits_of_lt bounded, value?, rounded_signed, rounded_units num positive]

/-- A whole number of units that is not too large is rounded and stays finite. -/
theorem value?_ofUnits_one (negative : Bool) (units : ℕ)
    (small : (units / unitsPerOne : ℚ) < finiteLimit) :
    (ofUnits negative units 1).value? =
      some (rounded (signed negative (units / unitsPerOne : ℚ))) := by
  have value := value?_ofUnits negative units Nat.one_pos
  rw [Nat.cast_one, div_one] at value
  exact value small

theorem value?_zero : zero.value? = some 0 := by
  rw [zero, value?, Magnitude.zero, Nat.cast_zero, zero_div, signed_zero]

theorem value?_ofNat {n : ℕ} (few : n ≤ 2 ^ 53) : (ofNat n).value? = some (n : ℚ) := by
  have exact : ((n * unitsPerOne : ℕ) / unitsPerOne : ℚ) = n := by
    rw [Nat.cast_mul, mul_div_cancel_right₀ _ unitsPerOne_cast_pos.ne']
  have small : (n : ℚ) ≤ 2 ^ 64 := by exact_mod_cast few.trans (by decide)
  rw [ofNat, value?_ofUnits_one false _ (by rw [exact]; exact lt_finiteLimit small), exact]
  exact congrArg some (rounded_natCast few)

theorem value?_one : (ofNat 1).value? = some 1 := by
  rw [value?_ofNat (by decide), Nat.cast_one]

section Operations

variable {a b : Binary64} {p q : ℚ}

theorem value?_neg (value : a.value? = some p) : (-a).value? = some (-p) := by
  obtain ⟨negative, magnitude, rfl, rfl⟩ := exists_of_value? value
  exact congrArg some (signed_neg negative _)

theorem value?_abs (value : a.value? = some p) : a.abs.value? = some |p| := by
  obtain ⟨negative, magnitude, rfl, rfl⟩ := exists_of_value? value
  rw [abs_signed negative (div_unitsPerOne_nonneg _)]
  rfl

/-- A sum is the exact one, rounded. -/
theorem value?_add (left : a.value? = some p) (right : b.value? = some q)
    (small : |p + q| < finiteLimit) : (a + b).value? = some (rounded (p + q)) := by
  obtain ⟨negative, first, rfl, rfl⟩ := exists_of_value? left
  obtain ⟨sign, second, rfl, rfl⟩ := exists_of_value? right
  have difference {more less : ℕ} (order : less ≤ more) :
      (more / unitsPerOne - less / unitsPerOne : ℚ) = (more - less : ℕ) / unitsPerOne := by
    rw [← sub_div, Nat.cast_sub order]
  change (add (.finite negative first) (.finite sign second)).value? = _
  simp only [add]
  split_ifs with same less more
  · subst same
    have sum : (first.units / unitsPerOne + second.units / unitsPerOne : ℚ) =
        (first.units + second.units : ℕ) / unitsPerOne := by
      rw [← add_div, Nat.cast_add]
    rw [signed_add, sum] at small ⊢
    rw [abs_signed _ (div_unitsPerOne_nonneg _)] at small
    exact value?_ofUnits_one negative _ small
  · rw [signed_sub same, difference less.le] at small ⊢
    rw [abs_signed _ (div_unitsPerOne_nonneg _)] at small
    exact value?_ofUnits_one negative _ small
  · rw [add_comm, signed_sub (Ne.symm same), difference more.le] at small ⊢
    rw [abs_signed _ (div_unitsPerOne_nonneg _)] at small
    exact value?_ofUnits_one sign _ small
  · have equal : first.units = second.units := by omega
    rw [signed_sub same, equal, sub_self, signed_zero, rounded_of_value? value?_zero]
    exact value?_zero

theorem value?_sub (left : a.value? = some p) (right : b.value? = some q)
    (small : |p - q| < finiteLimit) : (a - b).value? = some (rounded (p - q)) := by
  rw [sub_eq_add_neg] at small ⊢
  exact value?_add left (value?_neg right) small

/-- A product is the exact one, rounded. -/
theorem value?_mul (left : a.value? = some p) (right : b.value? = some q)
    (small : |p * q| < finiteLimit) : (a * b).value? = some (rounded (p * q)) := by
  obtain ⟨negative, first, rfl, rfl⟩ := exists_of_value? left
  obtain ⟨sign, second, rfl, rfl⟩ := exists_of_value? right
  have product : (first.units / unitsPerOne * (second.units / unitsPerOne) : ℚ) =
      (first.units * second.units : ℕ) / unitsPerOne / unitsPerOne := by
    rw [div_mul_div_comm, div_div, Nat.cast_mul]
  rw [← signed_mul, product] at small ⊢
  rw [abs_signed _ (quotient_nonneg _ _)] at small
  change (mul (.finite negative first) (.finite sign second)).value? = _
  rw [mul]
  exact value?_ofUnits (negative ^^ sign) _ unitsPerOne_pos small

/-- A quotient is the exact one, rounded. -/
theorem value?_div (left : a.value? = some p) (right : b.value? = some q) (nonzero : q ≠ 0)
    (small : |p / q| < finiteLimit) : (a / b).value? = some (rounded (p / q)) := by
  obtain ⟨negative, first, rfl, rfl⟩ := exists_of_value? left
  obtain ⟨sign, second, rfl, rfl⟩ := exists_of_value? right
  have units : second.units ≠ 0 := by
    intro zero
    rw [zero, Nat.cast_zero, zero_div, signed_zero] at nonzero
    exact nonzero rfl
  have one := unitsPerOne_cast_pos.ne'
  have quotient : (first.units / unitsPerOne / (second.units / unitsPerOne) : ℚ) =
      (first.units * unitsPerOne : ℕ) / second.units / unitsPerOne := by
    have size : (second.units : ℚ) ≠ 0 := Nat.cast_ne_zero.mpr units
    rw [Nat.cast_mul]
    field_simp
  rw [← signed_div, quotient] at small ⊢
  rw [abs_signed _ (quotient_nonneg _ _)] at small
  change (div (.finite negative first) (.finite sign second)).value? = _
  rw [div, if_neg units]
  exact value?_ofUnits (negative ^^ sign) _ (Nat.pos_of_ne_zero units) small

theorem value?_finite (negative : Bool) (magnitude : Magnitude) :
    (finite negative magnitude).value? =
      some ((signed negative (magnitude.units : ℤ) : ℤ) / unitsPerOne : ℚ) := by
  rw [cast_signed, ← signed_div_right]
  rfl

theorem place?_of_value? (value : a.value? = some p) :
    ∃ place, a.place? = some place ∧ (place : ℚ) = p * unitsPerOne := by
  obtain ⟨negative, magnitude, rfl, -⟩ := exists_of_value? value
  rw [value?_finite] at value
  obtain rfl := Option.some.inj value
  exact ⟨signed negative magnitude.units, rfl,
    (div_mul_cancel₀ _ unitsPerOne_cast_pos.ne').symm⟩

theorem value?_of_place? {place : ℤ} (known : a.place? = some place)
    (inside : |place| < overflowUnits) : a.value? = some (place / unitsPerOne : ℚ) := by
  cases a with
  | nan => cases known
  | infinite negative =>
    obtain rfl := Option.some.inj known
    generalize overflowUnits = limit at inside
    cases negative <;> simp at inside
  | finite negative magnitude =>
    obtain rfl := Option.some.inj known
    exact value?_finite negative magnitude

theorem le_iff_of_value? (left : a.value? = some p) (right : b.value? = some q) :
    a.le b = true ↔ p ≤ q := by
  obtain ⟨place, known, exact⟩ := place?_of_value? left
  obtain ⟨other, found, same⟩ := place?_of_value? right
  rw [← mul_le_mul_iff_left₀ unitsPerOne_cast_pos, ← exact, ← same, Int.cast_le, le, known, found]
  exact decide_eq_true_iff

end Operations

end Binary64

end ThemeCss
