import ThemeCss.Proofs.Json.Numeral
import ThemeCss.Proofs.Json.Yields

/-! # Numbers that are read are finite

A numeral that is too large has no value. Moving the point to the left divides by powers of ten,
which are at least one, and so leads to no greater number.
-/

namespace ThemeCss

namespace Binary64

theorem isFinite_neg {number : Binary64} (finite : number.isFinite = true) :
    (-number).isFinite = true := by
  cases number with
  | finite negative magnitude => rfl
  | _ => contradiction

theorem isFinite_ofNat {n : Nat} (few : n ≤ 2 ^ 64) : (ofNat n).isFinite = true := by
  have far : 2 * 2 ^ 64 * unitsPerOne < overflowUnits := by decide +kernel
  have within : n * unitsPerOne ≤ 2 ^ 64 * unitsPerOne * 1 := by
    rw [Nat.mul_one]
    exact Nat.mul_le_mul_right unitsPerOne few
  obtain ⟨magnitude, value, -⟩ := Json.exists_ofUnits Nat.one_pos within far false
  rw [ofNat, value]
  rfl

/-- A quotient is rounded to a finite double or to an infinite one. -/
theorem ofUnits_cases (negative : Bool) (num den : Nat) :
    ofUnits negative num den = .infinite negative ∨ ∃ magnitude : Magnitude,
      ofUnits negative num den = .finite negative magnitude ∧
        magnitude.units = Magnitude.roundedUnits num den := by
  by_cases bounded : Magnitude.roundedUnits num den < overflowUnits
  · exact .inr ⟨_, ofUnits_of_lt bounded, rfl⟩
  · unfold ofUnits Magnitude.nearest?
    rw [dif_neg bounded]
    exact .inl rfl

/-- A quotient by a number that is at least one is finite. -/
theorem isFinite_div_finite (left right : Bool) (a : Magnitude) {b : Magnitude}
    (large : unitsPerOne ≤ b.units) :
    (Binary64.finite left a / .finite right b).isFinite = true := by
  have positive := unitsPerOne_pos.trans_le large
  have smaller : Magnitude.roundedUnits (a.units * unitsPerOne) b.units ≤ a.units := by
    have rounded := Magnitude.roundedUnits_mono positive (Nat.mul_le_mul_left a.units large)
    rwa [Magnitude.roundedUnits_of_onGrid positive a.onGrid] at rounded
  change (div (.finite left a) (.finite right b)).isFinite = true
  rw [div, if_neg positive.ne', ofUnits_of_lt (smaller.trans_lt a.bounded)]
  rfl

end Binary64

namespace Json

open Binary64

/-- A power of ten is at least one, or too large for a double. -/
theorem powerOfTen_cases (exponent : Nat) : powerOfTen exponent = .infinite false ∨
    ∃ magnitude : Magnitude, powerOfTen exponent = .finite false magnitude ∧
      unitsPerOne ≤ magnitude.units := by
  have quotient : powerOfTen exponent =
      ofUnits false (1 * Nat.pow 10 exponent * unitsPerOne) 1 := rfl
  rcases ofUnits_cases false (1 * Nat.pow 10 exponent * unitsPerOne) 1 with infinite | finite
  · exact .inl (quotient.trans infinite)
  · obtain ⟨magnitude, value, units⟩ := finite
    have one : OnGrid (1 * unitsPerOne) := by
      unfold unitsPerOne
      exact @gridStep_dvd_steps 1 unitPlaces (by decide)
    have power : 1 * unitsPerOne * 1 ≤ 1 * Nat.pow 10 exponent * unitsPerOne := by
      rw [Nat.mul_one, Nat.one_mul, Nat.one_mul]
      exact Nat.le_mul_of_pos_left unitsPerOne (Nat.pow_pos (by decide))
    have reached := Magnitude.le_roundedUnits Nat.one_pos one power
    rw [Nat.one_mul unitsPerOne] at reached
    exact .inr ⟨magnitude, quotient.trans value, units ▸ reached⟩

theorem isFinite_div_powerOfTen {value : Binary64} (finite : value.isFinite = true)
    (exponent : Nat) : (value / powerOfTen exponent).isFinite = true := by
  obtain ⟨negative, magnitude, rfl⟩ := exists_of_isFinite finite
  rcases powerOfTen_cases exponent with infinite | ⟨power, value, large⟩
  · rw [infinite]
    rfl
  · rw [value]
    exact isFinite_div_finite negative false magnitude large

theorem isFinite_shrink {value : Binary64} (finite : value.isFinite = true) (down : Nat) :
    (shrink value down).isFinite = true := by
  induction down using Nat.strongRecOn generalizing value with
  | ind down ih =>
    rw [shrink]
    split
    · exact isFinite_div_powerOfTen finite down
    · split
      · exact finite
      · exact ih (down - 308) (by omega) (isFinite_div_powerOfTen finite 308)

theorem isFinite_of_grow? {value product : Binary64} {up : Nat} (finite : value.isFinite = true)
    (grown : grow? value up = some product) : product.isFinite = true := by
  rw [grow?] at grown
  split at grown
  · dsimp only at grown
    split at grown
    · next within => exact Option.some.inj grown ▸ within
    · cases grown
  · split at grown
    · exact Option.some.inj grown ▸ finite
    · cases grown

theorem isFinite_of_movePoint? {value moved : Binary64} {exponent : Int}
    (finite : value.isFinite = true) (success : movePoint? value exponent = some moved) :
    moved.isFinite = true := by
  cases exponent with
  | ofNat up => exact isFinite_of_grow? finite success
  | negSucc down => exact Option.some.inj success ▸ isFinite_shrink finite (down + 1)

theorem appendDigits_le {bound value : Nat} (start : value ≤ bound) (digits : List Char) :
    (appendDigits bound value digits).1 ≤ bound := by
  induction digits generalizing value with
  | nil => exact start
  | cons digit rest ih =>
    rw [appendDigits]
    split
    · exact start
    · next small => exact ih (Nat.le_of_not_lt small)

theorem Numeral.significand_le (numeral : Numeral) : numeral.parts.1 ≤ greatestSignificand :=
  appendDigits_le (appendDigits_le (Nat.zero_le _) _) _

/-- A whole number of 64 bits, or a finite double. -/
def Number.IsFinite : Number → Prop
  | .whole value => value.natAbs ≤ 2 ^ 64
  | .floating value => value.isFinite = true

/-- The value of a numeral is finite. -/
theorem Numeral.isFinite_of_value {numeral : Numeral} {number : Number} {rest : List Char}
    (valued : numeral.value rest = .ok number) : number.IsFinite := by
  have few := numeral.significand_le.trans (by decide : greatestSignificand ≤ 2 ^ 64)
  have significand : (Binary64.ofNat numeral.parts.1).isFinite = true := isFinite_ofNat few
  have signed {size : Binary64} (finite : size.isFinite = true) :
      (if numeral.negative then -size else size).isFinite = true := by
    split
    · exact isFinite_neg finite
    · exact finite
  have moved {exponent : Int} {size : Binary64}
      (success : movePoint? (.ofNat numeral.parts.1) exponent = some size) :
      (if numeral.negative then -size else size).isFinite = true :=
    signed (isFinite_of_movePoint? significand success)
  simp only [value] at valued
  split at valued
  · by_cases shifted : numeral.parts.2 ≠ 0
    · rw [if_pos shifted] at valued
      split at valued
      · next success => exact Except.ok.inj valued ▸ moved success
      · cases valued
    · rw [if_neg shifted] at valued
      by_cases positive : (!numeral.negative) = true
      · rw [if_pos positive] at valued
        exact Except.ok.inj valued ▸ few
      · rw [if_neg positive] at valued
        by_cases within : 0 < numeral.parts.1 ∧ numeral.parts.1 ≤ 0x8000000000000000
        · rw [if_pos within] at valued
          obtain rfl := Except.ok.inj valued
          simpa [Number.IsFinite] using few
        · rw [if_neg within] at valued
          exact Except.ok.inj valued ▸ signed significand
  · split at valued
    · next success => exact Except.ok.inj valued ▸ moved success
    · cases valued
  · next down digits _ =>
    split at valued
    · split at valued
      · next success => exact Except.ok.inj valued ▸ moved success
      · cases valued
    · by_cases large : numeral.parts.1 ≠ 0 ∧ (!down) = true
      · rw [if_pos large] at valued
        cases valued
      · rw [if_neg large] at valued
        have zero : Binary64.zero.isFinite = true := rfl
        exact Except.ok.inj valued ▸ signed zero

theorem isFinite_of_takeNumber {text rest : List Char} {number : Number}
    (taken : takeNumber text = .ok (number, rest)) : number.IsFinite := by
  unfold takeNumber at taken
  split at taken
  · cases taken
  · split at taken
    · cases taken
    · next valued =>
      cases taken
      exact Numeral.isFinite_of_value valued

/-- Doubles that are read are finite. -/
theorem yields_double : Reader.double.Yields (·.isFinite = true) := by
  apply Reader.yields_number
  intro text number rest value taken meant
  have finite := isFinite_of_takeNumber taken
  cases number with
  | whole whole =>
    obtain rfl := Except.ok.inj meant
    split
    · exact isFinite_neg (isFinite_ofNat finite)
    · exact isFinite_ofNat finite
  | floating value =>
    obtain rfl := Except.ok.inj meant
    exact finite

end Json

end ThemeCss
