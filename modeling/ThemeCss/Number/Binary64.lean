import ThemeCss.Number.HalfEven

/-! # Double precision numbers

A finite double is a sign and a natural number of *units*, the unit being the least positive
double, 2⁻¹⁰⁷⁴. In units every operation is exact arithmetic on natural numbers followed by one
rounding to the grid of doubles, ties to even, and the order of doubles is the order of integers.

The grid around a magnitude of `n` units has the step `gridStep n`: one unit as long as `n` has at
most 53 binary digits, and twice as much for each further digit. `Magnitude.nearest?` rounds a
quotient to that grid and refuses what reaches 2¹⁰²⁴.
-/

namespace ThemeCss

/-- The binary places behind the point. -/
def unitPlaces : Nat := 1074

/-- The number of units in one. -/
def unitsPerOne : Nat := Nat.pow 2 unitPlaces

/-- The number of units in 2¹⁰²⁴, where magnitudes become infinite. -/
def overflowUnits : Nat := Nat.pow 2 (unitPlaces + 1024)

theorem twoPow_pos (exponent : Nat) : 0 < Nat.pow 2 exponent := Nat.two_pow_pos exponent

theorem unitsPerOne_pos : 0 < unitsPerOne := by
  unfold unitsPerOne
  exact twoPow_pos unitPlaces

theorem overflowUnits_pos : 0 < overflowUnits := by
  unfold overflowUnits
  exact twoPow_pos (unitPlaces + 1024)

/-- The distance of neighbouring doubles at a magnitude, in units. -/
def gridStep (units : Nat) : Nat := Nat.pow 2 (units.log2 - 52)

theorem gridStep_pos (units : Nat) : 0 < gridStep units := twoPow_pos _

/-- A magnitude holds fewer than 2⁵³ steps of its grid. -/
theorem div_gridStep_lt (units : Nat) : units / gridStep units < Nat.pow 2 53 := by
  rw [Nat.div_lt_iff_lt_mul (gridStep_pos units), gridStep, Nat.pow_eq, Nat.pow_eq, ← Nat.pow_add]
  exact Nat.lt_of_lt_of_le Nat.lt_log2_self (Nat.pow_le_pow_right (by omega) (by omega))

/-- At most 2⁵³ steps of a grid that is a power of two lie on their own grid. -/
theorem gridStep_dvd_steps {count exponent : Nat} (few : count ≤ Nat.pow 2 53) :
    gridStep (count * Nat.pow 2 exponent) ∣ count * Nat.pow 2 exponent := by
  rw [Nat.pow_eq] at few ⊢
  rcases Nat.eq_zero_or_pos count with rfl | positive
  · simp
  have nonzero : count * 2 ^ exponent ≠ 0 :=
    Nat.mul_ne_zero (by omega) (Nat.ne_of_gt (Nat.two_pow_pos _))
  rcases Nat.lt_or_eq_of_le few with fewer | full
  · have below : count * 2 ^ exponent < 2 ^ (53 + exponent) := by
      rw [Nat.pow_add]
      exact Nat.mul_lt_mul_of_pos_right fewer (Nat.two_pow_pos _)
    have bound := (Nat.log2_lt nonzero).mpr below
    exact Nat.dvd_trans (Nat.pow_dvd_pow 2 (by omega : _ ≤ exponent)) (Nat.dvd_mul_left ..)
  · subst full
    rw [← Nat.pow_add, gridStep, Nat.log2_two_pow, Nat.pow_eq]
    exact Nat.pow_dvd_pow 2 (by omega)

/-- The absolute value of a finite double, as a number of units that lies on the grid. -/
structure Magnitude where
  units : Nat
  onGrid : gridStep units ∣ units
  bounded : units < overflowUnits
deriving DecidableEq

namespace Magnitude

/-- The grid points next to a quotient of units: the nearest one, a half going to the even one. -/
def roundedUnits (num den : Nat) : Nat :=
  let step := gridStep (num / den)
  halfEven num (den * step) * step

theorem gridStep_dvd_roundedUnits (num den : Nat) :
    gridStep (roundedUnits num den) ∣ roundedUnits num den := by
  apply gridStep_dvd_steps
  have upper := halfEven_le_div_succ num (den * gridStep (num / den))
  rw [← Nat.div_div_eq_div_mul] at upper
  have few := div_gridStep_lt (num / den)
  exact Nat.le_trans upper few

/-- The magnitude nearest to `num / den` units, or nothing where it is not finite. -/
def nearest? (num den : Nat) : Option Magnitude :=
  if bounded : roundedUnits num den < overflowUnits then
    some ⟨roundedUnits num den, gridStep_dvd_roundedUnits num den, bounded⟩
  else none

def zero : Magnitude where
  units := 0
  onGrid := Nat.dvd_zero _
  bounded := overflowUnits_pos

end Magnitude

/-- A double precision number. There is one NaN; zero has two signs. -/
inductive Binary64 where
  | nan
  | infinite (negative : Bool)
  | finite (negative : Bool) (magnitude : Magnitude)
deriving DecidableEq

namespace Binary64

/-- The double nearest to `num / den` units with the given sign. -/
def ofUnits (negative : Bool) (num den : Nat) : Binary64 :=
  match Magnitude.nearest? num den with
  | some magnitude => .finite negative magnitude
  | none => .infinite negative

def zero : Binary64 := .finite false .zero

def isZero : Binary64 → Bool
  | .finite _ magnitude => magnitude.units == 0
  | _ => false

instance : Inhabited Binary64 := ⟨zero⟩

/-- The double nearest to a natural number. -/
def ofNat (n : Nat) : Binary64 := ofUnits false (n * unitsPerOne) 1

/-- The double nearest to `digits × 10 ^ exponent`. -/
def ofDecimal (negative : Bool) (digits : Nat) (exponent : Int) : Binary64 :=
  match exponent with
  | .ofNat up => ofUnits negative (digits * Nat.pow 10 up * unitsPerOne) 1
  | .negSucc down => ofUnits negative (digits * unitsPerOne) (Nat.pow 10 (down + 1))

def isFinite : Binary64 → Bool
  | .finite .. => true
  | _ => false

/-- The place on the number line in units; the infinities stand where the finite numbers end. -/
def place? : Binary64 → Option Int
  | .nan => none
  | .infinite negative => some (if negative then -(overflowUnits : Int) else overflowUnits)
  | .finite negative magnitude =>
    some (if negative then -(magnitude.units : Int) else magnitude.units)

/-- Numeric comparison: NaN is below nothing, and the two zeros are equal. -/
def lt (a b : Binary64) : Bool :=
  match a.place?, b.place? with
  | some left, some right => left < right
  | _, _ => false

/-- Numeric comparison: NaN is not even at most itself, and the two zeros are equal. -/
def le (a b : Binary64) : Bool :=
  match a.place?, b.place? with
  | some left, some right => left ≤ right
  | _, _ => false

/-- Numeric equality: NaN differs from itself, and the two zeros are equal. -/
def same (a b : Binary64) : Bool :=
  match a.place?, b.place? with
  | some left, some right => left = right
  | _, _ => false

def neg : Binary64 → Binary64
  | .nan => .nan
  | .infinite negative => .infinite !negative
  | .finite negative magnitude => .finite (!negative) magnitude

def abs : Binary64 → Binary64
  | .nan => .nan
  | .infinite _ => .infinite false
  | .finite _ magnitude => .finite false magnitude

/-- The exact sum, rounded. Opposite numbers give the positive zero. -/
def add : Binary64 → Binary64 → Binary64
  | .nan, _ | _, .nan => .nan
  | .infinite left, .infinite right => if left = right then .infinite left else .nan
  | .infinite left, .finite .. => .infinite left
  | .finite .., .infinite right => .infinite right
  | .finite left a, .finite right b =>
    if left = right then ofUnits left (a.units + b.units) 1
    else if b.units < a.units then ofUnits left (a.units - b.units) 1
    else if a.units < b.units then ofUnits right (b.units - a.units) 1
    else zero

def sub (a b : Binary64) : Binary64 := a.add b.neg

/-- The exact product, rounded. -/
def mul : Binary64 → Binary64 → Binary64
  | .nan, _ | _, .nan => .nan
  | .infinite left, .infinite right => .infinite (left ^^ right)
  | .infinite left, .finite right b => if b.units = 0 then .nan else .infinite (left ^^ right)
  | .finite left a, .infinite right => if a.units = 0 then .nan else .infinite (left ^^ right)
  | .finite left a, .finite right b => ofUnits (left ^^ right) (a.units * b.units) unitsPerOne

/-- The exact quotient, rounded. -/
def div : Binary64 → Binary64 → Binary64
  | .nan, _ | _, .nan => .nan
  | .infinite _, .infinite _ => .nan
  | .infinite left, .finite right _ => .infinite (left ^^ right)
  | .finite left _, .infinite right => .finite (left ^^ right) .zero
  | .finite left a, .finite right b =>
    if b.units = 0 then
      if a.units = 0 then .nan else .infinite (left ^^ right)
    else ofUnits (left ^^ right) (a.units * unitsPerOne) b.units

instance : Neg Binary64 := ⟨neg⟩
instance : Add Binary64 := ⟨add⟩
instance : Sub Binary64 := ⟨sub⟩
instance : Mul Binary64 := ⟨mul⟩
instance : Div Binary64 := ⟨div⟩

/-- Keeps a number within bounds; NaN has no place among them and stays. -/
def clamp (x low high : Binary64) : Binary64 :=
  if x.lt low then low else if high.lt x then high else x

/-- The nearest whole number from 0 to 255, a half going up; NaN gives 0. -/
def toByte : Binary64 → UInt8
  | .nan => 0
  | .infinite negative => if negative then 0 else 255
  | .finite true _ => 0
  | .finite false magnitude =>
    UInt8.ofNat (min 255 ((2 * magnitude.units + unitsPerOne) / (2 * unitsPerOne)))

/-- The whole number that a double is, if it is one. -/
def toInt? : Binary64 → Option Int
  | .finite negative magnitude =>
    if unitsPerOne ∣ magnitude.units then
      let whole : Int := (magnitude.units / unitsPerOne : Nat)
      some (if negative then -whole else whole)
    else none
  | _ => none

/-- The 64 bits of the interchange format; NaN is the quiet one without payload. -/
def toBits : Binary64 → Nat
  | .nan => 0x7ff8000000000000
  | .infinite negative => (if negative then 0x8000000000000000 else 0) + 0x7ff0000000000000
  | .finite negative ⟨units, _, _⟩ =>
    (if negative then 0x8000000000000000 else 0) + ((units.log2 - 52) * 0x10000000000000 + units / gridStep units)

end Binary64

end ThemeCss
