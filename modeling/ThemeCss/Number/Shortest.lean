import ThemeCss.Number.Decimal

/-! # The fewest digits that read back

A double is written with as few decimal digits as identify it. For one digit, two digits and so
on, the two decimals next to the value are read again; the first length at which one of them
gives the value wins, and of two such decimals the nearer one, a half going to the even digit.
-/

namespace ThemeCss

/-- The decimal `digits × 10 ^ exponent`. -/
structure Decimal where
  digits : Nat
  exponent : Int
deriving DecidableEq

namespace Magnitude

/-- The decimal exponent of the leading digit of a magnitude other than zero. -/
def decimalExponent (magnitude : Magnitude) : Int :=
  if unitsPerOne ≤ magnitude.units then
    (Nat.toDigits 10 (magnitude.units / unitsPerOne)).length - 1
  else
    -(Nat.toDigits 10 ((unitsPerOne - 1) / magnitude.units)).length

/-- The decimals of a given last place on both sides of a magnitude, the nearer one first. -/
def neighbours (magnitude : Magnitude) (exponent : Int) : List Decimal :=
  let (num, den) := match exponent with
    | .ofNat up => (magnitude.units, unitsPerOne * Nat.pow 10 up)
    | .negSucc down => (magnitude.units * Nat.pow 10 (down + 1), unitsPerOne)
  let nearer := halfEven num den
  let floor := num / den
  let other := if nearer = floor then floor + 1 else floor
  [⟨nearer, exponent⟩, ⟨other, exponent⟩]

/-- Whether the decimal is read as this magnitude. -/
def readsBack (magnitude : Magnitude) (decimal : Decimal) : Bool :=
  Binary64.ofDecimal false decimal.digits decimal.exponent = .finite false magnitude

/-- The shortest decimal that reads back; seventeen digits always do. -/
def shortest (magnitude : Magnitude) : Decimal :=
  let top := magnitude.decimalExponent
  let candidates := (List.range 17).flatMap fun more => magnitude.neighbours (top - (more : Nat))
  (candidates.find? magnitude.readsBack).getD ⟨0, 0⟩

end Magnitude

namespace Binary64

/-- Decimal digits without the zeros at their end. -/
def significantDigits (n : Nat) : List Char :=
  ((Nat.toDigits 10 n).reverse.dropWhile (· == '0')).reverse

/-- Lays out digits whose first one has the given decimal exponent: with a point for exponents
from -5 to 15, otherwise with a signed exponent. -/
def layOut (digits : List Char) (exponent : Int) : List Char :=
  if -5 ≤ exponent ∧ exponent < 0 then
    '0' :: '.' :: (List.replicate (-exponent - 1).toNat '0' ++ digits)
  else if 0 ≤ exponent ∧ exponent ≤ 15 then
    let width := exponent.toNat + 1
    let places := digits.drop width
    digits.take width ++ List.replicate (width - digits.length) '0' ++
      '.' :: (if places.isEmpty then ['0'] else places)
  else
    let mark := if exponent < 0 then ['e', '-'] else ['e', '+']
    let places := digits.drop 1
    digits.take 1 ++ (if places.isEmpty then [] else '.' :: places) ++
      mark ++ Nat.toDigits 10 exponent.natAbs

/-- The fewest digits that read back, always with a point or an exponent. -/
def shortestText : Binary64 → String
  | .finite negative magnitude =>
    let digits :=
      if magnitude.units = 0 then ['0', '.', '0']
      else
        let decimal := magnitude.shortest
        let written := Nat.toDigits 10 decimal.digits
        layOut (significantDigits decimal.digits) (decimal.exponent + written.length - 1)
    String.ofList (if negative then '-' :: digits else digits)
  | special => special.specialText

end Binary64

end ThemeCss
