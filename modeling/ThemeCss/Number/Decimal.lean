import ThemeCss.Number.Binary64

/-! # Decimal numerals

Reading a numeral gives the double nearest to the decimal it denotes. Writing has two forms: a
fixed number of places, and the compact form of lengths, with at most three places and no
trailing zeros. Both round the exact binary value once, a half going to the even digit.
-/

namespace ThemeCss

/-- The number that a list of decimal digits denotes. -/
def digitsValue (digits : List Char) : Nat := Nat.ofDigitChars 10 digits 0

/-- Decimal digits, with zeros in front up to the given width. -/
def paddedDigits (width n : Nat) : List Char :=
  let digits := Nat.toDigits 10 n
  List.replicate (width - digits.length) '0' ++ digits

/-- An optional sign, `true` for minus, and what follows it. -/
def splitSign : List Char → Bool × List Char
  | '-' :: rest => (true, rest)
  | '+' :: rest => (false, rest)
  | text => (false, text)

/-- A magnitude in units of the last of `places` decimals. -/
def Magnitude.scaled (magnitude : Magnitude) (places : Nat) : Nat :=
  halfEven (magnitude.units * Nat.pow 10 places) unitsPerOne

namespace Binary64

/-- Reads an optional sign and digits around an optional point, at least one digit in all. -/
def ofNumeral? (text : List Char) : Option Binary64 :=
  let (negative, body) := splitSign text
  let whole := body.takeWhile Char.isDigit
  match body.dropWhile Char.isDigit with
  | [] => if whole.isEmpty then none else some (ofDecimal negative (digitsValue whole) 0)
  | '.' :: places =>
    if places.all Char.isDigit && !(whole.isEmpty && places.isEmpty) then
      some (ofDecimal negative (digitsValue (whole ++ places)) (-places.length))
    else none
  | _ => none

/-- The word for a number that is not finite. -/
def specialText : Binary64 → String
  | .nan => "NaN"
  | .infinite true => "-inf"
  | _ => "inf"

/-- Exactly `places` decimals behind a point. The sign of a negative zero is kept. -/
def fixed (places : Nat) : Binary64 → String
  | .finite negative magnitude =>
    let scaled := magnitude.scaled places
    let digits := Nat.toDigits 10 (scaled / Nat.pow 10 places) ++
      '.' :: paddedDigits places (scaled % Nat.pow 10 places)
    String.ofList (if negative then '-' :: digits else digits)
  | special => special.specialText

/-- The digits behind the point without the zeros at their end, and no point without digits. -/
def trimPlaces (places : List Char) : List Char :=
  match (places.reverse.dropWhile (· == '0')).reverse with
  | [] => []
  | kept => '.' :: kept

/-- The least and the greatest whole number of 64 bits with a sign. -/
def leastWhole : Int := -0x8000000000000000

def greatestWhole : Int := 0x7FFFFFFFFFFFFFFF

/-- Whole numbers without a point, kept within 64 bits; others with at most three places and no
zero at their end. Zero has no sign, nor has a number that rounds to it. -/
def compact (number : Binary64) : String :=
  match number with
  | .finite negative magnitude =>
    match number.toInt? with
    | some whole => toString (max leastWhole (min greatestWhole whole))
    | none =>
      let scaled := magnitude.scaled 3
      let digits := Nat.toDigits 10 (scaled / 1000) ++ trimPlaces (paddedDigits 3 (scaled % 1000))
      String.ofList (if negative && scaled != 0 then '-' :: digits else digits)
  | special => special.specialText

end Binary64

end ThemeCss
