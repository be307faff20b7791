import ThemeCss.Number.Decimal
import ThemeCss.Text.Characters
import ThemeCss.ValueError

/-! # Lengths

A length is a number with a unit. The unit is whatever follows the number and is carried along
unchanged: lengths are scaled and written, never converted.
-/

namespace ThemeCss

structure Length where
  value : Binary64
  unit : String
deriving DecidableEq

namespace Length

/-- The characters of which the number of a length consists. -/
def isNumberChar (c : Char) : Bool := c.isDigit || c == '.' || c == '-' || c == '+'

/-- Reads the longest stretch of number characters as a finite number and the rest as the unit. -/
def parse (text : String) : Except ValueError Length :=
  let body := trim text.toList
  match Binary64.ofNumeral? (body.takeWhile isNumberChar) with
  | some value =>
    if value.isFinite then .ok ⟨value, String.ofList (body.dropWhile isNumberChar)⟩
    else .error (.length text)
  | none => .error (.length text)

def scale (length : Length) (factor : Binary64) : Length :=
  { length with value := length.value * factor }

def text (length : Length) : String := length.value.compact ++ length.unit

/-- Equal numbers with equal units; the two zeros are equal numbers. -/
def same (a b : Length) : Bool := a.value.same b.value && a.unit == b.unit

end Length

end ThemeCss
