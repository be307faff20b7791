import ThemeCss.Number.Decimal
import ThemeCss.Text.Characters
import ThemeCss.ValueError

/-! # Colours and their shades

A colour is three bytes, written as `#` and six lower case hexadecimal digits. `Color.shift` moves
every channel towards white or towards black in double precision; `Shades` holds what a theme
derives from one configured colour, for light and for dark pages.
-/

namespace ThemeCss

structure Color where
  red : UInt8
  green : UInt8
  blue : UInt8
deriving DecidableEq

namespace Color

/-- Three pairs of digits, one for each channel. -/
def ofDigits? : List Nat → Option Color
  | [a, b, c, d, e, f] =>
    some ⟨UInt8.ofNat (16 * a + b), UInt8.ofNat (16 * c + d), UInt8.ofNat (16 * e + f)⟩
  | _ => none

/-- Drops one `#` in front. -/
def dropHash : List Char → List Char
  | '#' :: rest => rest
  | text => text

/-- Reads six hexadecimal digits, with or without `#` in front and blanks around. -/
def parse (text : String) : Except ValueError Color :=
  match ((dropHash (trim text.toList)).mapM hexDigit?).bind ofDigits? with
  | some color => .ok color
  | none => .error (.color text)

/-- A channel as two lower case hexadecimal digits. -/
def channelDigits (channel : UInt8) : List Char :=
  [Nat.digitChar (channel.toNat / 16), Nat.digitChar (channel.toNat % 16)]

def hex (color : Color) : String :=
  String.ofList
    ('#' :: (channelDigits color.red ++ channelDigits color.green ++ channelDigits color.blue))

/-- A share of the way to white for positive amounts and to black for negative ones; the result
is rounded to the nearest byte. An amount that is no number gives 0. -/
def shiftChannel (amount : Binary64) (channel : UInt8) : UInt8 :=
  let value := Binary64.ofNat channel.toNat
  let moved :=
    if Binary64.zero.le amount then value + (Binary64.ofNat 255 - value) * amount
    else value * (Binary64.ofNat 1 - amount.abs)
  moved.toByte

/-- Moves a colour towards white or black; the amount is kept within -1 and 1. -/
def shift (color : Color) (amount : Binary64) : Color :=
  let amount := amount.clamp (-Binary64.ofNat 1) (Binary64.ofNat 1)
  ⟨shiftChannel amount color.red, shiftChannel amount color.green, shiftChannel amount color.blue⟩

/-- Reads a colour, moves it and writes it again. -/
def shiftText (text : String) (amount : Binary64) : Except ValueError String := do
  let color ← parse text
  return (color.shift amount).hex

end Color

/-- How far the light variant of a colour goes towards white. -/
def lightening : Binary64 := .ofDecimal false 18 (-2)

/-- How far the dark variant of a colour goes towards black. -/
def darkening : Binary64 := .ofDecimal true 18 (-2)

/-- On dark pages colours are darkened by this much more. -/
def darkPageShade : Binary64 := .ofDecimal false 12 (-1)

/-- On dark pages the light variant is lightened by this much less. -/
def darkPageLift : Binary64 := .ofDecimal false 8 (-1)

/-- On dark pages the dark variant goes this much further than the colour itself. -/
def darkPageDeepening : Binary64 := .ofDecimal true 8 (-2)

/-- A colour with its light and its dark variant. -/
structure Shades where
  base : Color
  light : Color
  dark : Color
deriving DecidableEq

namespace Shades

/-- The shades of a configured colour. -/
def onLight (color : Color) : Shades where
  base := color
  light := color.shift lightening
  dark := color.shift darkening

/-- The shades of a configured colour for readers who prefer dark pages. -/
def onDark (color : Color) : Shades where
  base := color.shift (darkening * darkPageShade)
  light := color.shift (lightening * darkPageLift)
  dark := (color.shift (darkening * darkPageShade)).shift darkPageDeepening

end Shades

end ThemeCss
