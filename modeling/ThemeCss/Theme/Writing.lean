import ThemeCss.Json.Writer
import ThemeCss.Theme.Basic

/-! # Writing a theme

The JSON text of a theme gives every field, also those that have a default, in declared order.
-/

namespace ThemeCss

open Json (quote writeBool writeDouble writeList writeObject)

namespace Theme

def toJson (theme : Theme) : String :=
  writeObject [
    ("colors", writeObject (theme.colors.entries.map fun (name, color) => (name, quote color.hex))),
    ("typography", writeObject [
      ("main", quote theme.typography.main),
      ("headlines", quote theme.typography.headlines)]),
    ("layout", writeObject [
      ("container", quote theme.layout.container.text),
      ("cols", toString theme.layout.columns),
      ("breakpoints", writeObject
        (theme.layout.breakpoints.entries.map fun (label, width) => (label, quote width.text)))]),
    ("spacing", writeObject [
      ("baseUnit", quote theme.spacing.baseUnit.text),
      ("ratioLineHeight", writeDouble theme.spacing.lineHeight)]),
    ("transition", writeObject [
      ("duration", quote theme.transition.duration),
      ("type", quote theme.transition.easing)]),
    ("darkMode", writeBool theme.darkMode),
    ("components", writeList (theme.components.map quote)),
    ("utilities", writeList (theme.utilities.map quote))]

/-- Equal lengths under equal names, in the same order. -/
def sameWidths (a b : List (String × Length)) : Bool :=
  match a, b with
  | [], [] => true
  | (left, x) :: restA, (right, y) :: restB => left == right && x.same y && sameWidths restA restB
  | _, _ => false

/-- Equality of themes in which numbers are compared as numbers. -/
def same (a b : Theme) : Bool :=
  a.colors.entries == b.colors.entries &&
  a.typography == b.typography &&
  a.layout.container.same b.layout.container &&
  a.layout.columns == b.layout.columns &&
  sameWidths a.layout.breakpoints.entries b.layout.breakpoints.entries &&
  a.spacing.baseUnit.same b.spacing.baseUnit &&
  a.spacing.lineHeight.same b.spacing.lineHeight &&
  a.transition == b.transition &&
  a.darkMode == b.darkMode &&
  a.components == b.components &&
  a.utilities == b.utilities

end Theme

end ThemeCss
