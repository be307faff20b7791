import ThemeCss.Section.Palette

/-! # Components

The rules of buttons, cards and alerts. Their paddings and gaps are multiples of the theme's unit,
their movements follow the theme's transition, and their colours are the palette's. An alert comes
only in the tones that the palette has.
-/

namespace ThemeCss

namespace Components

open Palette (reference textOnDark)

/-- The background of a card. -/
def surface : String := "#ffffff"

def surfaceBorder : String := "#e5e7eb"

def cardShadow : String := "0 1px 3px rgba(0, 0, 0, 0.08)"

def cardShadowOnHover : String := "0 10px 25px rgba(0, 0, 0, 0.12)"

def half : Binary64 := .ofDecimal false 5 (-1)

def threeQuarters : Binary64 := .ofDecimal false 75 (-2)

def oneAndAHalf : Binary64 := .ofDecimal false 15 (-1)

/-- A multiple of the theme's unit. -/
def units (theme : Theme) (factor : Binary64) : String :=
  (theme.spacing.baseUnit.scale factor).text

def button (theme : Theme) : Sheet :=
  let timing := theme.transition.timing
  .titled "Component: button" [
    .rule {
      selector := ".btn"
      declarations := [
        ⟨"display", "inline-flex"⟩,
        ⟨"align-items", "center"⟩,
        ⟨"justify-content", "center"⟩,
        ⟨"gap", units theme half⟩,
        ⟨"padding", s!"{units theme half} {units theme oneAndAHalf}"⟩,
        ⟨"border", "2px solid " ++ reference "primary" ""⟩,
        ⟨"border-radius", "9999px"⟩,
        ⟨"background-color", reference "primary" ""⟩,
        ⟨"color", textOnDark⟩,
        ⟨"font-family", "inherit"⟩,
        ⟨"font-weight", "600"⟩,
        ⟨"cursor", "pointer"⟩,
        ⟨"user-select", "none"⟩,
        ⟨"appearance", "none"⟩,
        ⟨"transition", s!"background-color {timing}, transform {timing}"⟩] },
    .rule {
      selector := ".btn:hover"
      declarations := [
        ⟨"background-color", reference "primary" "-dark"⟩,
        ⟨"border-color", reference "primary" "-dark"⟩,
        ⟨"transform", "translateY(-1px)"⟩] },
    .rule {
      selector := ".btn-secondary"
      declarations := [
        ⟨"background-color", "transparent"⟩,
        ⟨"color", reference "primary" ""⟩] },
    .rule {
      selector := ".btn-secondary:hover"
      declarations := [
        ⟨"background-color", reference "primary" ""⟩,
        ⟨"color", textOnDark⟩] }]

def card (theme : Theme) : Sheet :=
  let timing := theme.transition.timing
  .titled "Component: card" [
    .rule {
      selector := ".card"
      declarations := [
        ⟨"background-color", surface⟩,
        ⟨"border", s!"1px solid {surfaceBorder}"⟩,
        ⟨"border-radius", "12px"⟩,
        ⟨"padding", units theme oneAndAHalf⟩,
        ⟨"box-shadow", cardShadow⟩,
        ⟨"transition", s!"box-shadow {timing}, transform {timing}"⟩] },
    .rule {
      selector := ".card:hover"
      declarations := [
        ⟨"box-shadow", cardShadowOnHover⟩,
        ⟨"transform", "translateY(-2px)"⟩] },
    .rule {
      selector := ".card + .card"
      declarations := [⟨"margin-top", theme.spacing.baseUnit.text⟩] }]

/-- The rule of alerts in one tone. -/
def toneRule (tone : String) : StyleRule where
  selector := s!".alert-{tone}"
  declarations := [
    ⟨"background-color", reference tone "-light"⟩,
    ⟨"border-left-color", reference tone ""⟩,
    ⟨"color", reference tone "-dark"⟩]

def alert (theme : Theme) : Sheet :=
  .titled "Component: alert" (.rule {
    selector := ".alert"
    declarations := [
      ⟨"display", "flex"⟩,
      ⟨"align-items", "center"⟩,
      ⟨"gap", units theme threeQuarters⟩,
      ⟨"padding", s!"{units theme threeQuarters} {theme.spacing.baseUnit.text}"⟩,
      ⟨"border-left", "4px solid transparent"⟩,
      ⟨"border-radius", "8px"⟩] } ::
    (tones.filter theme.colors.contains).map fun tone => .rule (toneRule tone))

end Components

namespace Component

/-- The section of a component. -/
def sheet (theme : Theme) : Component → Sheet
  | button => Components.button theme
  | card => Components.card theme
  | alert => Components.alert theme

end Component

/-- The sections of the recognised components. -/
def Theme.componentSheets (theme : Theme) : List Sheet :=
  theme.knownComponents.map (Component.sheet theme)

end ThemeCss
