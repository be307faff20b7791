import ThemeCss.Sheet.Utility
import ThemeCss.Theme.Basic

/-! # Text and grid

The rules of the page as a whole: fonts and line heights of text and headings, the container, and
a grid whose columns are shares of its width, for all pages and for every breakpoint.
-/

namespace ThemeCss

namespace Page

/-- The colour of text. -/
def textColor : String := "#1f2937"

def headingLineHeight : String := "120%"

def headingMargin : String := "0.5em"

/-- The height of a line in per cent. -/
def lineHeight (ratio : Binary64) : String := (ratio * .ofNat 100).compact ++ "%"

/-- The share of one column, in per cent with four decimals. -/
def columnWidth (column columns : Nat) : String :=
  (Binary64.ofNat column / .ofNat columns * .ofNat 100).fixed 4 ++ "%"

/-- A class for something as wide as a number of columns. -/
def columnClass (columns column : Nat) : UtilityClass where
  name := s!"col-{column}"
  declarations := [
    ⟨"flex", s!"0 0 {columnWidth column columns}"⟩,
    ⟨"max-width", columnWidth column columns⟩]

/-- The classes for one column up to all columns. -/
def columnClasses (columns : Nat) : List UtilityClass :=
  (List.range columns).map fun before => columnClass columns (before + 1)

def bodyRule (theme : Theme) : StyleRule where
  selector := "body"
  declarations := [
    ⟨"font-family", theme.typography.main⟩,
    ⟨"line-height", lineHeight theme.spacing.lineHeight⟩,
    ⟨"color", textColor⟩]

def headingRule (theme : Theme) : StyleRule where
  selector := "h1, h2, h3, h4, h5, h6"
  declarations := [
    ⟨"font-family", theme.typography.headlines⟩,
    ⟨"line-height", headingLineHeight⟩,
    ⟨"margin-bottom", headingMargin⟩]

def containerRule (theme : Theme) : StyleRule where
  selector := ".container"
  declarations := [
    ⟨"width", "100%"⟩,
    ⟨"max-width", theme.layout.container.text⟩,
    ⟨"margin-left", "auto"⟩,
    ⟨"margin-right", "auto"⟩,
    ⟨"padding-left", theme.spacing.baseUnit.text⟩,
    ⟨"padding-right", theme.spacing.baseUnit.text⟩]

def rowRule (theme : Theme) : StyleRule where
  selector := ".row"
  declarations := [
    ⟨"display", "flex"⟩,
    ⟨"flex-wrap", "wrap"⟩,
    ⟨"gap", theme.spacing.baseUnit.text⟩]

end Page

/-- The section of the theme's fonts. -/
def Theme.text (theme : Theme) : Sheet :=
  .titled "Typography" [.rule (Page.bodyRule theme), .rule (Page.headingRule theme)]

/-- The section of the theme's grid. -/
def Theme.grid (theme : Theme) : Sheet :=
  (Sheet.titled "Layout"
    [.rule (Page.containerRule theme), .rule (Page.rowRule theme)]).withResponsive
    (Page.columnClasses theme.layout.columns) theme.breakpoints

end ThemeCss
