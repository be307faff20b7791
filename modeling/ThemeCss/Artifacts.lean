import ThemeCss.Section.Components
import ThemeCss.Section.Page
import ThemeCss.Section.Utilities
import ThemeCss.Sheet.Layout
import ThemeCss.Sheet.Minified
import ThemeCss.Sheet.Vendor

/-! # What a theme is compiled to

The sections of a theme in their fixed order make one sheet. Its text, behind a banner and with
copies for single browsers, is the readable artifact; the minified one is made from that text.
-/

namespace ThemeCss

/-- The first line of the readable artifact. -/
def banner : String := "/*! breeze v0.1.0 | generated stylesheet - do not edit */\n"

structure Artifacts where
  readable : String
  minified : String
  /-- The number of different classes in the selectors. -/
  classCount : Nat
deriving DecidableEq

namespace Theme

/-- The sections: colours, text, grid, components, utilities, transitions. -/
def sections (theme : Theme) : List Sheet :=
  [theme.palette, theme.text, theme.grid] ++ theme.componentSheets ++ theme.utilitySheets ++
    [theme.transitions]

/-- The sheet of a theme. -/
def sheet (theme : Theme) : Sheet := .merged theme.sections

/-- The readable artifact. -/
def readable (theme : Theme) : String :=
  withVendorCopies (banner ++ "\n" ++ theme.sheet.text)

def compile (theme : Theme) : Artifacts where
  readable := theme.readable
  minified := ThemeCss.minified theme.readable
  classCount := theme.sheet.classNames.length

end Theme

end ThemeCss
