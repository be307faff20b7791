import ThemeCss.Theme.Basic

/-! # What is doubtful about a theme

A theme that holds together may still ask for things that will not appear. That is said, and does
not keep the theme from being built.
-/

namespace ThemeCss

inductive Diagnostic where
  | buttonWithoutPrimary
  | toneWithoutColor (tone : String)
  | unknownComponent (name : String)
  | unknownUtilities (name : String)
deriving DecidableEq

namespace Diagnostic

def message : Diagnostic → String
  | buttonWithoutPrimary => "button uses --color-primary but no `primary` color is configured"
  | toneWithoutColor tone =>
    s!"alert tone `{tone}` has no matching color; .alert-{tone} will not be generated"
  | unknownComponent name => s!"Unknown component: {name}"
  | unknownUtilities name => s!"Unknown utility group: {name}"

end Diagnostic

namespace Theme

/-- The button refers to the primary colour. -/
def buttonDiagnostics (theme : Theme) : List Diagnostic :=
  if theme.has .button && !theme.colors.contains "primary" then [.buttonWithoutPrimary] else []

/-- An alert comes only in the tones that are configured. -/
def toneDiagnostics (theme : Theme) : List Diagnostic :=
  if theme.has .alert then
    (tones.filter fun tone => !theme.colors.contains tone).map .toneWithoutColor
  else []

/-- One diagnostic for each mention of a name that is not recognised. -/
def nameDiagnostics (theme : Theme) : List Diagnostic :=
  (theme.components.filter fun name => (Component.ofName? name).isNone).map .unknownComponent ++
  (theme.utilities.filter fun name => (UtilityGroup.ofName? name).isNone).map .unknownUtilities

def diagnostics (theme : Theme) : List Diagnostic :=
  theme.buttonDiagnostics ++ theme.toneDiagnostics ++ theme.nameDiagnostics

end Theme

end ThemeCss
