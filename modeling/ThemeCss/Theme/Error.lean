import ThemeCss.FileTree.Failure
import ThemeCss.Json.Fault
import ThemeCss.Theme.Diagnostic

/-! # Why a theme cannot be had -/

namespace ThemeCss

inductive ThemeError where
  | unreadable (path : String) (failure : FileFailure)
  | malformed (error : Json.Error)
  | tooFewColumns (columns : Nat)

namespace ThemeError

def message : ThemeError → String
  | unreadable path failure => s!"failed to read config {path}: {failure.message}"
  | malformed error => s!"invalid config: {error.message}"
  | tooFewColumns columns => s!"layout.cols must be at least 1, got {columns}"

end ThemeError

namespace Theme

/-- The diagnostics of a theme that has columns. -/
def check (theme : Theme) : Except ThemeError (List Diagnostic) :=
  if theme.layout.columns = 0 then .error (.tooFewColumns theme.layout.columns)
  else .ok theme.diagnostics

end Theme

end ThemeCss
