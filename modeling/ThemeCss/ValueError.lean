/-! # Values that cannot be read -/

namespace ThemeCss

/-- The text of a value of a theme that does not have the value's form. -/
inductive ValueError where
  | color (text : String)
  | length (text : String)
deriving DecidableEq

namespace ValueError

/-- The text is shown as it was given, before any trimming. -/
def message : ValueError → String
  | color text => s!"invalid hex color `{text}`: expected 6 hex digits like #3b82f6"
  | length text => s!"invalid length `{text}`: expected a number followed by an optional unit"

end ValueError

end ThemeCss
