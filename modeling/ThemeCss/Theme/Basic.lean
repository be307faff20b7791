import ThemeCss.Catalog
import ThemeCss.Color
import ThemeCss.Length
import ThemeCss.Sheet.Basic

/-! # Themes

A theme is what a designer configures: colours, fonts, a grid, a unit of spacing, transitions, and
the names of the components and groups of utility classes that are wanted. Names that are not
recognised stay in the theme and ask for nothing.
-/

namespace ThemeCss

inductive Component where
  | button
  | card
  | alert
deriving DecidableEq

namespace Component

/-- Blanks around a name do not matter. -/
def ofName? (name : String) : Option Component :=
  match trimmed name with
  | "button" => some button
  | "card" => some card
  | "alert" => some alert
  | _ => none

end Component

/-- A group of utility classes. -/
inductive UtilityGroup where
  | spacing
  | flex
  | color
  | image
deriving DecidableEq

namespace UtilityGroup

/-- Blanks around a name do not matter. -/
def ofName? (name : String) : Option UtilityGroup :=
  match trimmed name with
  | "spacing" => some spacing
  | "flex" => some flex
  | "color" => some color
  | "image" => some image
  | _ => none

end UtilityGroup

/-- The colours that alerts come in, if they are configured. -/
def tones : List String := ["primary", "success", "warning", "danger"]

/-- The font stacks of text and of headings. -/
structure Typography where
  main : String
  headlines : String
deriving DecidableEq

/-- The grid: the width of the page, the number of columns, and the widths of wider pages. -/
structure Layout where
  container : Length
  columns : Nat
  breakpoints : Catalog Length

structure Spacing where
  baseUnit : Length
  /-- The height of a line of text as a multiple of its size. -/
  lineHeight : Binary64

namespace Spacing

def defaultLineHeight : Binary64 := .ofDecimal false 14 (-1)

end Spacing

structure Transition where
  duration : String
  easing : String
deriving DecidableEq

namespace Transition

/-- The transition of a theme that names none. -/
def usual : Transition := ⟨"0.3s", "ease"⟩

/-- Duration and easing as they stand in a declaration. -/
def timing (transition : Transition) : String :=
  s!"{transition.duration} {transition.easing}"

end Transition

structure Theme where
  colors : Catalog Color
  typography : Typography
  layout : Layout
  spacing : Spacing
  transition : Transition
  /-- Whether readers who prefer dark pages get a dark page. -/
  darkMode : Bool
  /-- The names of the components that are wanted. -/
  components : List String
  /-- The names of the groups of utility classes that are wanted. -/
  utilities : List String

namespace Theme

/-- The recognised components, each once, in the order of their first mention. -/
def knownComponents (theme : Theme) : List Component :=
  (theme.components.filterMap Component.ofName?).eraseDups

/-- The recognised groups, each once, in the order of their first mention. -/
def knownUtilities (theme : Theme) : List UtilityGroup :=
  (theme.utilities.filterMap UtilityGroup.ofName?).eraseDups

def has (theme : Theme) (component : Component) : Bool :=
  theme.knownComponents.contains component

/-- The breakpoints in configured order, with their widths as text. -/
def breakpoints (theme : Theme) : List Breakpoint :=
  theme.layout.breakpoints.entries.map fun (label, width) => ⟨label, width.text⟩

end Theme

end ThemeCss
