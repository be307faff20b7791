import ThemeCss.Sheet.Utility
import ThemeCss.Theme.Basic

/-! # Utility classes

The tables of utility classes that do not come from the palette or the grid: margins and paddings
as multiples of the theme's unit, flexible boxes, borders and backgrounds, pictures, transitions.
The tables are in the order of the output.
-/

namespace ThemeCss

namespace Utilities

/-- The multiples of the unit; the place in the list is the number in the name of the class. -/
def spacingSteps : List Binary64 := [
  .ofNat 0, .ofDecimal false 25 (-2), .ofDecimal false 5 (-1), .ofDecimal false 75 (-2),
  .ofNat 1, .ofDecimal false 15 (-1), .ofNat 2, .ofNat 3]

/-- The properties of spacing, with their letters. -/
def spacingProperties : List (String × String) := [("margin", "m"), ("padding", "p")]

/-- The directions of spacing: what the name of the class says, and the sides that it sets. No
side means all four at once. -/
def spacingDirections : List (String × List String) := [
  ("", []),
  ("-t", ["top"]),
  ("-b", ["bottom"]),
  ("-l", ["left"]),
  ("-r", ["right"]),
  ("-x", ["left", "right"]),
  ("-y", ["top", "bottom"])]

/-- The declarations that set spacing on some sides. -/
def sideDeclarations (property : String) (sides : List String) (value : String) :
    List Declaration :=
  match sides with
  | [] => [⟨property, value⟩]
  | _ => sides.map fun side => ⟨s!"{property}-{side}", value⟩

/-- The classes of one property in one direction, one for each step. -/
def stepClasses (unit : Length) (property letter direction : String) (sides : List String) :
    List UtilityClass :=
  spacingSteps.zipIdx.map fun (step, index) => {
    name := s!"{letter}{direction}-{index}"
    declarations := sideDeclarations property sides (unit.scale step).text }

/-- The classes of margins and paddings. -/
def spacingClasses (unit : Length) : List UtilityClass :=
  spacingProperties.flatMap fun (property, letter) =>
    spacingDirections.flatMap fun (direction, sides) =>
      stepClasses unit property letter direction sides

/-- The classes of flexible boxes. -/
def flexClasses : List UtilityClass := [
  ⟨"flex", [⟨"display", "flex"⟩]⟩,
  ⟨"inline-flex", [⟨"display", "inline-flex"⟩]⟩,
  ⟨"flex-row", [⟨"flex-direction", "row"⟩]⟩,
  ⟨"flex-col", [⟨"flex-direction", "column"⟩]⟩,
  ⟨"flex-wrap", [⟨"flex-wrap", "wrap"⟩]⟩,
  ⟨"flex-nowrap", [⟨"flex-wrap", "nowrap"⟩]⟩,
  ⟨"items-start", [⟨"align-items", "flex-start"⟩]⟩,
  ⟨"items-center", [⟨"align-items", "center"⟩]⟩,
  ⟨"items-end", [⟨"align-items", "flex-end"⟩]⟩,
  ⟨"justify-start", [⟨"justify-content", "flex-start"⟩]⟩,
  ⟨"justify-center", [⟨"justify-content", "center"⟩]⟩,
  ⟨"justify-between", [⟨"justify-content", "space-between"⟩]⟩,
  ⟨"flex-1", [⟨"flex", "1 1 0%"⟩]⟩,
  ⟨"flex-none", [⟨"flex", "none"⟩]⟩]

/-- The classes of borders and backgrounds. -/
def colorClasses : List UtilityClass := [
  ⟨"border", [⟨"border", "1px solid currentColor"⟩]⟩,
  ⟨"border-0", [⟨"border-width", "0"⟩]⟩,
  ⟨"border-transparent", [⟨"border-color", "transparent"⟩]⟩,
  ⟨"rounded", [⟨"border-radius", "4px"⟩]⟩,
  ⟨"rounded-lg", [⟨"border-radius", "12px"⟩]⟩,
  ⟨"rounded-full", [⟨"border-radius", "9999px"⟩]⟩,
  ⟨"bg-transparent", [⟨"background-color", "transparent"⟩]⟩,
  ⟨"text-inherit", [⟨"color", "inherit"⟩]⟩]

/-- The classes of pictures. -/
def imageClasses : List UtilityClass := [
  ⟨"img-fluid", [⟨"max-width", "100%"⟩, ⟨"height", "auto"⟩]⟩,
  ⟨"img-cover", [⟨"width", "100%"⟩, ⟨"height", "100%"⟩, ⟨"object-fit", "cover"⟩]⟩,
  ⟨"img-contain", [⟨"width", "100%"⟩, ⟨"height", "100%"⟩, ⟨"object-fit", "contain"⟩]⟩,
  ⟨"img-rounded", [⟨"border-radius", "12px"⟩]⟩,
  ⟨"img-circle", [⟨"border-radius", "50%"⟩, ⟨"object-fit", "cover"⟩]⟩]

/-- The classes of transitions. -/
def transitionClasses (timing : String) : List UtilityClass := [
  ⟨"transition", [⟨"transition", s!"all {timing}"⟩]⟩,
  ⟨"transition-colors",
    [⟨"transition", s!"color {timing}, background-color {timing}, border-color {timing}"⟩]⟩,
  ⟨"transition-transform", [⟨"transition", s!"transform {timing}"⟩]⟩,
  ⟨"transition-none", [⟨"transition", "none"⟩]⟩]

end Utilities

namespace UtilityGroup

/-- The section of a group. Spacing and flexible boxes differ by breakpoint. -/
def sheet (theme : Theme) : UtilityGroup → Sheet
  | spacing =>
    (Sheet.titled "Spacing").withResponsive
      (Utilities.spacingClasses theme.spacing.baseUnit) theme.breakpoints
  | flex => (Sheet.titled "Flex").withResponsive Utilities.flexClasses theme.breakpoints
  | color => .titled "Color & border" (plainBlocks Utilities.colorClasses)
  | image => .titled "Image" (plainBlocks Utilities.imageClasses)

end UtilityGroup

/-- The sections of the recognised groups. -/
def Theme.utilitySheets (theme : Theme) : List Sheet :=
  theme.knownUtilities.map (UtilityGroup.sheet theme)

/-- The section of the theme's transition. -/
def Theme.transitions (theme : Theme) : Sheet :=
  .titled "Transition" (plainBlocks (Utilities.transitionClasses theme.transition.timing))

end ThemeCss
