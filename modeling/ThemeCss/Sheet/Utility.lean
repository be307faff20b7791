import ThemeCss.Sheet.ClassName

/-! # Utility classes

A utility class sets a few declarations. It is written once for all pages and once more for every
breakpoint, there under its name behind the breakpoint's label.
-/

namespace ThemeCss

structure UtilityClass where
  name : String
  declarations : List Declaration
deriving DecidableEq

namespace UtilityClass

/-- The class as a rule; behind the label of a breakpoint, if one is given. -/
def rule (label : Option String) (utility : UtilityClass) : StyleRule where
  selector := classSelector (match label with
    | some label => s!"{label}:{utility.name}"
    | none => utility.name)
  declarations := utility.declarations
  style := .compact

end UtilityClass

/-- The classes for all pages. -/
def plainBlocks (classes : List UtilityClass) : List Block :=
  classes.map fun utility => .rule (utility.rule none)

/-- The classes for all pages, and then in a media query for every breakpoint. -/
def responsiveBlocks (classes : List UtilityClass) (breakpoints : List Breakpoint) : List Block :=
  plainBlocks classes ++ breakpoints.map fun breakpoint =>
    .minWidth breakpoint (classes.map (UtilityClass.rule (some breakpoint.label)))

namespace Sheet

/-- The sheet with responsive classes behind its own blocks. -/
def withResponsive (sheet : Sheet) (classes : List UtilityClass) (breakpoints : List Breakpoint) :
    Sheet :=
  ⟨sheet.blocks ++ responsiveBlocks classes breakpoints⟩

end Sheet

end ThemeCss
