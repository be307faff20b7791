import ThemeCss.Json.Record
import ThemeCss.Theme.Error

/-! # Reading a theme

The JSON form of a theme: the names of the fields, which of them have a default, and what their
values are read as.
-/

namespace ThemeCss

open Json (Field Form Reader required)

/-- A string that is read as a colour. -/
def Color.reader : Reader Color := Reader.string.interpret Color.parse

/-- A string that is read as a length. -/
def Length.reader : Reader Length := Reader.string.interpret Length.parse

namespace Typography

structure Draft where
  main : Option String := none
  headlines : Option String := none

def form : Form Draft Typography where
  title := "struct Typography"
  fields := [
    .slot "main" (·.main) (fun draft value => { draft with main := some value }) .string,
    .slot "headlines" (·.headlines) (fun draft value => { draft with headlines := some value })
      .string]
  blank := {}
  finish draft := do
    let main ← required "main" draft.main
    let headlines ← required "headlines" draft.headlines
    return { main, headlines }

end Typography

namespace Layout

structure Draft where
  container : Option Length := none
  columns : Option Nat := none
  breakpoints : Option (Catalog Length) := none

def form : Form Draft Layout where
  title := "struct Layout"
  fields := [
    .slot "container" (·.container) (fun draft value => { draft with container := some value })
      Length.reader,
    .slot "cols" (·.columns) (fun draft value => { draft with columns := some value }) .count,
    .slot "breakpoints" (·.breakpoints)
      (fun draft value => { draft with breakpoints := some value }) (.catalog Length.reader)]
  blank := {}
  finish draft := do
    let container ← required "container" draft.container
    let columns ← required "cols" draft.columns
    return { container, columns, breakpoints := draft.breakpoints.getD .empty }

end Layout

namespace Spacing

structure Draft where
  baseUnit : Option Length := none
  lineHeight : Option Binary64 := none

def form : Form Draft Spacing where
  title := "struct Spacing"
  fields := [
    .slot "baseUnit" (·.baseUnit) (fun draft value => { draft with baseUnit := some value })
      Length.reader,
    .slot "ratioLineHeight" (·.lineHeight)
      (fun draft value => { draft with lineHeight := some value }) .double]
  blank := {}
  finish draft := do
    let baseUnit ← required "baseUnit" draft.baseUnit
    return { baseUnit, lineHeight := draft.lineHeight.getD defaultLineHeight }

end Spacing

namespace Transition

structure Draft where
  duration : Option String := none
  easing : Option String := none

def form : Form Draft Transition where
  title := "struct Transition"
  fields := [
    .slot "duration" (·.duration) (fun draft value => { draft with duration := some value })
      .string,
    .slot "type" (·.easing) (fun draft value => { draft with easing := some value }) .string]
  blank := {}
  finish draft := do
    let duration ← required "duration" draft.duration
    let easing ← required "type" draft.easing
    return { duration, easing }

end Transition

namespace Theme

structure Draft where
  colors : Option (Catalog Color) := none
  typography : Option Typography := none
  layout : Option Layout := none
  spacing : Option Spacing := none
  transition : Option Transition := none
  darkMode : Option Bool := none
  components : Option (List String) := none
  utilities : Option (List String) := none

def form : Form Draft Theme where
  title := "struct ThemeConfig"
  fields := [
    .slot "colors" (·.colors) (fun draft value => { draft with colors := some value })
      (.catalog Color.reader),
    .slot "typography" (·.typography) (fun draft value => { draft with typography := some value })
      Typography.form.reader,
    .slot "layout" (·.layout) (fun draft value => { draft with layout := some value })
      Layout.form.reader,
    .slot "spacing" (·.spacing) (fun draft value => { draft with spacing := some value })
      Spacing.form.reader,
    .slot "transition" (·.transition) (fun draft value => { draft with transition := some value })
      Transition.form.reader,
    .slot "darkMode" (·.darkMode) (fun draft value => { draft with darkMode := some value })
      .boolean,
    .slot "components" (·.components) (fun draft value => { draft with components := some value })
      (.list .string),
    .slot "utilities" (·.utilities) (fun draft value => { draft with utilities := some value })
      (.list .string)]
  blank := {}
  finish draft := do
    let colors ← required "colors" draft.colors
    let typography ← required "typography" draft.typography
    let layout ← required "layout" draft.layout
    let spacing ← required "spacing" draft.spacing
    return {
      colors, typography, layout, spacing
      transition := draft.transition.getD .usual
      darkMode := draft.darkMode.getD false
      components := draft.components.getD []
      utilities := draft.utilities.getD [] }

/-- Reads a theme from its JSON text. -/
def ofJson (text : String) : Except ThemeError Theme :=
  match Json.parse form.reader text with
  | .ok theme => .ok theme
  | .error error => .error (.malformed error)

end Theme

end ThemeCss
