import ThemeCss.Sheet.Utility
import ThemeCss.Theme.Basic

/-! # The palette

Every configured colour becomes three custom properties, for itself and its two variants, and
seven utility classes that refer to them. A theme with a dark mode declares the properties once
more for readers who prefer dark pages. Everything stands in the order of the configuration.
-/

namespace ThemeCss

namespace Palette

/-- Text on a light background. -/
def textOnLight : String := "#111827"

/-- Text on a dark background. -/
def textOnDark : String := "#ffffff"

/-- The background of a dark page. -/
def darkBackground : String := "#0f172a"

/-- The text of a dark page. -/
def darkForeground : String := "#e2e8f0"

/-- The variants of a colour, by what is put behind its name. -/
def suffixes : List String := ["", "-light", "-dark"]

/-- The custom property of a colour or of a variant. -/
def property (name suffix : String) : String := s!"--color-{name}{suffix}"

/-- A reference to the custom property of a colour or of a variant. -/
def reference (name suffix : String) : String := s!"var({property name suffix})"

/-- The custom properties of a colour. -/
def properties (name : String) (shades : Shades) : List Declaration := [
  ⟨property name "", shades.base.hex⟩,
  ⟨property name "-light", shades.light.hex⟩,
  ⟨property name "-dark", shades.dark.hex⟩]

/-- The rule that declares the custom properties of all colours. -/
def rootRule (shades : Color → Shades) (colors : Catalog Color) : StyleRule where
  selector := ":root"
  declarations := colors.entries.flatMap fun (name, color) => properties name (shades color)

/-- A class that sets the colour of text. -/
def textClass (name suffix : String) : UtilityClass where
  name := s!"text-{name}{suffix}"
  declarations := [⟨"color", reference name suffix⟩]

/-- A class that sets the background and a colour of text that can be read on it. -/
def backgroundClass (name suffix : String) : UtilityClass where
  name := s!"bg-{name}{suffix}"
  declarations := [
    ⟨"background-color", reference name suffix⟩,
    ⟨"color", if suffix = "-dark" then textOnDark else textOnLight⟩]

/-- A class that sets the colour of a border. -/
def borderClass (name : String) : UtilityClass where
  name := s!"border-{name}"
  declarations := [⟨"border-color", reference name ""⟩]

/-- The seven utility classes of a colour. -/
def classes (name : String) : List UtilityClass :=
  suffixes.map (textClass name) ++ suffixes.map (backgroundClass name) ++ [borderClass name]

/-- The colours of the page for readers who prefer dark pages. -/
def darkPageRule : StyleRule where
  selector := "body"
  declarations := [⟨"background-color", darkBackground⟩, ⟨"color", darkForeground⟩]

/-- The query that holds for readers who prefer dark pages. -/
def darkQuery : String := "(prefers-color-scheme: dark)"

/-- The blocks for dark pages. -/
def darkBlocks (colors : Catalog Color) : List Block := [
  .comment "Dark mode",
  .media darkQuery [rootRule .onDark colors, darkPageRule]]

end Palette

/-- The section of the theme's colours. -/
def Theme.palette (theme : Theme) : Sheet :=
  .titled "Palette" (.rule (Palette.rootRule .onLight theme.colors) ::
    plainBlocks (theme.colors.names.flatMap Palette.classes) ++
    if theme.darkMode then Palette.darkBlocks theme.colors else [])

end ThemeCss
