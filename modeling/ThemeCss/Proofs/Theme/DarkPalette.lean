import ThemeCss.Proofs.Color.Order
import ThemeCss.Proofs.Theme.Cascade
import ThemeCss.Proofs.Theme.Palette

/-! # The palette of dark pages

A theme with a dark mode declares its custom properties twice: for all pages, and further down once
more for dark ones. The second rule declares the same properties in the same order. Its shades are
those of the first one dimmed: the colour and its dark variant are darker there, and the light
variant is less light, but not darker than the configured colour.
-/

namespace ThemeCss

/-- The rules of a block, each with the media query that it stands under. -/
def Block.placedRules : Block → List (Option String × StyleRule)
  | comment _ => []
  | rule single => [(none, single)]
  | media query rules => rules.map fun rule => (some query, rule)

theorem Block.mem_rules_of_placed {block : Block} {placed : Option String × StyleRule}
    (member : placed ∈ block.placedRules) : placed.2 ∈ block.rules := by
  cases block with
  | comment text => cases member
  | rule single =>
    rw [List.mem_singleton.mp member]
    exact List.mem_cons_self
  | media query rules =>
    obtain ⟨rule, known, rfl⟩ := List.mem_map.mp member
    exact known

namespace Sheet

/-- The rules for a selector in document order, each with the media query that it stands under. -/
def placedFor (selector : String) (sheet : Sheet) : List (Option String × StyleRule) :=
  (sheet.blocks.flatMap Block.placedRules).filter (·.2.selector == selector)

variable {selector : String}

theorem placedFor_merged (parts : List Sheet) :
    (merged parts).placedFor selector = parts.flatMap (placedFor selector) := by
  rw [placedFor, merged, List.flatMap_assoc, List.filter_flatMap]
  rfl

theorem placedFor_of_forall_ne {sheet : Sheet}
    (others : ∀ rule ∈ sheet.rules, rule.selector ≠ selector) : sheet.placedFor selector = [] := by
  rw [placedFor, List.filter_eq_nil_iff]
  intro placed member same
  obtain ⟨block, inside, known⟩ := List.mem_flatMap.mp member
  exact others _ (List.mem_flatMap.mpr ⟨block, inside, Block.mem_rules_of_placed known⟩)
    (eq_of_beq same)

end Sheet

/-- The shades of a colour for dark pages are dimmed: darker than for light pages, and the light
variant is still no darker than the colour. -/
structure Shades.Dimmed (night day : Shades) (color : Color) : Prop where
  dark_le_base : night.dark ≤ night.base
  base_le : night.base ≤ color
  le_light : color ≤ night.light
  base_le_dark : night.base ≤ day.dark
  light_le_light : night.light ≤ day.light

theorem Shades.dimmed_onDark (color : Color) : (onDark color).Dimmed (onLight color) color where
  dark_le_base := Color.shift_le (by decide +kernel) _
  base_le := Color.shift_le (by decide +kernel) color
  le_light := Color.le_shift (by decide +kernel) color
  base_le_dark := Color.shift_le_shift (by decide +kernel) color
  light_le_light := Color.shift_le_shift (by decide +kernel) color

/-- A colour as it is written: a hash and six hexadecimal digits in lower case. -/
def IsHexColor (text : String) : Prop :=
  ∃ digits, text.toList = '#' :: digits ∧ digits.length = 6 ∧
    ∀ c ∈ digits, c ∈ "0123456789abcdef".toList

theorem Color.isHexColor_hex (color : Color) : IsHexColor color.hex := by
  refine ⟨channelDigits color.red ++ channelDigits color.green ++ channelDigits color.blue,
    String.toList_ofList, rfl, ?_⟩
  have table : ∀ digit < 16, Nat.digitChar digit ∈ "0123456789abcdef".toList := by decide
  have channels (channel : UInt8) : ∀ c ∈ channelDigits channel, c ∈ "0123456789abcdef".toList := by
    have bound := channel.toNat_lt
    rw [channelDigits, List.forall_mem_cons, List.forall_mem_singleton]
    exact ⟨table _ (by omega), table _ (by omega)⟩
  rw [List.forall_mem_append, List.forall_mem_append]
  exact ⟨⟨channels _, channels _⟩, channels _⟩

namespace Palette

/-- Which properties are declared does not depend on the shades. -/
theorem properties_rootRule (first second : Color → Shades) (colors : Catalog Color) :
    (rootRule first colors).declarations.map (·.property) =
      (rootRule second colors).declarations.map (·.property) := by
  simp only [rootRule, List.map_flatMap]
  rfl

theorem isHexColor_of_mem_rootRule {shades : Color → Shades} {colors : Catalog Color} :
    ∀ declaration ∈ (rootRule shades colors).declarations, IsHexColor declaration.value := by
  intro declaration member
  obtain ⟨color, -, suffix, -, shade, rfl⟩ := declaration_of_mem_rootRule member
  exact shade.isHexColor_hex

end Palette

namespace Theme

variable {theme : Theme}

theorem placedFor_root_palette (dark : theme.darkMode = true) :
    theme.palette.placedFor ":root" =
      [(none, Palette.rootRule .onLight theme.colors),
        (some Palette.darkQuery, Palette.rootRule .onDark theme.colors)] := by
  have classes : (Sheet.mk (plainBlocks (theme.colors.names.flatMap Palette.classes))).placedFor
      ":root" = [] := by
    apply Sheet.placedFor_of_forall_ne
    intro rule member root
    have dotted := (StyleRule.isOf_of_mem_plainBlocks member).head?_selector
    rw [root] at dotted
    exact absurd dotted (by decide)
  rw [Sheet.placedFor] at classes
  rw [Sheet.placedFor, palette, Sheet.titled, if_pos dark, List.flatMap_cons, List.flatMap_append,
    List.filter_append, List.filter_append, List.flatMap_cons, List.filter_append, classes]
  simp [Block.placedRules, Palette.darkBlocks, Palette.rootRule, Palette.darkPageRule]

/-- Outside the palette nothing is declared for the root. -/
theorem placedFor_root_sheet (theme : Theme) :
    theme.sheet.placedFor ":root" = theme.palette.placedFor ":root" := by
  have page : theme.text.placedFor ":root" = [] := by
    apply Sheet.placedFor_of_forall_ne
    intro rule member
    rcases rule_of_mem_text member with rfl | rfl
    · simp [Page.bodyRule]
    · simp [Page.headingRule]
  have others : (theme.grid :: theme.componentSheets ++ theme.utilitySheets ++
      [theme.transitions]).flatMap (Sheet.placedFor ":root") = [] := by
    rw [List.flatMap_eq_nil_iff]
    intro part known
    apply Sheet.placedFor_of_forall_ne
    intro rule member root
    have dotted := head?_selector known member
    rw [root] at dotted
    exact absurd dotted (by decide)
  calc
    theme.sheet.placedFor ":root" = theme.palette.placedFor ":root" ++
        (theme.text.placedFor ":root" ++ (theme.grid :: theme.componentSheets ++
          theme.utilitySheets ++ [theme.transitions]).flatMap (Sheet.placedFor ":root")) := by
      rw [sheet, Sheet.placedFor_merged]
      rfl
    _ = theme.palette.placedFor ":root" := by rw [page, others, List.append_nil, List.append_nil]

/-- A theme with a dark mode has two rules for the root, the second one for dark pages. They declare
the same properties in the same order, each as a colour, and the shades of the second one are
dimmed. -/
theorem root_dimmed (theme : Theme) (dark : theme.darkMode = true) :
    theme.sheet.placedFor ":root" =
        [(none, Palette.rootRule .onLight theme.colors),
          (some "(prefers-color-scheme: dark)", Palette.rootRule .onDark theme.colors)] ∧
      (Palette.rootRule .onDark theme.colors).declarations.map (·.property) =
        (Palette.rootRule .onLight theme.colors).declarations.map (·.property) ∧
      (∀ placed ∈ theme.sheet.placedFor ":root",
        ∀ declaration ∈ placed.2.declarations, IsHexColor declaration.value) ∧
      ∀ entry ∈ theme.colors.entries,
        (Shades.onDark entry.2).Dimmed (Shades.onLight entry.2) entry.2 := by
  have rules := (theme.placedFor_root_sheet).trans (placedFor_root_palette dark)
  refine ⟨rules, Palette.properties_rootRule .onDark .onLight theme.colors, ?_, ?_⟩
  · rw [rules, List.forall_mem_cons, List.forall_mem_singleton]
    exact ⟨Palette.isHexColor_of_mem_rootRule, Palette.isHexColor_of_mem_rootRule⟩
  · intro entry _
    exact Shades.dimmed_onDark entry.2

/-- The shore with a dark mode: its red is named like the light variant of the blue behind it. -/
def nightShore : Theme := { ofColors shore with darkMode := true }

/-- Both rules declare the property of the red, and again as the light variant of the blue. -/
theorem root_dimmed_nightShore :
    nightShore.darkMode = true ∧
      (nightShore.sheet.placedFor ":root").map (fun (query, rule) =>
          (query, rule.declarations.map (·.property))) =
        [none, some "(prefers-color-scheme: dark)"].map (fun query =>
          (query, ["--color-sea-light", "--color-sea-light-light", "--color-sea-light-dark",
            "--color-sea", "--color-sea-light", "--color-sea-dark"])) ∧
      ("sea", ⟨0, 0x66, 0xcc⟩) ∈ nightShore.colors.entries ∧
      (Shades.onDark ⟨0, 0x66, 0xcc⟩).Dimmed (Shades.onLight ⟨0, 0x66, 0xcc⟩) ⟨0, 0x66, 0xcc⟩ := by
  have dark : nightShore.darkMode = true := rfl
  have known : ("sea", (⟨0, 0x66, 0xcc⟩ : Color)) ∈ nightShore.colors.entries :=
    List.mem_cons_of_mem _ List.mem_cons_self
  obtain ⟨rules, -, -, shades⟩ := nightShore.root_dimmed dark
  have dimmed := shades ("sea", ⟨0, 0x66, 0xcc⟩) known
  refine ⟨dark, ?_, known, dimmed⟩
  rw [rules]
  decide +kernel

end Theme

end ThemeCss
