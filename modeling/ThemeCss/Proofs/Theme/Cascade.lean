import ThemeCss.Proofs.Theme.RoundTrip
import ThemeCss.Proofs.Theme.Rules

/-! # What takes effect in a theme's sheet

Two places where declarations of a theme compete. The page is given colours for dark pages inside
the palette, but the text section sets the colour of text once more, for all pages and further down:
dark pages get their background and keep the colour of text of light ones. In the palette the
properties of a colour compete with those of a colour named like one of its variants, and the later
entry of the configuration takes effect.
-/

namespace ThemeCss

namespace Palette

/-- A colour and its variants, each with what stands behind the name. -/
def variants (shades : Shades) : List (String × Color) :=
  [("", shades.base), ("-light", shades.light), ("-dark", shades.dark)]

/-- The shade that an entry gives a name, if the name is that of its colour or of a variant. -/
def shadeCalled? (name : String) (entry : String × Color) : Option Color :=
  ((variants (.onLight entry.2)).find? fun variant => entry.1 ++ variant.1 == name).map Prod.snd

theorem properties_eq_map (name : String) (shades : Shades) : properties name shades =
    (variants shades).map fun variant => ⟨property name variant.1, variant.2.hex⟩ := rfl

theorem property_eq (name suffix : String) :
    property name suffix = "--color-" ++ (name ++ suffix) := by
  simp [property, toString, String.append_assoc]

end Palette

/-- Rules whose selectors begin with a dot declare nothing for other selectors. -/
theorem Sheet.declarationsFor_of_dots {selector : String} {rules : List StyleRule}
    (plain : selector.toList.head? ≠ some '.')
    (dots : ∀ rule ∈ rules, rule.selector.toList.head? = some '.') :
    declarationsFor selector rules = [] :=
  declarationsFor_of_forall_ne fun rule member same => plain (same ▸ dots rule member)

namespace Theme

variable (theme : Theme) (holds : String → Bool)

/-- The rules of the palette that apply: the properties, the classes, and the rules of dark pages. -/
theorem rulesWhere_palette : theme.palette.rulesWhere holds =
    [Palette.rootRule .onLight theme.colors] ++
      (theme.colors.names.flatMap Palette.classes).map (UtilityClass.rule none) ++
      if theme.darkMode && holds Palette.darkQuery then
        [Palette.rootRule .onDark theme.colors, Palette.darkPageRule]
      else [] := by
  rw [Sheet.rulesWhere, palette, Sheet.titled, List.flatMap_cons, List.flatMap_append,
    List.flatMap_cons, flatMap_rulesWhere_plainBlocks]
  cases theme.darkMode <;> simp [Palette.darkBlocks, Block.rulesWhere]

/-- The classes of the palette declare nothing for selectors that are no classes. -/
theorem declarationsFor_classes {selector : String} (plain : selector.toList.head? ≠ some '.') :
    Sheet.declarationsFor selector
      ((theme.colors.names.flatMap Palette.classes).map (UtilityClass.rule none)) = [] :=
  Sheet.declarationsFor_of_dots plain
    (List.forall_mem_map.mpr fun utility _ => utility.head?_selector none)

theorem declarationsFor_body_palette :
    Sheet.declarationsFor "body" (theme.palette.rulesWhere holds) =
      if theme.darkMode && holds Palette.darkQuery then
        Palette.darkPageRule.declarations
      else [] := by
  rw [rulesWhere_palette, Sheet.declarationsFor_append, Sheet.declarationsFor_append,
    declarationsFor_classes theme (by simp)]
  split <;> simp [Sheet.declarationsFor, Palette.rootRule, Palette.darkPageRule]

theorem declarationsFor_body_text :
    Sheet.declarationsFor "body" (theme.text.rulesWhere holds) =
      (Page.bodyRule theme).declarations := by
  simp [text, Sheet.titled, Sheet.rulesWhere, Block.rulesWhere, Sheet.declarationsFor,
    Page.bodyRule, Page.headingRule]

/-- Only the palette and the text section say anything about the page. -/
theorem declarationsFor_body_sheet :
    Sheet.declarationsFor "body" (theme.sheet.rulesWhere holds) =
      (if theme.darkMode && holds Palette.darkQuery then
        Palette.darkPageRule.declarations
      else []) ++ (Page.bodyRule theme).declarations := by
  have others : Sheet.declarationsFor "body" ((theme.grid :: theme.componentSheets ++
      theme.utilitySheets ++ [theme.transitions]).flatMap (Sheet.rulesWhere holds)) = [] := by
    apply Sheet.declarationsFor_of_dots (by simp)
    rw [List.forall_mem_flatMap]
    intro part known rule member
    exact head?_selector known (part.rulesWhere_subset holds member)
  calc
    Sheet.declarationsFor "body" (theme.sheet.rulesWhere holds) =
        Sheet.declarationsFor "body" (theme.palette.rulesWhere holds ++
          (theme.text.rulesWhere holds ++ (theme.grid :: theme.componentSheets ++
            theme.utilitySheets ++ [theme.transitions]).flatMap (Sheet.rulesWhere holds))) := by
      rw [sheet, Sheet.rulesWhere_merged]
      rfl
    _ = _ := by
      rw [Sheet.declarationsFor_append, Sheet.declarationsFor_append, others, List.append_nil,
        declarationsFor_body_palette, declarationsFor_body_text]

/-- What is declared for the page where dark pages are preferred. -/
def darkPage (theme : Theme) : List Declaration :=
  Sheet.declarationsFor "body" (theme.sheet.rulesWhere (· == Palette.darkQuery))

/-- Where dark pages are preferred, the page has its dark background and the text colour of light
pages, which the text section declares last. -/
theorem page_on_dark (theme : Theme) :
    lastValue? "color" theme.darkPage = some Page.textColor ∧
      lastValue? "background-color" theme.darkPage =
        if theme.darkMode then some Palette.darkBackground else none := by
  simp only [darkPage, declarationsFor_body_sheet, lastValue?_append]
  constructor
  · simp [Page.bodyRule, lastValue?_cons]
  · cases theme.darkMode <;> simp [Page.bodyRule, Palette.darkPageRule, lastValue?_cons]

/-- A theme that asks for nothing but its colours. -/
def ofColors (colors : Catalog Color) : Theme where
  colors := colors
  typography := ⟨"Inter", "Georgia"⟩
  layout := ⟨⟨.ofNat 1200, "px"⟩, 12, .empty⟩
  spacing := ⟨⟨.ofNat 16, "px"⟩, Spacing.defaultLineHeight⟩
  transition := .usual
  darkMode := false
  components := []
  utilities := []

/-- Any colours, fonts and groups of utility classes can be configured. -/
theorem exists_accepted_keeps (colors : Catalog Color) (typography : Typography)
    (utilities : List String) :
    ∃ text theme diagnostics, ofJson text = .ok theme ∧ theme.check = .ok diagnostics ∧
      { ofColors colors with typography, utilities }.Keeps theme := by
  have page : Length.parse "1200px" = .ok ⟨.ofNat 1200, "px"⟩ := by decide +kernel
  have unit : Length.parse "16px" = .ok ⟨.ofNat 16, "px"⟩ := by decide +kernel
  have few : 12 < 0x100000000 := by decide
  have wellFormed : { ofColors colors with typography, utilities }.WellFormed :=
    ⟨⟨Length.wellFormed_of_parse page, few, List.forall_mem_nil _⟩,
      Length.wellFormed_of_parse unit⟩
  have small : Spacing.defaultLineHeight.abs.le (.ofDecimal false 1 300) = true := by decide +kernel
  obtain ⟨theme, read, keeps⟩ := exists_ofJson_toJson wellFormed (by
    dsimp only [ofColors]
    exact small)
  have columns : theme.layout.columns = 12 := keeps.layout.columns
  have checked : theme.check = .ok theme.diagnostics := if_neg (by simp [columns])
  exact ⟨_, theme, theme.diagnostics, read, checked, keeps⟩

theorem exists_accepted (colors : Catalog Color) (typography : Typography) :
    ∃ text theme diagnostics, ofJson text = .ok theme ∧ theme.check = .ok diagnostics ∧
      theme.colors = colors ∧ theme.typography = typography := by
  obtain ⟨text, theme, diagnostics, read, checked, keeps⟩ :=
    exists_accepted_keeps colors typography []
  exact ⟨text, theme, diagnostics, read, checked, keeps.colors, keeps.typography⟩

/-- The text of dark pages never takes effect. -/
theorem page_on_dark_refuted : ¬ ∀ theme : Theme, theme.darkMode = true →
    lastValue? "color" theme.darkPage = some Palette.darkForeground ∧
      lastValue? "background-color" theme.darkPage = some Palette.darkBackground := by
  intro claim
  have text := (claim { ofColors .empty with darkMode := true } rfl).1
  rw [darkPage, declarationsFor_body_sheet, lastValue?_append] at text
  simp [Page.bodyRule, lastValue?_cons, Page.textColor, Palette.darkForeground] at text

theorem declarationsFor_root_palette : Sheet.declarationsFor ":root" theme.palette.topRules =
    (Palette.rootRule .onLight theme.colors).declarations := by
  rw [Sheet.topRules, rulesWhere_palette, Sheet.declarationsFor_append,
    Sheet.declarationsFor_append, declarationsFor_classes theme (by simp)]
  simp [Sheet.declarationsFor, Palette.rootRule]

/-- An entry declares a name at most once, so its first variant of that name is its last one. -/
theorem lastValue?_properties (name : String) (entry : String × Color) :
    lastValue? ("--color-" ++ name) (Palette.properties entry.1 (.onLight entry.2)) =
      (Palette.shadeCalled? name entry).map Color.hex := by
  obtain ⟨own, color⟩ := entry
  have apart {first second : String} (left : own ++ first = name) (right : own ++ second = name) :
      first = second := (String.append_right_inj own).mp (left.trans right.symm)
  have notLight (same : own ++ "" = name) : ¬ own ++ "-light" = name :=
    fun light => absurd (apart same light) (by decide)
  have notDark (same : own ++ "" = name) : ¬ own ++ "-dark" = name :=
    fun dark => absurd (apart same dark) (by decide)
  have notBoth (light : own ++ "-light" = name) : ¬ own ++ "-dark" = name :=
    fun dark => absurd (apart light dark) (by decide)
  simp only [Palette.shadeCalled?, Palette.properties_eq_map, Palette.variants, List.map_cons,
    List.map_nil, lastValue?_cons, lastValue?_nil, Palette.property_eq, String.append_right_inj,
    List.find?_cons, List.find?_nil, Option.none_or]
  by_cases base : own ++ "" = name
  · simp only [base, notLight base, notDark base, beq_self_eq_true, ↓reduceIte, Option.none_or,
      Option.map_some]
  · by_cases light : own ++ "-light" = name
    · simp only [beq_eq_false_iff_ne.mpr base, light, notBoth light, beq_self_eq_true, ↓reduceIte,
        Option.none_or, Option.some_or, Option.map_some]
    · by_cases dark : own ++ "-dark" = name
      · simp only [beq_eq_false_iff_ne.mpr base, beq_eq_false_iff_ne.mpr light, dark,
          beq_self_eq_true, ↓reduceIte, Option.some_or, Option.map_some]
      · simp only [beq_eq_false_iff_ne.mpr base, beq_eq_false_iff_ne.mpr light,
          beq_eq_false_iff_ne.mpr dark, base, light, dark, ↓reduceIte, Option.none_or,
          Option.map_none]

/-- The shade of a name is that of the last entry that gives the name one. -/
theorem lastValue?_root (name : String) :
    lastValue? ("--color-" ++ name) (Sheet.declarationsFor ":root" theme.palette.topRules) =
      (theme.colors.entries.reverse.findSome? (Palette.shadeCalled? name)).map Color.hex := by
  rw [declarationsFor_root_palette, Palette.rootRule, lastValue?_flatMap, List.map_findSome?]
  congr 1
  funext entry
  exact lastValue?_properties name entry

theorem shadeCalled?_own {name suffix : String} {color shade : Color}
    (variant : (suffix, shade) ∈ Palette.variants (.onLight color)) :
    Palette.shadeCalled? (name ++ suffix) (name, color) = some shade := by
  have same (first second : String) : (name ++ first == name ++ second) = (first == second) := by
    rw [Bool.eq_iff_iff, beq_iff_eq, beq_iff_eq, String.append_right_inj]
  simp only [Palette.variants, List.mem_cons, Prod.mk.injEq, List.not_mem_nil, or_false] at variant
  simp only [Palette.shadeCalled?, Palette.variants, List.find?_cons, same]
  rcases variant with ⟨rfl, rfl⟩ | ⟨rfl, rfl⟩ | ⟨rfl, rfl⟩ <;> rfl

/-- A property of a colour has the shade that the colour gives it, unless a later entry gives its
own shade to a property of the same name. -/
theorem palette_shade {before after : List (String × Color)} {name suffix : String}
    {color shade : Color} (place : theme.colors.entries = before ++ (name, color) :: after)
    (variant : (suffix, shade) ∈ Palette.variants (.onLight color)) :
    lastValue? (Palette.property name suffix)
        (Sheet.declarationsFor ":root" theme.palette.topRules) =
      some ((after.reverse.findSome? (Palette.shadeCalled? (name ++ suffix))).getD shade).hex := by
  rw [Palette.property_eq, lastValue?_root, place, List.reverse_append, List.reverse_cons,
    List.append_assoc, List.findSome?_append, List.findSome?_append, List.findSome?_singleton,
    shadeCalled?_own variant, Option.some_or]
  cases after.reverse.findSome? (Palette.shadeCalled? (name ++ suffix)) <;> rfl

/-- A red colour that is named like the light variant of the blue one behind it. -/
def shore : Catalog Color := ⟨[("sea-light", ⟨0xff, 0, 0⟩), ("sea", ⟨0, 0x66, 0xcc⟩)], by decide⟩

/-- The light variant takes the place of the colour that is named like it. -/
theorem palette_shade_seaLight :
    lastValue? "--color-sea-light"
        (Sheet.declarationsFor ":root" (ofColors shore).palette.topRules) = some "#2e82d5" := by
  have place : (ofColors shore).colors.entries =
      [] ++ ("sea-light", ⟨0xff, 0, 0⟩) :: [("sea", ⟨0, 0x66, 0xcc⟩)] := rfl
  have variant : ("", ⟨0xff, 0, 0⟩) ∈ Palette.variants (.onLight ⟨0xff, 0, 0⟩) := List.mem_cons_self
  calc
    _ = some ((([("sea", ⟨0, 0x66, 0xcc⟩)] : List (String × Color)).reverse.findSome?
          (Palette.shadeCalled? ("sea-light" ++ ""))).getD ⟨0xff, 0, 0⟩).hex :=
      (ofColors shore).palette_shade place variant
    _ = some "#2e82d5" := by decide +kernel

/-- Not every colour that is configured takes effect. -/
theorem palette_shade_refuted : ¬ ∀ (text : String) (theme : Theme) (diagnostics : List Diagnostic),
    ofJson text = .ok theme → theme.check = .ok diagnostics → ∀ entry ∈ theme.colors.entries,
      ∀ variant ∈ Palette.variants (.onLight entry.2),
        lastValue? (Palette.property entry.1 variant.1)
          (Sheet.declarationsFor ":root" theme.palette.topRules) = some variant.2.hex := by
  intro claim
  have page : Length.parse "1200px" = .ok ⟨.ofNat 1200, "px"⟩ := by decide +kernel
  have unit : Length.parse "16px" = .ok ⟨.ofNat 16, "px"⟩ := by decide +kernel
  have wellFormed : (ofColors shore).WellFormed :=
    ⟨⟨Length.wellFormed_of_parse page, by decide, List.forall_mem_nil _⟩,
      Length.wellFormed_of_parse unit⟩
  have small : Spacing.defaultLineHeight.abs.le (.ofDecimal false 1 300) = true := by decide +kernel
  obtain ⟨theme, read, keeps⟩ := exists_ofJson_toJson wellFormed (by
    dsimp only [ofColors]
    exact small)
  have columns : theme.layout.columns ≠ 0 := by
    rw [keeps.layout.columns]
    decide
  have checked : theme.check = .ok theme.diagnostics := if_neg columns
  have entries : theme.colors.entries =
      [("sea-light", ⟨0xff, 0, 0⟩), ("sea", ⟨0, 0x66, 0xcc⟩)] := by
    rw [keeps.colors]
    rfl
  have own := claim (ofColors shore).toJson theme theme.diagnostics read checked ("sea-light", ⟨0xff, 0, 0⟩)
    (by rw [entries]; exact List.mem_cons_self) ("", ⟨0xff, 0, 0⟩) List.mem_cons_self
  have shade := theme.lastValue?_root "sea-light"
  rw [entries] at shade
  rw [Palette.property_eq] at own
  have clash := own.symm.trans shade
  revert clash
  decide +kernel

end Theme

end ThemeCss
