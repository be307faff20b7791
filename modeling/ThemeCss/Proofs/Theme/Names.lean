import ThemeCss.Proofs.Sheet.Identifier
import ThemeCss.Proofs.Theme.Palette
import ThemeCss.Proofs.Theme.Stems

/-! # Names of custom properties

The name of a colour goes two ways into the palette. For the classes of the colour it is escaped, so
that it is part of an identifier whatever characters it has. The names of its custom properties have
it as it is: these are identifiers only if the name of the colour is the text of one.
-/

namespace ThemeCss

/-- A value that is a colour and no reference. -/
def IsHexValue (value : String) : Prop := value.toList.head? = some '#'

instance (value : String) : Decidable (IsHexValue value) :=
  inferInstanceAs (Decidable (value.toList.head? = some '#'))

theorem IsHexValue.ne_reference {value : String} (hex : IsHexValue value) (name : String) :
    value ≠ "var(" ++ name ++ ")" := by
  rintro rfl
  simp [IsHexValue] at hex

theorem Color.isHexValue_hex (color : Color) : IsHexValue color.hex := by
  rw [IsHexValue, hex, String.toList_ofList]
  rfl

namespace Palette

variable {color suffix : String}

/-- In front of the name of a colour and behind it stand plain characters. -/
theorem isIdentifierText_property (known : suffix ∈ suffixes)
    (text : IsIdentifierText color.toList) : IsIdentifierText (property color suffix).toList := by
  have front : ("--color-".toList.all isIdentifierChar) = true := rfl
  have behind : (suffixes.all fun suffix => suffix.toList.all isIdentifierChar) = true := rfl
  rw [property_eq, String.toList_append, String.toList_append,
    IsIdentifierText.append_iff (List.all_eq_true.mp front)]
  exact text.append (.of_plain (List.all_eq_true.mp (List.all_eq_true.mp behind suffix known)))

theorem isIdentifierText_property_iff :
    IsIdentifierText (property color "").toList ↔ IsIdentifierText color.toList := by
  have front : ("--color-".toList.all isIdentifierChar) = true := rfl
  rw [property_eq, String.append_empty, String.toList_append,
    IsIdentifierText.append_iff (List.all_eq_true.mp front)]

/-- A class has no end of a line in its name that its colour does not have. -/
theorem isLineEnd_of_mem_classes (lines : ∀ c ∈ color.toList, isLineEnd c = false)
    {utility : UtilityClass} (known : utility ∈ classes color) :
    ∀ c ∈ utility.name.toList, isLineEnd c = false := by
  have table : (uses.all fun use => (use.1 ++ "-").toList.all (!isLineEnd ·) &&
      use.2.toList.all (!isLineEnd ·)) = true := rfl
  have named : utility.name ∈ (classes color).map (·.name) := List.mem_map_of_mem known
  rw [names_classes, List.mem_map] at named
  obtain ⟨use, listed, same⟩ := named
  have plain := List.all_eq_true.mp table use listed
  rw [Bool.and_eq_true, List.all_eq_true, List.all_eq_true] at plain
  rw [← same, className, String.toList_append, String.toList_append, List.forall_mem_append,
    List.forall_mem_append]
  exact ⟨⟨by simpa using plain.1, lines⟩, by simpa using plain.2⟩

end Palette

namespace Theme

/-- The palette declares the custom property in a rule for the root, or one of its classes refers to
it. -/
def PaletteUses (theme : Theme) (name : String) : Prop :=
  ∃ rule ∈ theme.palette.rules, ∃ declaration ∈ rule.declarations,
    (rule.selector = ":root" ∧ declaration.property = name) ∨
      declaration.value = "var(" ++ name ++ ")"

variable {theme : Theme} {name : String}

/-- For the root the palette declares properties of the configured colours. Anywhere else it sets
other properties, to a reference to one of them or to a colour. -/
theorem declaration_of_mem_palette {rule : StyleRule} (member : rule ∈ theme.palette.rules)
    {declaration : Declaration} (inside : declaration ∈ rule.declarations) :
    (rule.selector = ":root" ∧ IsHexValue declaration.value ∧
        ∃ color ∈ theme.colors.names, ∃ suffix ∈ Palette.suffixes,
          declaration.property = Palette.property color suffix) ∨
      (rule.selector ≠ ":root" ∧ (IsHexValue declaration.value ∨
        ∃ color ∈ theme.colors.names, ∃ suffix ∈ Palette.suffixes,
          declaration.value = Palette.reference color suffix)) := by
  rcases rule_of_mem_palette member with rfl | ⟨utility, known, label, rfl⟩ | rfl | rfl
  · obtain ⟨color, known, suffix, variant, shade, rfl⟩ := Palette.declaration_of_mem_rootRule inside
    exact .inl ⟨rfl, shade.isHexValue_hex, color, known, suffix, variant, rfl⟩
  · have dotted : (utility.rule label).selector ≠ ":root" := by
      intro root
      have first := utility.head?_selector label
      rw [root] at first
      exact absurd first (by simp)
    have texts : ∀ text ∈ [Palette.textOnLight, Palette.textOnDark], IsHexValue text := by decide
    obtain ⟨color, configured, known⟩ := List.mem_flatMap.mp known
    rcases (Palette.declaration_of_mem_classes known inside).2 with
      ⟨suffix, variant, value⟩ | fixed
    · exact .inr ⟨dotted, .inr ⟨color, configured, suffix, variant, value⟩⟩
    · exact .inr ⟨dotted, .inl (texts _ fixed)⟩
  · obtain ⟨color, known, suffix, variant, shade, rfl⟩ := Palette.declaration_of_mem_rootRule inside
    exact .inl ⟨rfl, shade.isHexValue_hex, color, known, suffix, variant, rfl⟩
  · have texts : ∀ declaration ∈ Palette.darkPageRule.declarations,
        IsHexValue declaration.value := by decide
    exact .inr ⟨by decide, .inl (texts declaration inside)⟩

/-- The palette declares the properties of the configured colours and refers to no others. -/
theorem paletteUses_iff : theme.PaletteUses name ↔
    ∃ color ∈ theme.colors.names, ∃ suffix ∈ Palette.suffixes,
      name = Palette.property color suffix := by
  constructor
  · rintro ⟨rule, member, declaration, inside, use⟩
    rcases declaration_of_mem_palette member inside with
      ⟨-, hex, color, known, suffix, variant, declared⟩ |
        ⟨elsewhere, hex | ⟨color, known, suffix, variant, referred⟩⟩
    · rcases use with ⟨-, declares⟩ | refers
      · exact ⟨color, known, suffix, variant, declares.symm.trans declared⟩
      · exact absurd refers (hex.ne_reference name)
    · rcases use with ⟨root, -⟩ | refers
      · exact absurd root elsewhere
      · exact absurd refers (hex.ne_reference name)
    · rcases use with ⟨root, -⟩ | refers
      · exact absurd root elsewhere
      · rw [refers, Palette.reference_eq, String.append_left_inj,
          String.append_right_inj] at referred
        exact ⟨color, known, suffix, variant, referred⟩
  · rintro ⟨color, known, suffix, variant, rfl⟩
    have declared := property_mem_customProperties known variant
    rw [customProperties, declarationsFor_root_palette, List.mem_map] at declared
    obtain ⟨declaration, inside, same⟩ := declared
    exact ⟨_, List.mem_cons_self, declaration, inside, .inl ⟨rfl, same⟩⟩

/-- The custom properties of the palette are identifiers if and only if the names of all colours are
texts of identifiers. For the classes they need not be: there each name without an end of a line is
made one. -/
theorem paletteUses_identifiers (theme : Theme) :
    ((∀ name, theme.PaletteUses name → IsIdentifierText name.toList) ↔
        ∀ color ∈ theme.colors.names, IsIdentifierText color.toList) ∧
      ∀ color ∈ theme.colors.names, (∀ c ∈ color.toList, isLineEnd c = false) →
        ∀ utility ∈ Palette.classes color, IsIdentifierText (escapeClass utility.name).toList := by
  refine ⟨⟨fun used color known => ?_, fun texts name used => ?_⟩, ?_⟩
  · have base : theme.PaletteUses (Palette.property color "") :=
      paletteUses_iff.mpr ⟨color, known, "", by decide, rfl⟩
    exact Palette.isIdentifierText_property_iff.mp (used _ base)
  · obtain ⟨color, known, suffix, variant, rfl⟩ := paletteUses_iff.mp used
    exact Palette.isIdentifierText_property variant (texts color known)
  · intro color _ lines utility known
    rw [escapeClass, String.toList_ofList]
    exact isIdentifierText_escapeName (Palette.isLineEnd_of_mem_classes lines known)

/-- A colour with a blank in its name. -/
def foam : Catalog Color := ⟨[("sea foam", ⟨0x9f, 0xe2, 0xbf⟩)], by decide⟩

theorem not_isIdentifierText_foam : ¬ IsIdentifierText "sea foam".toList := by
  have front : ("sea".toList.all isIdentifierChar) = true := rfl
  have split : "sea foam".toList = "sea".toList ++ ' ' :: "foam".toList := rfl
  rw [split, IsIdentifierText.append_iff (List.all_eq_true.mp front),
    IsIdentifierText.cons_iff (by decide)]
  exact fun text => absurd text.1 (by decide)

/-- The blank is escaped in the selectors of the classes, and is left as it is in the names of the
properties. -/
theorem paletteUses_identifiers_foam :
    (∀ c ∈ "sea foam".toList, isLineEnd c = false) ∧
      IsIdentifierText (escapeClass (Palette.borderClass "sea foam").name).toList ∧
      ¬ ∀ name, (ofColors foam).PaletteUses name → IsIdentifierText name.toList := by
  have plain : ("sea foam".toList.all (!isLineEnd ·)) = true := rfl
  have lines : ∀ c ∈ "sea foam".toList, isLineEnd c = false := by
    simpa only [List.all_eq_true, Bool.not_eq_true'] using plain
  have configured : "sea foam" ∈ (ofColors foam).colors.names := List.mem_cons_self
  obtain ⟨properties, selectors⟩ := (ofColors foam).paletteUses_identifiers
  have border : Palette.borderClass "sea foam" ∈ Palette.classes "sea foam" :=
    List.mem_append_right _ List.mem_cons_self
  refine ⟨lines, selectors _ configured lines _ border, fun texts => ?_⟩
  exact not_isIdentifierText_foam (properties.mp texts _ configured)

/-- Not every name that can be configured makes identifiers of the custom properties. -/
theorem paletteUses_identifiers_refuted : ¬ ∀ (text : String) (theme : Theme)
    (diagnostics : List Diagnostic), ofJson text = .ok theme → theme.check = .ok diagnostics →
      ∀ name, theme.PaletteUses name → IsIdentifierText name.toList := by
  intro claim
  obtain ⟨text, theme, diagnostics, read, checked, colors, -⟩ :=
    exists_accepted foam ⟨"Inter", "Georgia"⟩
  have used : theme.PaletteUses (Palette.property "sea foam" "") := by
    rw [paletteUses_iff, colors]
    exact ⟨"sea foam", by decide, "", by decide, rfl⟩
  have whole := claim text theme diagnostics read checked _ used
  exact not_isIdentifierText_foam (Palette.isIdentifierText_property_iff.mp whole)

end Theme

end ThemeCss
