import ThemeCss.Proofs.Sheet.Variables
import ThemeCss.Proofs.Theme.Cascade
import ThemeCss.Theme.Error

/-! # The custom properties that a theme refers to

The palette declares the custom properties, the utility classes of colours, the button and the tones
of alerts refer to them. A tone without a colour is left out, the button is not: without a primary
colour it refers to nothing. All other values are constant as long as the texts of the theme are.
-/

namespace ThemeCss

namespace Binary64

theorem isNumberChar_of_mem_fixed {places : Nat} {number : Binary64}
    (finite : number.isFinite = true) {c : Char} (member : c ∈ (number.fixed places).toList) :
    Length.isNumberChar c = true := by
  obtain ⟨negative, magnitude, rfl⟩ := exists_of_isFinite finite
  have signed : c = '-' ∨ c ∈ Nat.toDigits 10 (magnitude.scaled places / Nat.pow 10 places) ++
      '.' :: paddedDigits places (magnitude.scaled places % Nat.pow 10 places) := by
    rw [fixed, String.toList_ofList] at member
    split at member
    · exact List.mem_cons.mp member
    · exact .inr member
  rw [List.mem_append, List.mem_cons] at signed
  rcases signed with rfl | whole | rfl | place
  · rfl
  · exact isNumberChar_of_isDigit (Nat.isDigit_of_mem_toDigits (by decide) (by decide) whole)
  · rfl
  · exact isNumberChar_of_isDigit (isDigit_of_mem_paddedDigits place)

theorem not_mem_specialText (number : Binary64) : 'v' ∉ number.specialText.toList := by
  rw [specialText.eq_def]
  split <;> decide

theorem not_mem_compact (number : Binary64) : 'v' ∉ number.compact.toList := by
  by_cases finite : number.isFinite = true
  · exact fun member => absurd (isNumberChar_of_mem_compact finite member) (by decide)
  · cases number with
    | finite => contradiction
    | _ => exact not_mem_specialText _

theorem not_mem_fixed (places : Nat) (number : Binary64) :
    'v' ∉ (number.fixed places).toList := by
  by_cases finite : number.isFinite = true
  · exact fun member => absurd (isNumberChar_of_mem_fixed finite member) (by decide)
  · cases number with
    | finite => contradiction
    | _ => exact not_mem_specialText _

end Binary64

theorem IsConstant.hex (color : Color) : IsConstant color.hex :=
  .of_not_mem fun member => by
    rcases Color.mem_hex member with same | ⟨digit, small, same⟩
    · exact absurd same (by decide)
    · interval_cases digit <;> exact absurd same (by decide)

theorem IsConstant.length_text {length : Length} (unit : IsConstant length.unit) :
    IsConstant length.text := .append length.value.not_mem_compact unit

theorem IsConstant.columnWidth (column columns : Nat) :
    IsConstant (Page.columnWidth column columns) :=
  .append (Binary64.not_mem_fixed 4 _) (by decide)

/-- Names of colours need no escapes, and no text of the theme refers to a custom property. -/
structure Theme.SelfContained (theme : Theme) : Prop where
  colors : ∀ name ∈ theme.colors.names, ∀ c ∈ name.toList, isNameChar c = true
  main : IsConstant theme.typography.main
  headlines : IsConstant theme.typography.headlines
  duration : IsConstant theme.transition.duration
  easing : IsConstant theme.transition.easing
  container : IsConstant theme.layout.container.unit
  baseUnit : IsConstant theme.spacing.baseUnit.unit

/-- The declarations of all classes are constant. -/
def ConstantClasses (classes : List UtilityClass) : Prop :=
  ∀ utility ∈ classes, ∀ declaration ∈ utility.declarations, IsConstant declaration.value

instance (classes : List UtilityClass) : Decidable (ConstantClasses classes) :=
  inferInstanceAs (Decidable (∀ utility ∈ classes, ∀ declaration ∈ utility.declarations,
    IsConstant declaration.value))

theorem ConstantClasses.rule {classes : List UtilityClass} (constant : ConstantClasses classes)
    {rule : StyleRule} (utility : rule.IsOf classes) : rule.IsConstant := by
  obtain ⟨utility, known, label, rfl⟩ := utility
  exact constant utility known

theorem constant_sideDeclarations {value : String} (constant : IsConstant value)
    (property : String) (sides : List String) :
    ∀ declaration ∈ Utilities.sideDeclarations property sides value,
      IsConstant declaration.value := by
  rw [Utilities.sideDeclarations.eq_def]
  split
  · exact List.forall_mem_singleton.mpr constant
  · exact List.forall_mem_map.mpr fun _ _ => constant

theorem constant_rootRule (shades : Color → Shades) (colors : Catalog Color) :
    (Palette.rootRule shades colors).IsConstant := by
  rw [StyleRule.IsConstant, Palette.rootRule, List.forall_mem_flatMap]
  intro entry _
  simp only [Palette.properties, List.forall_mem_cons, List.not_mem_nil, false_imp_iff,
    implies_true, and_true]
  exact ⟨.hex _, .hex _, .hex _⟩

namespace Theme.SelfContained

variable {theme : Theme} (own : theme.SelfContained) {rule : StyleRule}

include own

theorem timing : IsConstant theme.transition.timing := own.duration.spaced own.easing

theorem unit : IsConstant theme.spacing.baseUnit.text := .length_text own.baseUnit

theorem units (factor : Binary64) : IsConstant (Components.units theme factor) :=
  IsConstant.length_text own.baseUnit

/-- Two movements with the theme's timing. -/
theorem movement {front : String} (absent : 'v' ∉ front.toList) :
    IsConstant (front ++ theme.transition.timing ++ ", transform " ++ theme.transition.timing) :=
  (IsConstant.append absent own.timing).between (by decide) ⟨',', rfl, by decide⟩ own.timing

theorem text (member : rule ∈ theme.text.rules) : rule.IsConstant := by
  have lineHeight : IsConstant (Page.lineHeight theme.spacing.lineHeight) :=
    .append (Binary64.not_mem_compact _) (by decide)
  rcases rule_of_mem_text member with rfl | rfl
  · simp only [StyleRule.IsConstant, Page.bodyRule, List.forall_mem_cons, List.not_mem_nil,
      false_imp_iff, implies_true, and_true]
    exact ⟨own.main, lineHeight, by decide⟩
  · simp only [StyleRule.IsConstant, Page.headingRule, List.forall_mem_cons, List.not_mem_nil,
      false_imp_iff, implies_true, and_true]
    exact ⟨own.headlines, by decide, by decide⟩

theorem grid (member : rule ∈ theme.grid.rules) : rule.IsConstant := by
  have unit := own.unit
  rcases rule_of_mem_grid member with rfl | rfl | utility
  · simp only [StyleRule.IsConstant, Page.containerRule, List.forall_mem_cons, List.not_mem_nil,
      false_imp_iff, implies_true, and_true]
    exact ⟨by decide, .length_text own.container, by decide, by decide, unit, unit⟩
  · simp only [StyleRule.IsConstant, Page.rowRule, List.forall_mem_cons, List.not_mem_nil,
      false_imp_iff, implies_true, and_true]
    exact ⟨by decide, by decide, unit⟩
  · refine ConstantClasses.rule ?_ utility
    rw [ConstantClasses, Page.columnClasses, List.forall_mem_map]
    intro before _
    have width := IsConstant.columnWidth (before + 1) theme.layout.columns
    exact List.forall_mem_cons.mpr ⟨.append (by decide) width, List.forall_mem_singleton.mpr width⟩

theorem group {group : UtilityGroup} (member : rule ∈ (group.sheet theme).rules) :
    rule.IsConstant := by
  refine ConstantClasses.rule ?_ (rule_of_mem_group member)
  cases group with
  | spacing =>
    rw [ConstantClasses, UtilityGroup.classes, Utilities.spacingClasses, List.forall_mem_flatMap]
    rintro ⟨property, letter⟩ _
    rw [List.forall_mem_flatMap]
    rintro ⟨direction, sides⟩ _
    simp only [Utilities.stepClasses, List.forall_mem_map]
    rintro ⟨step, index⟩ _
    exact constant_sideDeclarations (own.units step) property sides
  | flex => exact (by decide : ConstantClasses Utilities.flexClasses)
  | color => exact (by decide : ConstantClasses Utilities.colorClasses)
  | image => exact (by decide : ConstantClasses Utilities.imageClasses)

theorem transitions (member : rule ∈ theme.transitions.rules) : rule.IsConstant := by
  refine ConstantClasses.rule ?_ (rule_of_mem_transitions member)
  have timing := own.timing
  have color : IsConstant ("color " ++ theme.transition.timing) := .append (by decide) timing
  have colors : IsConstant ("color " ++ theme.transition.timing ++ ", background-color " ++
      theme.transition.timing ++ ", border-color " ++ theme.transition.timing) :=
    (color.between (by decide) ⟨',', rfl, by decide⟩ timing).between (by decide)
      ⟨',', rfl, by decide⟩ timing
  simp only [ConstantClasses, Utilities.transitionClasses, List.forall_mem_cons, List.not_mem_nil,
    false_imp_iff, implies_true, and_true]
  exact ⟨.append (by decide) timing, colors, .append (by decide) timing, by decide⟩

theorem card (member : rule ∈ (Components.card theme).rules) : rule.IsConstant := by
  have movement := @Theme.SelfContained.movement theme own "box-shadow " (by decide)
  have rules : ∀ rule ∈ (Components.card theme).rules, rule.IsConstant := by
    simp only [Components.card, Sheet.rules_titled, List.flatMap_cons, List.flatMap_nil,
      Block.rules, List.singleton_append, List.forall_mem_cons, List.not_mem_nil, false_imp_iff,
      implies_true, and_true, StyleRule.IsConstant]
    exact ⟨⟨by decide, by decide, by decide, own.units _, by decide, movement⟩,
      ⟨by decide, by decide⟩, own.unit⟩
  exact rules rule member

end Theme.SelfContained

namespace Palette

variable {name suffix : String}

theorem reference_eq (name suffix : String) :
    reference name suffix = "var(" ++ property name suffix ++ ")" := rfl

/-- A reference to a colour refers to its property alone. -/
theorem variablesIn_reference (plain : ∀ c ∈ name.toList, isNameChar c = true)
    (known : suffix ∈ suffixes) :
    variablesIn (reference name suffix).toList = [property name suffix] := by
  have suffixPlain : (suffixes.all fun suffix => suffix.toList.all isNameChar) = true := rfl
  have frontPlain : ("--color-".toList.all isNameChar) = true := rfl
  have letters : ∀ c ∈ (property name suffix).toList, isNameChar c = true := by
    rw [property_eq, String.toList_append, String.toList_append, List.forall_mem_append,
      List.forall_mem_append]
    exact ⟨List.all_eq_true.mp frontPlain, plain,
      List.all_eq_true.mp (List.all_eq_true.mp suffixPlain suffix known)⟩
  have plainMarks : ∀ c ∈ (property name suffix).toList, c ≠ '(' ∧ c ≠ ')' ∧ c ≠ ',' := by
    intro c member
    have letter := letters c member
    refine ⟨?_, ?_, ?_⟩ <;>
    · rintro rfl
      exact absurd letter (by decide)
  have whole : (reference name suffix).toList =
      opening ++ ((property name suffix).toList ++ [')']) := by
    rw [reference_eq, String.toList_append, String.toList_append, List.append_assoc]
    rfl
  rw [whole, ThemeCss.variablesIn_reference plainMarks, String.ofList_toList]

/-- The classes of a colour refer to its properties alone. -/
theorem variables_of_isOf_classes (plain : ∀ c ∈ name.toList, isNameChar c = true)
    {rule : StyleRule} (utility : rule.IsOf (classes name)) {target : String}
    (refers : target ∈ rule.variables) : ∃ suffix ∈ suffixes, target = property name suffix := by
  obtain ⟨utility, known, label, rfl⟩ := utility
  have own {suffix : String} (known : suffix ∈ suffixes)
      (refers : target ∈ variablesIn (reference name suffix).toList) :
      ∃ suffix ∈ suffixes, target = property name suffix := by
    rw [variablesIn_reference plain known, List.mem_singleton] at refers
    exact ⟨suffix, known, refers⟩
  rw [classes, List.mem_append, List.mem_append, List.mem_map, List.mem_map,
    List.mem_singleton] at known
  rw [StyleRule.variables, List.mem_flatMap] at refers
  obtain ⟨declaration, inside, refers⟩ := refers
  rcases known with (⟨suffix, known, rfl⟩ | ⟨suffix, known, rfl⟩) | rfl
  · obtain rfl := List.mem_singleton.mp inside
    exact own known refers
  · rcases List.mem_cons.mp inside with rfl | text
    · exact own known refers
    · obtain rfl := List.mem_singleton.mp text
      have constant : IsConstant (if suffix = "-dark" then textOnDark else textOnLight) := by
        split <;> decide
      rw [constant.variables_eq_nil] at refers
      contradiction
  · obtain rfl := List.mem_singleton.mp inside
    exact own (by decide) refers

end Palette

namespace Theme

variable {theme : Theme} {rule : StyleRule} {target : String}

/-- The custom properties that the palette declares for all pages. -/
def customProperties (theme : Theme) : List String :=
  (Sheet.declarationsFor ":root" theme.palette.topRules).map (·.property)

theorem customProperties_eq (theme : Theme) : theme.customProperties =
    theme.colors.names.flatMap fun name => Palette.suffixes.map (Palette.property name) := by
  rw [customProperties, declarationsFor_root_palette, Palette.rootRule, List.map_flatMap,
    Catalog.names, List.flatMap_map]
  rfl

/-- The properties of a colour are declared. -/
theorem property_mem_customProperties {name suffix : String} (known : name ∈ theme.colors.names)
    (variant : suffix ∈ Palette.suffixes) :
    Palette.property name suffix ∈ theme.customProperties := by
  rw [customProperties_eq, List.mem_flatMap]
  exact ⟨name, known, List.mem_map_of_mem variant⟩

theorem SelfContained.variables_palette (own : theme.SelfContained)
    (member : rule ∈ theme.palette.rules) (refers : target ∈ rule.variables) :
    target ∈ theme.customProperties := by
  rcases rule_of_mem_palette member with rfl | ⟨utility, known, label, same⟩ | rfl | rfl
  · exact absurd refers ((constant_rootRule .onLight theme.colors).not_mem_variables target)
  · obtain ⟨name, configured, known⟩ := List.mem_flatMap.mp known
    obtain ⟨suffix, variant, rfl⟩ := Palette.variables_of_isOf_classes
      (own.colors name configured) ⟨utility, known, label, same⟩ refers
    exact property_mem_customProperties configured variant
  · exact absurd refers ((constant_rootRule .onDark theme.colors).not_mem_variables target)
  · have constant : Palette.darkPageRule.IsConstant := by
      simp only [StyleRule.IsConstant, Palette.darkPageRule, List.forall_mem_cons, List.not_mem_nil,
        false_imp_iff, implies_true, and_true]
      decide
    exact absurd refers (constant.not_mem_variables target)

/-- The button refers to two properties of the primary colour, whether there is one or not. -/
theorem SelfContained.variables_button (own : theme.SelfContained)
    (member : rule ∈ (Components.button theme).rules) (refers : target ∈ rule.variables) :
    target ∈ ["--color-primary", "--color-primary-dark"] := by
  have half := own.units Components.half
  have padding := half.spaced (own.units Components.oneAndAHalf)
  have movement := @SelfContained.movement theme own "background-color " (by decide)
  have constant {value : String} (constant : IsConstant value) :
      variablesIn value.toList ⊆ ["--color-primary", "--color-primary-dark"] := by
    rw [constant.variables_eq_nil]
    exact List.nil_subset _
  have rules : ∀ rule ∈ (Components.button theme).rules, ∀ declaration ∈ rule.declarations,
      variablesIn declaration.value.toList ⊆ ["--color-primary", "--color-primary-dark"] := by
    simp only [Components.button, Sheet.rules_titled, List.flatMap_cons, List.flatMap_nil,
      Block.rules, List.singleton_append, List.forall_mem_cons, List.not_mem_nil, false_imp_iff,
      implies_true, and_true]
    -- What the theme brings along is in three declarations; the others are evaluated.
    refine ⟨⟨?_, ?_, ?_, constant half, constant padding, ?_, ?_, ?_, ?_, ?_, ?_, ?_, ?_, ?_,
      constant movement⟩, ?_, ?_, ?_⟩
    all_goals decide +kernel
  obtain ⟨declaration, inside, refers⟩ := List.mem_flatMap.mp refers
  exact rules rule member declaration inside refers

/-- An alert refers to the properties of the tones that are configured. -/
theorem SelfContained.variables_alert (own : theme.SelfContained)
    (member : rule ∈ (Components.alert theme).rules) (refers : target ∈ rule.variables) :
    target ∈ theme.customProperties := by
  have gap := own.units Components.threeQuarters
  have rules : rule.IsConstant ∨
      ∃ tone ∈ tones.filter theme.colors.contains, rule = Components.toneRule tone := by
    rw [Components.alert, Sheet.rules_titled, List.flatMap_cons, List.mem_append,
      List.flatMap_map, List.mem_flatMap] at member
    rcases member with same | ⟨tone, known, same⟩
    · left
      rw [List.mem_singleton.mp same]
      simp only [StyleRule.IsConstant, List.forall_mem_cons, List.not_mem_nil, false_imp_iff,
        implies_true, and_true]
      exact ⟨by decide, by decide, gap, gap.spaced own.unit, by decide, by decide⟩
    · exact .inr ⟨tone, known, List.mem_singleton.mp same⟩
  rcases rules with constant | ⟨tone, known, rfl⟩
  · exact absurd refers (constant.not_mem_variables target)
  · have configured : tone ∈ theme.colors.names :=
      List.contains_iff_mem.mp (List.mem_filter.mp known).2
    have plain := own.colors tone configured
    have refersTo : target ∈ (["-light", "", "-dark"].map (Palette.property tone)) := by
      simp only [StyleRule.variables, Components.toneRule, List.flatMap_cons, List.flatMap_nil,
        Palette.variablesIn_reference plain (by decide : "-light" ∈ Palette.suffixes),
        Palette.variablesIn_reference plain (by decide : "" ∈ Palette.suffixes),
        Palette.variablesIn_reference plain (by decide : "-dark" ∈ Palette.suffixes)] at refers
      exact refers
    obtain ⟨suffix, variant, rfl⟩ := List.mem_map.mp refersTo
    have known : ["-light", "", "-dark"] ⊆ Palette.suffixes := by decide
    exact property_mem_customProperties configured (known variant)

/-- Every property that a theme refers to is declared, but for the primary colour of buttons. -/
theorem SelfContained.variables_sheet (own : theme.SelfContained)
    (refers : target ∈ theme.sheet.variables) :
    target ∈ theme.customProperties ∨
      (theme.has .button = true ∧ "primary" ∉ theme.colors.names) ∧
        target ∈ ["--color-primary", "--color-primary-dark"] := by
  obtain ⟨rule, member, refers⟩ := List.mem_flatMap.mp refers
  have constant (constant : rule.IsConstant) : False := constant.not_mem_variables target refers
  rcases mem_rules_sheet.mp member with
    palette | text | grid | ⟨component, known, inside⟩ | ⟨group, -, inside⟩ | transitions
  · exact .inl (own.variables_palette palette refers)
  · exact (constant (own.text text)).elim
  · exact (constant (own.grid grid)).elim
  · cases component with
    | button =>
      have primary := own.variables_button inside refers
      by_cases configured : "primary" ∈ theme.colors.names
      · left
        have variants : ["--color-primary", "--color-primary-dark"] ⊆
          Palette.suffixes.map (Palette.property "primary") := by decide
        obtain ⟨suffix, variant, rfl⟩ := List.mem_map.mp (variants primary)
        exact property_mem_customProperties configured variant
      · exact .inr ⟨⟨mem_knownComponents.mp known, configured⟩, primary⟩
    | card => exact (constant (own.card inside)).elim
    | alert => exact .inl (own.variables_alert inside refers)
  · exact (constant (own.group inside)).elim
  · exact (constant (own.transitions transitions)).elim

end Theme

end ThemeCss
