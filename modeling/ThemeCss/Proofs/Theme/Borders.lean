import ThemeCss.Proofs.Sheet.Responsive
import ThemeCss.Proofs.Theme.Cascade
import ThemeCss.Proofs.Theme.Classes
import ThemeCss.Proofs.Theme.Diagnostics

/-! # The colours of borders

Two classes make a coloured border: one of the group for colours draws it, one of the palette gives
it a colour. Both are single classes, so the one further down decides the colour. That is the one
that draws the border, in the colour of the text: the palette is the first section of a sheet. Only
the name of the group's own transparent border is heard after it.
-/

namespace ThemeCss

/-- The properties that set the colour of a border, on all sides or on one of them. -/
def borderColorProperties : List String :=
  ["", "-top", "-right", "-bottom", "-left"].flatMap fun side =>
    ["border" ++ side, "border" ++ side ++ "-color"]

def Declaration.setsBorderColor (declaration : Declaration) : Bool :=
  borderColorProperties.contains declaration.property

/-- The rule is for one of some classes and sets the colour of a border. -/
def StyleRule.isBorderRule (names : List String) (rule : StyleRule) : Bool :=
  names.any (fun name => rule.selector == classSelector name) &&
    rule.declarations.any Declaration.setsBorderColor

namespace Sheet

/-- The rules that set the colour of a border for an element of some classes, in document order. All
of them are equally specific. -/
def borderRules (names : List String) (rules : List StyleRule) : List StyleRule :=
  rules.filter (StyleRule.isBorderRule names)

theorem borderRules_append (names : List String) (first second : List StyleRule) :
    borderRules names (first ++ second) = borderRules names first ++ borderRules names second :=
  List.filter_append ..

/-- The declaration that takes effect for the colour of a border. -/
def borderDeclaration? (names : List String) (rules : List StyleRule) : Option Declaration :=
  ((borderRules names rules).flatMap (·.declarations)).reverse.find? Declaration.setsBorderColor

end Sheet

/-- The properties of borders begin like the borders. -/
theorem Declaration.setsBorderColor_of_head? {declaration : Declaration}
    (other : declaration.property.toList.head? ≠ some 'b') :
    declaration.setsBorderColor = false := by
  have letters : ∀ property ∈ borderColorProperties, property.toList.head? = some 'b' := by decide
  rw [setsBorderColor, List.contains_eq_mem, decide_eq_false_iff_not]
  exact fun member => other (letters _ member)

namespace StyleRule

variable {names : List String} {rule : StyleRule}

theorem isBorderRule_of_declarations
    (silent : rule.declarations.any Declaration.setsBorderColor = false) :
    rule.isBorderRule names = false := by
  rw [isBorderRule, silent, Bool.and_false]

theorem isBorderRule_of_selector (other : ∀ name ∈ names, rule.selector ≠ classSelector name) :
    rule.isBorderRule names = false := by
  have none : names.any (fun name => rule.selector == classSelector name) = false := by
    simpa using other
  rw [isBorderRule, none, Bool.false_and]

/-- A rule that does not begin with a dot is not for a class. -/
theorem isBorderRule_of_head? (plain : rule.selector.toList.head? ≠ some '.') :
    rule.isBorderRule names = false :=
  isBorderRule_of_selector fun name _ same => plain (by simp [same, classSelector])

end StyleRule

theorem Sheet.borderRules_of_forall {names : List String} {rules : List StyleRule}
    (others : ∀ rule ∈ rules, rule.isBorderRule names = false) : borderRules names rules = [] :=
  List.filter_eq_nil_iff.mpr fun rule member => Bool.not_eq_true _ ▸ others rule member

/-- No class sets the colour of a border. -/
def Borderless (classes : List UtilityClass) : Prop :=
  ∀ utility ∈ classes, utility.declarations.any Declaration.setsBorderColor = false

instance (classes : List UtilityClass) : Decidable (Borderless classes) :=
  inferInstanceAs (Decidable
    (∀ utility ∈ classes, utility.declarations.any Declaration.setsBorderColor = false))

theorem Borderless.isBorderRule {classes : List UtilityClass} (borderless : Borderless classes)
    {rule : StyleRule} (utility : rule.IsOf classes) {names : List String} :
    rule.isBorderRule names = false := by
  obtain ⟨utility, member, label, rfl⟩ := utility
  exact StyleRule.isBorderRule_of_declarations (borderless utility member)

theorem Borderless.borderRules {classes : List UtilityClass} (borderless : Borderless classes)
    (names : List String) : Sheet.borderRules names (classes.map (UtilityClass.rule none)) = [] :=
  Sheet.borderRules_of_forall <| List.forall_mem_map.mpr fun utility member =>
    borderless.isBorderRule ⟨utility, member, none, rfl⟩

namespace Borderless

theorem columns (columns : Nat) : Borderless (Page.columnClasses columns) := by
  rw [Borderless, Page.columnClasses, List.forall_mem_map]
  exact fun before _ => rfl

theorem spacing (unit : Length) : Borderless (Utilities.spacingClasses unit) := by
  rw [Borderless, Utilities.spacingClasses, List.forall_mem_flatMap]
  rintro ⟨property, letter⟩ member
  rw [List.forall_mem_flatMap]
  rintro ⟨direction, sides⟩ _
  simp only [Utilities.stepClasses, List.forall_mem_map, List.any_eq_false, Bool.not_eq_true]
  rintro ⟨step, index⟩ _ declaration declared
  apply Declaration.setsBorderColor_of_head?
  simp only [Utilities.spacingProperties, List.mem_cons, Prod.mk.injEq, List.not_mem_nil,
    or_false] at member
  rw [Utilities.sideDeclarations.eq_def] at declared
  -- The properties of all sides and of single sides begin with the same word.
  split at declared
  · rw [List.mem_singleton.mp declared]
    rcases member with ⟨rfl, -⟩ | ⟨rfl, -⟩ <;> simp
  · obtain ⟨side, -, rfl⟩ := List.mem_map.mp declared
    rcases member with ⟨rfl, -⟩ | ⟨rfl, -⟩ <;> simp [toString]

theorem group (theme : Theme) {group : UtilityGroup} (other : group ≠ .color) :
    Borderless (group.classes theme) := by
  cases group with
  | spacing => exact spacing theme.spacing.baseUnit
  | flex => exact (by decide : Borderless Utilities.flexClasses)
  | color => contradiction
  | image => exact (by decide : Borderless Utilities.imageClasses)

theorem transitions (timing : String) : Borderless (Utilities.transitionClasses timing) := by
  simp only [Borderless, Utilities.transitionClasses, List.forall_mem_cons, List.not_mem_nil,
    false_imp_iff, implies_true, and_true]
  exact ⟨rfl, rfl, rfl, rfl⟩

end Borderless

theorem take_classSelector_border (rest : String) :
    (classSelector ("border" ++ rest)).toList.take 3 = ['.', 'b', 'o'] := by
  simp [classSelector, escapeClass, escapeName, escapeNameChar, isNameChar]

/-- No component is named like a border. -/
theorem Theme.selector_ne_of_mem_component {theme : Theme} {component : Component}
    {rule : StyleRule} (member : rule ∈ (component.sheet theme).rules) (rest : String) :
    rule.selector ≠ classSelector ("border" ++ rest) := by
  intro same
  have letters := take_classSelector_border rest
  rw [← same] at letters
  rcases selector_of_mem_component member with fixed | ⟨-, tone, -, named⟩
  · have others : ∀ selector ∈ fixedSelectors, selector.toList.take 3 ≠ ['.', 'b', 'o'] := by decide
    exact others _ fixed letters
  · rw [named] at letters
    simp [toString] at letters

/-- If only one of some different items makes anything, that is all they make. -/
theorem flatMap_eq_of_nodup {α β : Type} {items : List α} (once : items.Nodup) {item : α}
    (member : item ∈ items) {make : α → List β}
    (others : ∀ other ∈ items, other ≠ item → make other = []) :
    items.flatMap make = make item := by
  obtain ⟨before, after, rfl⟩ := List.append_of_mem member
  obtain ⟨-, behind, apart⟩ := List.nodup_append.mp once
  have front : before.flatMap make = [] := List.flatMap_eq_nil_iff.mpr fun other listed =>
    others other (List.mem_append_left _ listed) (apart other listed item List.mem_cons_self)
  have back : after.flatMap make = [] := List.flatMap_eq_nil_iff.mpr fun other listed =>
    others other (List.mem_append_right _ (List.mem_cons_of_mem _ listed)) fun same =>
      (List.nodup_cons.mp behind).1 (same ▸ listed)
  rw [List.flatMap_append, front, List.flatMap_cons, back, List.append_nil, List.nil_append]

/-- The class that draws a border. -/
def Utilities.border : UtilityClass := ⟨"border", [⟨"border", "1px solid currentColor"⟩]⟩

/-- The class that hides a border. -/
def Utilities.transparentBorder : UtilityClass :=
  ⟨"border-transparent", [⟨"border-color", "transparent"⟩]⟩

namespace Theme

open Sheet (borderRules borderRules_append borderDeclaration?)

/-- The classes of a border in a colour. -/
def borderNames (name : String) : List String := ["border", "border-" ++ name]

variable {theme : Theme} {name : String}

theorem isBorderRule_border :
    (Utilities.border.rule none).isBorderRule (borderNames name) = true := by
  have sets : (⟨"border", "1px solid currentColor"⟩ : Declaration).setsBorderColor = true := rfl
  simp [StyleRule.isBorderRule, borderNames, Utilities.border, UtilityClass.rule, sets]

/-- A class that gives borders a colour matters to those of its name. -/
theorem isBorderRule_borderColor (other value : String) :
    ((UtilityClass.mk ("border-" ++ other) [⟨"border-color", value⟩]).rule none).isBorderRule
      (borderNames name) = decide (other = name) := by
  have sets : (⟨"border-color", value⟩ : Declaration).setsBorderColor = true := rfl
  have plain : "border-" ++ other ≠ "border" := by
    intro same
    have lengths := congrArg (·.toList.length) same
    simp at lengths
  have same (first second : String) : (classSelector first == classSelector second) =
      decide (first = second) := by
    rw [Bool.eq_iff_iff, beq_iff_eq, decide_eq_true_iff, injective_classSelector.eq_iff]
  simp [StyleRule.isBorderRule, borderNames, UtilityClass.rule, sets, plain, same]

theorem borderRules_classes (other : String) :
    borderRules (borderNames name) ((Palette.classes other).map (UtilityClass.rule none)) =
      if other = name then [(Palette.borderClass name).rule none] else [] := by
  have borderless : Borderless (Palette.suffixes.map (Palette.textClass other) ++
      Palette.suffixes.map (Palette.backgroundClass other)) :=
    List.forall_mem_append.mpr ⟨List.forall_mem_map.mpr fun suffix _ => rfl,
      List.forall_mem_map.mpr fun suffix _ => rfl⟩
  have own : ((Palette.borderClass other).rule none).isBorderRule (borderNames name) =
      decide (other = name) := isBorderRule_borderColor other _
  rw [Palette.classes, List.map_append, borderRules_append, borderless.borderRules,
    List.nil_append, List.map_singleton, borderRules, List.filter_singleton, own]
  by_cases same : other = name
  · simp [same]
  · simp [same]

theorem borderRules_color (holds : String → Bool) :
    borderRules (borderNames name) ((UtilityGroup.sheet theme .color).rulesWhere holds) =
      Utilities.border.rule none ::
        if name = "transparent" then [Utilities.transparentBorder.rule none] else [] := by
  have zero : ((UtilityClass.mk "border-0" [⟨"border-width", "0"⟩]).rule none).isBorderRule
      (borderNames name) = false := StyleRule.isBorderRule_of_declarations rfl
  have transparent : (Utilities.transparentBorder.rule none).isBorderRule (borderNames name) =
      decide ("transparent" = name) := isBorderRule_borderColor "transparent" _
  have borderless : Borderless (Utilities.colorClasses.drop 3) := by decide
  have rest := borderless.borderRules (borderNames name)
  have rules : (UtilityGroup.sheet theme .color).rulesWhere holds =
      Utilities.border.rule none ::
        (UtilityClass.mk "border-0" [⟨"border-width", "0"⟩]).rule none ::
        Utilities.transparentBorder.rule none ::
        (Utilities.colorClasses.drop 3).map (UtilityClass.rule none) := rfl
  rw [borderRules] at rest
  rw [rules, borderRules, List.filter_cons_of_pos isBorderRule_border,
    List.filter_cons_of_neg (by simp [zero]), List.filter_cons, transparent, rest]
  simp [eq_comm]

/-- Outside the palette and the group for colours nothing is said about the border. -/
theorem borderRules_part {part : Part} (palette : part ≠ .palette) (color : part ≠ .group .color)
    (holds : String → Bool) :
    borderRules (borderNames name) ((part.sheet theme).rulesWhere holds) = [] := by
  refine Sheet.borderRules_of_forall fun rule applies => ?_
  have member : rule ∈ (part.sheet theme).rules := Sheet.rulesWhere_subset holds _ applies
  match part with
  | .palette => contradiction
  | .text =>
    rcases rule_of_mem_text member with rfl | rfl <;>
      exact StyleRule.isBorderRule_of_declarations rfl
  | .grid =>
    rcases rule_of_mem_grid member with rfl | rfl | utility
    · exact StyleRule.isBorderRule_of_declarations rfl
    · exact StyleRule.isBorderRule_of_declarations rfl
    · exact (Borderless.columns _).isBorderRule utility
  | .component known =>
    refine StyleRule.isBorderRule_of_selector (List.forall_mem_cons.mpr ⟨?_, ?_⟩)
    · exact selector_ne_of_mem_component member ""
    · exact List.forall_mem_singleton.mpr (selector_ne_of_mem_component member ("-" ++ name))
  | .group known =>
    exact (Borderless.group theme (fun same => color (congrArg Part.group same))).isBorderRule
      (rule_of_mem_group member)
  | .transitions => exact (Borderless.transitions _).isBorderRule (rule_of_mem_transitions member)

theorem borderRules_palette (configured : name ∈ theme.colors.names) (holds : String → Bool) :
    borderRules (borderNames name) (theme.palette.rulesWhere holds) =
      [(Palette.borderClass name).rule none] := by
  have classes : borderRules (borderNames name)
      ((theme.colors.names.flatMap Palette.classes).map (UtilityClass.rule none)) =
        [(Palette.borderClass name).rule none] := by
    rw [List.map_flatMap, borderRules, List.filter_flatMap]
    refine (flatMap_eq_of_nodup theme.colors.nodup_names configured ?_).trans ?_
    · intro other _ different
      exact (borderRules_classes other).trans (if_neg different)
    · exact (borderRules_classes name).trans (if_pos rfl)
  have root (shades : Color → Shades) :
      (Palette.rootRule shades theme.colors).isBorderRule (borderNames name) = false :=
    StyleRule.isBorderRule_of_head? (by simp [Palette.rootRule])
  have page : Palette.darkPageRule.isBorderRule (borderNames name) = false :=
    StyleRule.isBorderRule_of_declarations rfl
  rw [rulesWhere_palette, borderRules_append, borderRules_append, classes]
  split <;> simp [borderRules, root, page]

/-- The palette comes first, so the class that draws a border takes back the colour of the class
in front of it. -/
theorem borderRules_sheet (wanted : .color ∈ theme.knownUtilities)
    (configured : name ∈ theme.colors.names) (holds : String → Bool) :
    borderRules (borderNames name) (theme.sheet.rulesWhere holds) =
      (Palette.borderClass name).rule none :: Utilities.border.rule none ::
        if name = "transparent" then [Utilities.transparentBorder.rule none] else [] := by
  have parts : borderRules (borderNames name) (theme.sheet.rulesWhere holds) =
      theme.parts.flatMap fun part =>
        borderRules (borderNames name) ((part.sheet theme).rulesWhere holds) := by
    rw [sheet, Sheet.rulesWhere_merged, sections_eq, List.flatMap_map, borderRules,
      List.filter_flatMap]
    rfl
  have member : Part.group .color ∈ theme.parts.tail := by
    simp [Theme.parts, wanted]
  have once := List.nodup_cons.mp (theme.nodup_parts : (Part.palette :: theme.parts.tail).Nodup)
  rw [parts]
  calc
    _ = borderRules (borderNames name) ((Part.sheet theme .palette).rulesWhere holds) ++
        theme.parts.tail.flatMap fun part =>
          borderRules (borderNames name) ((part.sheet theme).rulesWhere holds) := rfl
    _ = borderRules (borderNames name) (theme.palette.rulesWhere holds) ++
        borderRules (borderNames name) ((UtilityGroup.sheet theme .color).rulesWhere holds) := by
      refine congrArg _ (flatMap_eq_of_nodup once.2 member fun part listed other => ?_)
      exact borderRules_part (fun same => once.1 (same ▸ listed)) other holds
    _ = _ := by rw [borderRules_palette configured, borderRules_color, List.singleton_append]

theorem borderDeclaration?_sheet (wanted : .color ∈ theme.knownUtilities)
    (configured : name ∈ theme.colors.names) (holds : String → Bool) :
    borderDeclaration? (borderNames name) (theme.sheet.rulesWhere holds) =
      some (if name = "transparent" then ⟨"border-color", "transparent"⟩
        else ⟨"border", "1px solid currentColor"⟩) := by
  have drawn : (⟨"border", "1px solid currentColor"⟩ : Declaration).setsBorderColor = true := rfl
  have hidden : (⟨"border-color", "transparent"⟩ : Declaration).setsBorderColor = true := rfl
  rw [borderDeclaration?, borderRules_sheet wanted configured]
  split
  · simp [Utilities.transparentBorder, UtilityClass.rule, hidden]
  · simp [Utilities.border, UtilityClass.rule, drawn]

/-- A border has the colour of the text, or none under the name of the hidden border: the class of
its own colour stands in front of the one that draws it. -/
theorem border_drawn_last {theme : Theme} {name : String} (wanted : .color ∈ theme.knownUtilities)
    (configured : name ∈ theme.colors.names) (holds : String → Bool) :
    borderRules (borderNames name) (theme.sheet.rulesWhere holds) =
        (Palette.borderClass name).rule none :: Utilities.border.rule none ::
          (if name = "transparent" then [Utilities.transparentBorder.rule none] else []) ∧
      borderDeclaration? (borderNames name) (theme.sheet.rulesWhere holds) =
        some (if name = "transparent" then ⟨"border-color", "transparent"⟩
          else ⟨"border", "1px solid currentColor"⟩) :=
  ⟨borderRules_sheet wanted configured holds, borderDeclaration?_sheet wanted configured holds⟩

/-- The sea has no border of its colour. -/
theorem border_drawn_last_sea :
    let theme : Theme :=
      { ofColors ⟨[("sea", ⟨0, 0x66, 0xcc⟩)], by decide⟩ with utilities := ["color"] }
    .color ∈ theme.knownUtilities ∧ "sea" ∈ theme.colors.names ∧
      borderDeclaration? ["border", "border-sea"] theme.sheet.topRules =
        some ⟨"border", "1px solid currentColor"⟩ := by
  intro theme
  have wanted : .color ∈ theme.knownUtilities := by decide
  have configured : "sea" ∈ theme.colors.names := List.mem_cons_self
  exact ⟨wanted, configured, (border_drawn_last wanted configured fun _ => false).2⟩

/-- The class of a colour does not give a drawn border its colour. -/
theorem border_drawn_last_refuted : ¬ ∀ (text : String) (theme : Theme)
    (diagnostics : List Diagnostic), ofJson text = .ok theme → theme.check = .ok diagnostics →
      .color ∈ theme.knownUtilities → ∀ name ∈ theme.colors.names,
        borderDeclaration? ["border", "border-" ++ name] theme.sheet.topRules =
          some ⟨"border-color", Palette.reference name ""⟩ := by
  intro claim
  obtain ⟨text, theme, diagnostics, read, checked, keeps⟩ :=
    exists_accepted_keeps shore ⟨"Inter", "Georgia"⟩ ["color"]
  have wanted : .color ∈ theme.knownUtilities := by
    rw [knownUtilities, keeps.utilities]
    decide
  have configured : "sea" ∈ theme.colors.names := by
    rw [keeps.colors]
    decide
  have own := claim text theme diagnostics read checked wanted "sea" configured
  have drawn := borderDeclaration?_sheet wanted configured fun _ => false
  have clash := own.symm.trans drawn
  revert clash
  decide

end Theme

end ThemeCss
