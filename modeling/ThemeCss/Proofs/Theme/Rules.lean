import ThemeCss.Artifacts
import ThemeCss.Proofs.Sheet.Cascade

/-! # The rules of a theme

Every rule of a theme's sheet is either one of the few that a section has of its own or the rule of
a utility class, with or without the label of a breakpoint. What holds of all rules is proved
section by section along this list.
-/

namespace ThemeCss

/-- The rule is that of a utility class from a list, for all pages or behind some label. -/
def StyleRule.IsOf (classes : List UtilityClass) (rule : StyleRule) : Prop :=
  ∃ utility ∈ classes, ∃ label, utility.rule label = rule

/-- The utility classes of a group. -/
def UtilityGroup.classes (theme : Theme) : UtilityGroup → List UtilityClass
  | spacing => Utilities.spacingClasses theme.spacing.baseUnit
  | flex => Utilities.flexClasses
  | color => Utilities.colorClasses
  | image => Utilities.imageClasses

theorem Sheet.rules_titled (title : String) (blocks : List Block) :
    (Sheet.titled title blocks).rules = blocks.flatMap Block.rules := rfl

theorem StyleRule.isOf_of_mem_plainBlocks {classes : List UtilityClass} {rule : StyleRule}
    (member : rule ∈ (plainBlocks classes).flatMap Block.rules) : rule.IsOf classes := by
  obtain ⟨utility, known, rfl⟩ := mem_rules_plainBlocks.mp member
  exact ⟨utility, known, none, rfl⟩

theorem StyleRule.isOf_of_mem_withResponsive {sheet : Sheet} {classes : List UtilityClass}
    {breakpoints : List Breakpoint} {rule : StyleRule}
    (member : rule ∈ (sheet.withResponsive classes breakpoints).rules) :
    rule ∈ sheet.rules ∨ rule.IsOf classes := by
  rcases Sheet.mem_rules_withResponsive.mp member with
    own | ⟨utility, known, rfl⟩ | ⟨breakpoint, -, utility, known, rfl⟩
  · exact .inl own
  · exact .inr ⟨utility, known, none, rfl⟩
  · exact .inr ⟨utility, known, some breakpoint.label, rfl⟩

namespace Theme

variable {theme : Theme} {rule : StyleRule}

theorem rule_of_mem_palette (member : rule ∈ theme.palette.rules) :
    rule = Palette.rootRule .onLight theme.colors ∨
      rule.IsOf (theme.colors.names.flatMap Palette.classes) ∨
        rule = Palette.rootRule .onDark theme.colors ∨ rule = Palette.darkPageRule := by
  rw [palette, Sheet.rules_titled, List.flatMap_append, List.mem_append, List.flatMap_cons,
    List.mem_append] at member
  rcases member with (root | utility) | dark
  · exact .inl (List.mem_singleton.mp root)
  · exact .inr (.inl (StyleRule.isOf_of_mem_plainBlocks utility))
  · right
    right
    split at dark
    · simpa [Palette.darkBlocks, Block.rules] using dark
    · contradiction

theorem rule_of_mem_text (member : rule ∈ theme.text.rules) :
    rule = Page.bodyRule theme ∨ rule = Page.headingRule theme := by
  simpa [text, Sheet.rules_titled, Block.rules] using member

theorem rule_of_mem_grid (member : rule ∈ theme.grid.rules) :
    rule = Page.containerRule theme ∨ rule = Page.rowRule theme ∨
      rule.IsOf (Page.columnClasses theme.layout.columns) := by
  rcases StyleRule.isOf_of_mem_withResponsive member with own | utility
  · rw [Sheet.rules_titled] at own
    rcases List.mem_cons.mp own with container | row
    · exact .inl container
    · exact .inr (.inl (List.mem_singleton.mp row))
  · exact .inr (.inr utility)

theorem rule_of_mem_group {group : UtilityGroup} (member : rule ∈ (group.sheet theme).rules) :
    rule.IsOf (group.classes theme) := by
  have responsive {title : String} {classes : List UtilityClass}
      (member : rule ∈ ((Sheet.titled title).withResponsive classes theme.breakpoints).rules) :
      rule.IsOf classes :=
    (StyleRule.isOf_of_mem_withResponsive member).resolve_left List.not_mem_nil
  cases group with
  | spacing =>
    rw [UtilityGroup.sheet] at member
    exact responsive member
  | flex =>
    rw [UtilityGroup.sheet] at member
    exact responsive member
  | color =>
    rw [UtilityGroup.sheet, Sheet.rules_titled] at member
    exact StyleRule.isOf_of_mem_plainBlocks member
  | image =>
    rw [UtilityGroup.sheet, Sheet.rules_titled] at member
    exact StyleRule.isOf_of_mem_plainBlocks member

theorem rule_of_mem_transitions (member : rule ∈ theme.transitions.rules) :
    rule.IsOf (Utilities.transitionClasses theme.transition.timing) := by
  rw [transitions, Sheet.rules_titled] at member
  exact StyleRule.isOf_of_mem_plainBlocks member

/-- The rules of a theme's sheet, by section. -/
theorem mem_rules_sheet : rule ∈ theme.sheet.rules ↔
    rule ∈ theme.palette.rules ∨ rule ∈ theme.text.rules ∨ rule ∈ theme.grid.rules ∨
      (∃ component ∈ theme.knownComponents, rule ∈ (component.sheet theme).rules) ∨
        (∃ group ∈ theme.knownUtilities, rule ∈ (group.sheet theme).rules) ∨
          rule ∈ theme.transitions.rules := by
  rw [sheet, Sheet.rules_merged, sections, componentSheets, utilitySheets]
  simp

theorem mem_knownComponents {component : Component} :
    component ∈ theme.knownComponents ↔ theme.has component = true := by
  rw [has, List.contains_iff_mem]

end Theme

/-- The selector of a utility class begins with a dot. -/
theorem UtilityClass.head?_selector (label : Option String) (utility : UtilityClass) :
    (utility.rule label).selector.toList.head? = some '.' := by
  simp [UtilityClass.rule, classSelector]

theorem StyleRule.IsOf.head?_selector {classes : List UtilityClass} {rule : StyleRule}
    (utility : rule.IsOf classes) : rule.selector.toList.head? = some '.' := by
  obtain ⟨utility, -, label, rfl⟩ := utility
  exact utility.head?_selector label

namespace Components

variable (theme : Theme)

theorem selectors_button : (button theme).rules.map (·.selector) =
    [".btn", ".btn:hover", ".btn-secondary", ".btn-secondary:hover"] := rfl

theorem selectors_card : (card theme).rules.map (·.selector) =
    [".card", ".card:hover", ".card + .card"] := rfl

theorem selectors_alert : (alert theme).rules.map (·.selector) =
    ".alert" :: (tones.filter theme.colors.contains).map fun tone => s!".alert-{tone}" := by
  simp only [alert, Sheet.rules_titled, List.flatMap_cons, List.flatMap_map, Block.rules,
    List.map_cons, List.singleton_append]
  rw [← List.map_eq_flatMap, List.map_map]
  rfl

end Components

/-- The selectors of components begin with a dot. -/
theorem Component.head?_selector {theme : Theme} {component : Component} {rule : StyleRule}
    (member : rule ∈ (component.sheet theme).rules) : rule.selector.toList.head? = some '.' := by
  have dotted : ∀ selector ∈ (component.sheet theme).rules.map (·.selector),
      selector.toList.head? = some '.' := by
    cases component with
    | button => simp [Component.sheet, Components.selectors_button]
    | card => simp [Component.sheet, Components.selectors_card]
    | alert =>
      rw [Component.sheet, Components.selectors_alert, List.forall_mem_cons, List.forall_mem_map]
      exact ⟨by simp, fun tone _ => by simp [toString]⟩
  exact dotted _ (List.mem_map_of_mem member)

/-- Behind the section of text all selectors begin with a dot. -/
theorem Theme.head?_selector {theme : Theme} {rule : StyleRule} {part : Sheet}
    (known : part ∈ theme.grid :: theme.componentSheets ++ theme.utilitySheets ++
      [theme.transitions]) (member : rule ∈ part.rules) :
    rule.selector.toList.head? = some '.' := by
  simp only [componentSheets, utilitySheets, List.mem_append, List.mem_cons, List.mem_map,
    List.not_mem_nil, or_false] at known
  rcases known with ((rfl | ⟨component, -, rfl⟩) | ⟨group, -, rfl⟩) | rfl
  · rcases rule_of_mem_grid member with rfl | rfl | utility
    · simp [Page.containerRule]
    · simp [Page.rowRule]
    · exact utility.head?_selector
  · exact Component.head?_selector member
  · exact (rule_of_mem_group member).head?_selector
  · exact (rule_of_mem_transitions member).head?_selector

end ThemeCss
