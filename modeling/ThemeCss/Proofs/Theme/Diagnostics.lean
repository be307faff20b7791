import ThemeCss.Proofs.Sheet.ClassName
import ThemeCss.Proofs.Theme.References

/-! # What the diagnostics of a theme say about its sheet

The diagnostics and the sections are made from a theme independently. They agree: a tone is reported
where alerts lack its rule, the button where it refers to what is not declared, and a name as often
as it is mentioned without asking for anything. So a theme without diagnostics has no reference to a
property that is not declared.
-/

namespace ThemeCss

/-- A character in front of an escaped name that is no escape is the first one of the name. -/
theorem head?_of_head?_escapeName {name : List Char} {c : Char}
    (leads : (escapeName name).head? = some c) (plain : c ≠ '\\') : name.head? = some c := by
  cases name with
  | nil => exact leads
  | cons first rest =>
    simp only [escapeName, escapeNameChar] at leads
    split at leads
    · exact absurd (Option.some.inj leads).symm plain
    · split at leads
      · exact leads
      · exact absurd (Option.some.inj leads).symm plain

/-- A class behind a label, or one that does not begin with the letter of alerts, is no tone. -/
theorem UtilityClass.selector_ne_tone {utility : UtilityClass}
    (other : utility.name.toList.head? ≠ some 'a') (label : Option String) {tone : String}
    (known : tone ∈ tones) : (utility.rule label).selector ≠ s!".alert-{tone}" := by
  intro same
  have colonless : ∀ tone ∈ tones, ':' ∉ ("alert-" ++ tone).toList := by decide
  have letters : ∀ name : String, classSelector name = s!".alert-{tone}" →
      escapeName name.toList = ("alert-" ++ tone).toList := by
    intro name same
    have dotted := congrArg String.toList same
    simpa [classSelector, escapeClass, toString] using dotted
  cases label with
  | none =>
    have leads : (escapeName utility.name.toList).head? = some 'a' := by
      rw [letters utility.name same, String.toList_append]
      rfl
    exact other (head?_of_head?_escapeName leads (by decide))
  | some label =>
    have colon : ':' ∈ escapeName s!"{label}:{utility.name}".toList :=
      mem_escapeName (by simp [toString]) (by decide)
    rw [letters _ same] at colon
    exact colonless tone known colon

/-- No name begins with the letter of alerts. -/
def ApartFromAlerts (classes : List UtilityClass) : Prop :=
  ∀ utility ∈ classes, utility.name.toList.head? ≠ some 'a'

instance (classes : List UtilityClass) : Decidable (ApartFromAlerts classes) :=
  inferInstanceAs (Decidable (∀ utility ∈ classes, utility.name.toList.head? ≠ some 'a'))

theorem ApartFromAlerts.selector_ne {classes : List UtilityClass} (apart : ApartFromAlerts classes)
    {rule : StyleRule} (utility : rule.IsOf classes) {tone : String} (known : tone ∈ tones) :
    rule.selector ≠ s!".alert-{tone}" := by
  obtain ⟨utility, member, label, rfl⟩ := utility
  exact utility.selector_ne_tone (apart utility member) label known

namespace ApartFromAlerts

theorem palette (names : List String) : ApartFromAlerts (names.flatMap Palette.classes) := by
  rw [ApartFromAlerts, List.forall_mem_flatMap]
  intro name _
  simp [Palette.classes, Palette.suffixes, Palette.textClass, Palette.backgroundClass,
    Palette.borderClass, toString]

theorem columns (columns : Nat) : ApartFromAlerts (Page.columnClasses columns) := by
  rw [ApartFromAlerts, Page.columnClasses, List.forall_mem_map]
  intro before _
  simp [Page.columnClass, toString]

theorem group (theme : Theme) (group : UtilityGroup) : ApartFromAlerts (group.classes theme) := by
  cases group with
  | spacing =>
    rw [ApartFromAlerts, UtilityGroup.classes, Utilities.spacingClasses, List.forall_mem_flatMap]
    rintro ⟨property, letter⟩ member
    rw [List.forall_mem_flatMap]
    rintro ⟨direction, sides⟩ _
    simp only [Utilities.stepClasses, List.forall_mem_map]
    rintro ⟨step, index⟩ _
    simp only [Utilities.spacingProperties, List.mem_cons, Prod.mk.injEq, List.not_mem_nil,
      or_false] at member
    rcases member with ⟨rfl, rfl⟩ | ⟨rfl, rfl⟩ <;> simp [toString]
  | flex => exact (by decide : ApartFromAlerts Utilities.flexClasses)
  | color => exact (by decide : ApartFromAlerts Utilities.colorClasses)
  | image => exact (by decide : ApartFromAlerts Utilities.imageClasses)

theorem transitions (timing : String) : ApartFromAlerts (Utilities.transitionClasses timing) := by
  simp [ApartFromAlerts, Utilities.transitionClasses]

end ApartFromAlerts

/-- The selectors of all rules but those of utility classes and of tones. -/
def fixedSelectors : List String := [
  ":root", "body", "h1, h2, h3, h4, h5, h6", ".container", ".row",
  ".btn", ".btn:hover", ".btn-secondary", ".btn-secondary:hover",
  ".card", ".card:hover", ".card + .card", ".alert"]

namespace Theme

variable {theme : Theme}

/-- Whether some rule of a theme's sheet has a selector. -/
def HasRule (theme : Theme) (selector : String) : Prop :=
  ∃ rule ∈ theme.sheet.rules, rule.selector = selector

theorem selector_of_mem_component {component : Component} {rule : StyleRule}
    (member : rule ∈ (component.sheet theme).rules) : rule.selector ∈ fixedSelectors ∨
      component = .alert ∧ ∃ tone ∈ tones.filter theme.colors.contains,
        rule.selector = s!".alert-{tone}" := by
  have selector := List.mem_map_of_mem member (f := (·.selector))
  cases component with
  | button =>
    rw [Component.sheet, Components.selectors_button] at selector
    exact .inl ((by decide : _ ⊆ fixedSelectors) selector)
  | card =>
    rw [Component.sheet, Components.selectors_card] at selector
    exact .inl ((by decide : _ ⊆ fixedSelectors) selector)
  | alert =>
    rw [Component.sheet, Components.selectors_alert, List.mem_cons, List.mem_map] at selector
    rcases selector with plain | ⟨tone, known, same⟩
    · left
      rw [plain]
      decide
    · exact .inr ⟨rfl, tone, known, same.symm⟩

/-- The rule of a tone is there if alerts are wanted and the tone has a colour. -/
theorem hasRule_tone {tone : String} (known : tone ∈ tones) :
    theme.HasRule s!".alert-{tone}" ↔ theme.has .alert = true ∧ tone ∈ theme.colors.names := by
  constructor
  · rintro ⟨rule, member, selector⟩
    have unfixed : ∀ tone ∈ tones, s!".alert-{tone}" ∉ fixedSelectors := by decide
    have fixed {plain : String} (listed : plain ∈ fixedSelectors) (same : rule.selector = plain) :
        False := unfixed tone known (selector ▸ same ▸ listed)
    have utility {classes : List UtilityClass} (utility : rule.IsOf classes)
        (apart : ApartFromAlerts classes) : False := apart.selector_ne utility known selector
    rcases mem_rules_sheet.mp member with
      palette | text | grid | ⟨component, wanted, inside⟩ | ⟨group, -, inside⟩ | transitions
    · rcases rule_of_mem_palette palette with rfl | classes | rfl | rfl
      · exact (fixed (by decide : ":root" ∈ fixedSelectors) rfl).elim
      · exact (utility classes (.palette _)).elim
      · exact (fixed (by decide : ":root" ∈ fixedSelectors) rfl).elim
      · exact (fixed (by decide : "body" ∈ fixedSelectors) rfl).elim
    · rcases rule_of_mem_text text with rfl | rfl
      · exact (fixed (by decide : "body" ∈ fixedSelectors) rfl).elim
      · exact (fixed (by decide : "h1, h2, h3, h4, h5, h6" ∈ fixedSelectors) rfl).elim
    · rcases rule_of_mem_grid grid with rfl | rfl | classes
      · exact (fixed (by decide : ".container" ∈ fixedSelectors) rfl).elim
      · exact (fixed (by decide : ".row" ∈ fixedSelectors) rfl).elim
      · exact (utility classes (.columns _)).elim
    · rcases selector_of_mem_component inside with plain | ⟨rfl, other, configured, same⟩
      · exact (fixed plain rfl).elim
      · obtain rfl : other = tone :=
          (String.append_right_inj ".alert-").mp (same.symm.trans selector)
        exact ⟨mem_knownComponents.mp wanted,
          List.contains_iff_mem.mp (List.mem_filter.mp configured).2⟩
    · exact (utility (rule_of_mem_group inside) (.group theme group)).elim
    · exact (utility (rule_of_mem_transitions transitions) (.transitions _)).elim
  · rintro ⟨wanted, configured⟩
    have listed : s!".alert-{tone}" ∈ (Components.alert theme).rules.map (·.selector) := by
      rw [Components.selectors_alert]
      refine List.mem_cons_of_mem _ (List.mem_map_of_mem ?_)
      exact List.mem_filter.mpr ⟨known, List.contains_iff_mem.mpr configured⟩
    obtain ⟨rule, member, selector⟩ := List.mem_map.mp listed
    exact ⟨rule, mem_rules_sheet.mpr (.inr (.inr (.inr (.inl
      ⟨.alert, mem_knownComponents.mpr wanted, member⟩)))), selector⟩

end Theme

namespace Diagnostic

theorem message_buttonWithoutPrimary : buttonWithoutPrimary.message =
    "button uses --color-primary but no `primary` color is configured" := rfl

theorem message_toneWithoutColor (tone : String) : (toneWithoutColor tone).message =
    "alert tone `" ++ (tone ++ ("` has no matching color; .alert-" ++
      (tone ++ " will not be generated"))) := by
  have joined : (toneWithoutColor tone).message = "alert tone `" ++ tone ++
      "` has no matching color; .alert-" ++ tone ++ " will not be generated" := rfl
  rw [joined, String.append_assoc, String.append_assoc, String.append_assoc]

theorem message_unknownComponent (name : String) :
    (unknownComponent name).message = "Unknown component: " ++ name := rfl

theorem message_unknownUtilities (name : String) :
    (unknownUtilities name).message = "Unknown utility group: " ++ name := rfl

theorem toneWithoutColor_message_inj {first second : String}
    (same : (toneWithoutColor first).message = (toneWithoutColor second).message) :
    first = second := by
  rw [message_toneWithoutColor, message_toneWithoutColor, String.append_right_inj] at same
  -- The tone stands in the message twice, so messages of one length have tones of one length.
  have size : first.length = second.length := by
    have sizes := congrArg String.length same
    simp only [String.length_append] at sizes
    omega
  have letters := congrArg String.toList same
  simp only [String.toList_append] at letters
  exact String.toList_inj.mp (List.append_inj_left letters size)

/-- The first nine letters of a message, by which the kinds of diagnostics differ. -/
def front : Diagnostic → String
  | buttonWithoutPrimary => "button us"
  | toneWithoutColor _ => "alert ton"
  | unknownComponent _ => "Unknown c"
  | unknownUtilities _ => "Unknown u"

theorem take_message (diagnostic : Diagnostic) :
    diagnostic.message.toList.take 9 = diagnostic.front.toList := by
  cases diagnostic with
  | buttonWithoutPrimary => simp [message_buttonWithoutPrimary, front]
  | toneWithoutColor tone => simp [message_toneWithoutColor, front]
  | unknownComponent name => simp [message_unknownComponent, front]
  | unknownUtilities name => simp [message_unknownUtilities, front]

/-- Different diagnostics have different messages. -/
theorem message_injective : Function.Injective message := by
  intro first second same
  have fronts : first.front = second.front := by
    rw [← String.toList_inj, ← take_message, ← take_message, same]
  cases first <;> cases second
  case buttonWithoutPrimary.buttonWithoutPrimary => rfl
  case toneWithoutColor.toneWithoutColor =>
    exact congrArg toneWithoutColor (toneWithoutColor_message_inj same)
  case unknownComponent.unknownComponent =>
    exact congrArg unknownComponent ((String.append_right_inj "Unknown component: ").mp same)
  case unknownUtilities.unknownUtilities =>
    exact congrArg unknownUtilities ((String.append_right_inj "Unknown utility group: ").mp same)
  all_goals exact absurd fronts (by simp [front])

end Diagnostic

namespace Theme

section Members

variable (theme : Theme)

theorem buttonWithoutPrimary_mem_diagnostics : .buttonWithoutPrimary ∈ theme.diagnostics ↔
    theme.has .button = true ∧ "primary" ∉ theme.colors.names := by
  simp [diagnostics, buttonDiagnostics, toneDiagnostics, nameDiagnostics, Catalog.contains]

theorem toneWithoutColor_mem_diagnostics {tone : String} (known : tone ∈ tones) :
    .toneWithoutColor tone ∈ theme.diagnostics ↔
      theme.has .alert = true ∧ tone ∉ theme.colors.names := by
  simp [diagnostics, buttonDiagnostics, toneDiagnostics, nameDiagnostics, Catalog.contains, known]

/-- Diagnostics of other kinds are about names. -/
theorem count_diagnostics {diagnostic : Diagnostic}
    (noButton : diagnostic ≠ .buttonWithoutPrimary)
    (noTone : ∀ tone, diagnostic ≠ .toneWithoutColor tone) :
    theme.diagnostics.count diagnostic = theme.nameDiagnostics.count diagnostic := by
  have button : theme.buttonDiagnostics.count diagnostic = 0 := by
    rw [List.count_eq_zero, buttonDiagnostics]
    split
    · rwa [List.mem_singleton]
    · exact List.not_mem_nil
  have tone : theme.toneDiagnostics.count diagnostic = 0 := by
    rw [List.count_eq_zero, toneDiagnostics]
    split
    · rw [List.mem_map]
      rintro ⟨tone, -, same⟩
      exact noTone tone same.symm
    · exact List.not_mem_nil
  rw [diagnostics, List.count_append, List.count_append, button, tone, Nat.zero_add]

theorem count_unknownComponent_diagnostics (name : String) :
    theme.diagnostics.count (.unknownComponent name) =
      (theme.components.filter fun entry => (Component.ofName? entry).isNone).count name := by
  have injective : Function.Injective Diagnostic.unknownComponent :=
    fun _ _ => Diagnostic.unknownComponent.inj
  have names := @count_diagnostics theme (.unknownComponent name) nofun nofun
  rw [names, nameDiagnostics, List.count_append, List.count_map_of_injective _ _ injective,
    Nat.add_eq_left, List.count_eq_zero]
  simp

theorem count_unknownUtilities_diagnostics (name : String) :
    theme.diagnostics.count (.unknownUtilities name) =
      (theme.utilities.filter fun entry => (UtilityGroup.ofName? entry).isNone).count name := by
  have injective : Function.Injective Diagnostic.unknownUtilities :=
    fun _ _ => Diagnostic.unknownUtilities.inj
  have names := @count_diagnostics theme (.unknownUtilities name) nofun nofun
  rw [names, nameDiagnostics, List.count_append, List.count_map_of_injective _ _ injective,
    Nat.add_eq_right, List.count_eq_zero]
  simp

end Members

/-- What the messages about a theme say about its sheet. -/
structure Reported (theme : Theme) (messages : List String) : Prop where
  button : Diagnostic.buttonWithoutPrimary.message ∈ messages ↔
    theme.has .button = true ∧ "primary" ∉ theme.colors.names
  tone : ∀ tone ∈ tones, (Diagnostic.toneWithoutColor tone).message ∈ messages ↔
    theme.has .alert = true ∧ ¬ theme.HasRule s!".alert-{tone}"
  /-- One message for each mention that asks for nothing. -/
  component : ∀ name, messages.count (Diagnostic.unknownComponent name).message =
    (theme.components.filter fun entry => (Component.ofName? entry).isNone).count name
  utilities : ∀ name, messages.count (Diagnostic.unknownUtilities name).message =
    (theme.utilities.filter fun entry => (UtilityGroup.ofName? entry).isNone).count name

theorem reported_diagnostics (theme : Theme) :
    theme.Reported (theme.diagnostics.map Diagnostic.message) where
  button := by
    rw [List.mem_map_of_injective Diagnostic.message_injective]
    exact theme.buttonWithoutPrimary_mem_diagnostics
  tone tone known := by
    rw [List.mem_map_of_injective Diagnostic.message_injective,
      theme.toneWithoutColor_mem_diagnostics known, hasRule_tone known]
    tauto
  component name := by
    rw [List.count_map_of_injective _ _ Diagnostic.message_injective]
    exact theme.count_unknownComponent_diagnostics name
  utilities name := by
    rw [List.count_map_of_injective _ _ Diagnostic.message_injective]
    exact theme.count_unknownUtilities_diagnostics name

/-- All that a theme refers to is declared but for the primary colour of buttons, alerts come in the
tones that have a colour, and what is missing is reported. -/
theorem references_reported {theme : Theme} (own : theme.SelfContained) :
    (∀ target ∈ theme.sheet.variables, target ∈ theme.customProperties ∨
      (theme.has .button = true ∧ "primary" ∉ theme.colors.names) ∧
        target ∈ ["--color-primary", "--color-primary-dark"]) ∧
    (∀ tone ∈ tones, theme.HasRule s!".alert-{tone}" ↔
      theme.has .alert = true ∧ tone ∈ theme.colors.names) ∧
    (1 ≤ theme.layout.columns → ∃ diagnostics, theme.check = .ok diagnostics ∧
      theme.Reported (diagnostics.map Diagnostic.message) ∧
        (diagnostics = [] → theme.sheet.variables ⊆ theme.customProperties)) := by
  refine ⟨fun target refers => own.variables_sheet refers, fun tone known => hasRule_tone known, ?_⟩
  intro columns
  refine ⟨theme.diagnostics, if_neg (Nat.ne_of_gt columns), theme.reported_diagnostics, ?_⟩
  intro none target refers
  rcases own.variables_sheet refers with declared | ⟨missing, -⟩
  · exact declared
  · have reported := theme.buttonWithoutPrimary_mem_diagnostics.mpr missing
    rw [none] at reported
    contradiction

/-- A harbour with a button, but no primary colour, and with alerts in one tone. -/
theorem references_reported_harbour :
    let theme : Theme := { ofColors ⟨[("success", ⟨0x10, 0xb9, 0x81⟩)], by decide⟩ with
      components := ["button", "alert", "crane", "crane"] }
    theme.SelfContained ∧ 1 ≤ theme.layout.columns ∧
      "--color-primary" ∈ theme.sheet.variables ∧ "--color-primary" ∉ theme.customProperties ∧
      theme.HasRule ".alert-success" ∧ ¬ theme.HasRule ".alert-danger" ∧
      ∃ diagnostics, theme.check = .ok diagnostics ∧
        (diagnostics.map Diagnostic.message).count "Unknown component: crane" = 2 := by
  intro theme
  have own : theme.SelfContained := {
    colors := by
      intro name member
      obtain rfl : name = "success" := List.mem_singleton.mp member
      exact List.all_eq_true.mp rfl
    main := by decide
    headlines := by decide
    duration := by decide
    easing := by decide
    container := by decide
    baseUnit := by decide }
  obtain ⟨-, rules, checked⟩ := references_reported own
  obtain ⟨diagnostics, success, reported, -⟩ := checked (by decide)
  have button : theme.has .button = true := by decide +kernel
  have alert : theme.has .alert = true := by decide +kernel
  have referred : "--color-primary" ∈ theme.sheet.variables := by
    refine List.mem_flatMap.mpr ⟨⟨".btn-secondary", [⟨"background-color", "transparent"⟩,
      ⟨"color", "var(--color-primary)"⟩], .expanded⟩, ?_, by decide +kernel⟩
    exact mem_rules_sheet.mpr (.inr (.inr (.inr (.inl ⟨.button, mem_knownComponents.mpr button,
      .tail _ (.tail _ (.head _))⟩))))
  have undeclared : "--color-primary" ∉ theme.customProperties := by
    rw [customProperties_eq]
    decide +kernel
  refine ⟨own, by decide, referred, undeclared, ?_, ?_, diagnostics, success, ?_⟩
  · exact (rules "success" (by decide)).mpr ⟨alert, by decide⟩
  · exact fun danger => absurd ((rules "danger" (by decide)).mp danger).2 (by decide)
  · exact (reported.component "crane").trans (by decide +kernel)

end Theme

end ThemeCss
