import ThemeCss.Proofs.Theme.Palette

/-! # The sections of a harmless theme

The texts of a theme end up in selectors, properties, queries and values, always with something safe
around them. So if each of them is harmless on its own, all sections are.
-/

namespace ThemeCss

/-- Nothing that a theme brings along has punctuation of sheets or opens a comment, and the names of
its colours have no blanks. -/
structure Theme.Harmless (theme : Theme) : Prop where
  colors : ∀ name ∈ theme.colors.names, IsHarmless name ∧ IsSolid name
  labels : ∀ label ∈ theme.layout.breakpoints.names, IsHarmless label
  widths : ∀ entry ∈ theme.layout.breakpoints.entries, IsHarmless entry.2.unit
  main : IsHarmless theme.typography.main
  headlines : IsHarmless theme.typography.headlines
  duration : IsHarmless theme.transition.duration
  easing : IsHarmless theme.transition.easing
  container : IsHarmless theme.layout.container.unit
  baseUnit : IsHarmless theme.spacing.baseUnit.unit

theorem Theme.Harmless.supplies {theme : Theme} (harmless : theme.Harmless) :
    theme.Supplies IsHarmless where
  main := harmless.main
  headlines := harmless.headlines
  duration := harmless.duration
  easing := harmless.easing
  container := harmless.container
  baseUnit := harmless.baseUnit

theorem Declaration.Keeps.harmless {declaration : Declaration}
    (keeps : declaration.Keeps IsHarmless) : declaration.Harmless :=
  .of_isSafeWord keeps.word keeps.value

theorem StyleRule.Keeps.harmless {rule : StyleRule} (keeps : rule.Keeps IsHarmless) :
    rule.Harmless :=
  .of_selector keeps.plain fun declaration member =>
    (keeps.declarations declaration member).harmless

theorem Sheet.Keeps.harmless {sheet : Sheet} (keeps : sheet.Keeps IsHarmless) :
    sheet.Harmless := by
  intro block member
  have single := keeps block member
  cases block with
  | comment text => exact single
  | rule rule => exact StyleRule.Keeps.harmless single
  | media query rules => exact single.elim

namespace UtilityClass

/-- The name has no punctuation of sheets, and the declarations are harmless. -/
structure Harmless (utility : UtilityClass) : Prop where
  name : ∀ c ∈ utility.name.toList, isValueChar c = true
  declarations : ∀ declaration ∈ utility.declarations, declaration.Harmless

theorem Keeps.harmless {utility : UtilityClass} (keeps : utility.Keeps IsHarmless) :
    utility.Harmless :=
  ⟨keeps.name, fun declaration member => (keeps.declarations declaration member).harmless⟩

theorem Harmless.rule {utility : UtilityClass} (harmless : utility.Harmless) :
    (utility.rule none).Harmless := ⟨inert_classSelector harmless.name, harmless.declarations⟩

theorem Harmless.rule_label {utility : UtilityClass} (harmless : utility.Harmless) {label : String}
    (plain : IsHarmless label) : (utility.rule (some label)).Harmless := by
  refine ⟨inert_classSelector ?_, harmless.declarations⟩
  rw [String.toList_append, String.toList_append, List.forall_mem_append, List.forall_mem_append]
  exact ⟨⟨plain.inert.plain, by simp [toString, isValueChar]⟩, harmless.name⟩

end UtilityClass

theorem harmless_plainBlocks {classes : List UtilityClass}
    (harmless : ∀ utility ∈ classes, utility.Harmless) :
    ∀ block ∈ plainBlocks classes, block.Harmless := by
  rw [plainBlocks, List.forall_mem_map]
  intro utility member
  exact (harmless utility member).rule

theorem inert_minWidth {width : String} (harmless : IsHarmless width) :
    IsInert s!"(min-width: {width})" := by
  constructor
  · rw [String.toList_append, String.toList_append, List.forall_mem_append, List.forall_mem_append]
    exact ⟨⟨by simp [toString, isValueChar], harmless.inert.plain⟩,
      by simp [toString, isValueChar]⟩
  · rw [OpensComment, String.toList_append, String.toList_append,
      pair_infix_append_iff_of_not_mem (by simp [toString]),
      pair_infix_append_iff_of_first_not_mem (by simp [toString])]
    exact harmless.unopened

theorem Sheet.harmless_titled {title : String} {blocks : List Block}
    (comment : (Block.comment title).Harmless) (harmless : ∀ block ∈ blocks, block.Harmless) :
    (Sheet.titled title blocks).Harmless := List.forall_mem_cons.mpr ⟨comment, harmless⟩

namespace Palette

variable {name suffix : String}

theorem isSolid_property (solid : IsSolid name) (known : suffix ∈ suffixes) :
    IsSolid (property name suffix) :=
  ((isSafe_of_isSafeWord rfl).2.append solid).append (isSafe_of_mem_suffixes suffix known).2

theorem harmless_of_mem_classes (named : IsHarmless name) :
    ∀ utility ∈ classes name, utility.Harmless := by
  intro utility known
  have className : IsHarmless utility.name := holds_className named known
  exact ⟨className.inert.plain, fun declaration member =>
    (keeps_of_mem_classes named known declaration member).harmless⟩

end Palette

namespace Theme.Harmless

variable {theme : Theme} (harmless : theme.Harmless)

include harmless

theorem responsive {classes : List UtilityClass} (each : ∀ utility ∈ classes, utility.Harmless)
    {sheet : Sheet} (own : sheet.Harmless) :
    (sheet.withResponsive classes theme.breakpoints).Harmless := by
  rw [Sheet.Harmless, Sheet.withResponsive, responsiveBlocks, List.forall_mem_append,
    List.forall_mem_append]
  refine ⟨own, harmless_plainBlocks each, ?_⟩
  rw [List.forall_mem_map, Theme.breakpoints, List.forall_mem_map]
  intro entry member
  have label : IsHarmless entry.1 := harmless.labels entry.1 (List.mem_map_of_mem member)
  have width : IsHarmless entry.2.text := IsCompositional.length_text (harmless.widths entry member)
  refine ⟨inert_minWidth width, ?_⟩
  rw [List.forall_mem_map]
  intro utility member
  exact (each utility member).rule_label label

theorem rootRule (shades : Color → Shades) : (Palette.rootRule shades theme.colors).Harmless := by
  refine .of_selector rfl fun declaration member => ?_
  obtain ⟨color, known, suffix, variant, shade, rfl⟩ :=
    Palette.declaration_of_mem_rootRule member
  obtain ⟨named, solid⟩ := harmless.colors color known
  exact ⟨Palette.holds_property named variant, Palette.isSolid_property solid variant,
    (isSafe_hex shade).harmless⟩

theorem palette : theme.palette.Harmless := by
  apply Sheet.harmless_titled ⟨by simp, by decide⟩
  rw [List.forall_mem_append, List.forall_mem_cons]
  have classes : ∀ utility ∈ theme.colors.names.flatMap Palette.classes, utility.Harmless := by
    rw [List.forall_mem_flatMap]
    intro name member
    exact Palette.harmless_of_mem_classes (harmless.colors name member).1
  refine ⟨⟨harmless.rootRule .onLight, harmless_plainBlocks classes⟩, ?_⟩
  split
  · refine List.forall_mem_cons.mpr ⟨⟨by simp, by decide⟩, List.forall_mem_singleton.mpr ?_⟩
    exact ⟨.of_all rfl, List.forall_mem_cons.mpr ⟨harmless.rootRule .onDark,
      List.forall_mem_singleton.mpr (.of_isSafe rfl)⟩⟩
  · exact List.forall_mem_nil _

theorem grid : theme.grid.Harmless :=
  harmless.responsive (fun utility member =>
    (keeps_columnClasses theme.layout.columns utility member).harmless)
    harmless.supplies.gridRules.harmless

theorem utilityGroup (group : UtilityGroup) : (group.sheet theme).Harmless := by
  have classes : ∀ utility ∈ group.classes theme, utility.Harmless := fun utility member =>
    (harmless.supplies.group group utility member).harmless
  cases group with
  | spacing =>
    exact harmless.responsive classes
      (Sheet.harmless_titled ⟨by simp, by decide⟩ (List.forall_mem_nil _))
  | flex =>
    exact harmless.responsive classes
      (Sheet.harmless_titled ⟨by simp, by decide⟩ (List.forall_mem_nil _))
  | color => exact Sheet.harmless_titled ⟨by simp, by decide⟩ (harmless_plainBlocks classes)
  | image => exact Sheet.harmless_titled ⟨by simp, by decide⟩ (harmless_plainBlocks classes)

theorem transitions : theme.transitions.Harmless :=
  Sheet.harmless_titled ⟨by simp, by decide⟩ (harmless_plainBlocks fun utility member =>
    (harmless.supplies.transitionClasses utility member).harmless)

theorem sections : ∀ part ∈ theme.sections, part.Harmless := by
  simp only [Theme.sections, Theme.componentSheets, Theme.utilitySheets, List.forall_mem_append,
    List.forall_mem_cons, List.forall_mem_map, List.not_mem_nil, false_imp_iff, implies_true,
    and_true]
  exact ⟨⟨⟨⟨harmless.palette, harmless.supplies.text.harmless, harmless.grid⟩,
    fun component _ => (harmless.supplies.component component).harmless⟩,
    fun group _ => harmless.utilityGroup group⟩, harmless.transitions⟩

/-- The sheet of a harmless theme is harmless. -/
theorem sheet : theme.sheet.Harmless := by
  rw [Sheet.Harmless, Theme.sheet, Sheet.merged, List.forall_mem_flatMap]
  exact harmless.sections

end Theme.Harmless

end ThemeCss
