import ThemeCss.Proofs.Theme.Palette

/-! # Themes that open no comments

The texts of a theme go into the sheet as they are, all but the names of classes: these are escaped,
so that no comment opens in a selector. If no other text of a theme opens a comment, none of its
sections does but in their titles.
-/

namespace ThemeCss

/-- None of the texts that a theme brings along opens a comment. Labels of breakpoints are not among
them: they are only part of the names of classes. -/
structure Theme.Uncommented (theme : Theme) : Prop where
  colors : ∀ name ∈ theme.colors.names, ¬ OpensComment name.toList
  widths : ∀ entry ∈ theme.layout.breakpoints.entries, ¬ OpensComment entry.2.unit.toList
  main : ¬ OpensComment theme.typography.main.toList
  headlines : ¬ OpensComment theme.typography.headlines.toList
  duration : ¬ OpensComment theme.transition.duration.toList
  easing : ¬ OpensComment theme.transition.easing.toList
  container : ¬ OpensComment theme.layout.container.unit.toList
  baseUnit : ¬ OpensComment theme.spacing.baseUnit.unit.toList

/-- The mark is in no part of the sheet but its comments. -/
def Sheet.Lacks (mark : List Char) (sheet : Sheet) : Prop :=
  ∀ block ∈ sheet.blocks, block.IsBraced → block.Lacks mark

/-- The mark is in no declaration of the classes. -/
def ClassesLack (mark : List Char) (classes : List UtilityClass) : Prop :=
  ∀ utility ∈ classes, ∀ declaration ∈ utility.declarations, declaration.Lacks mark

section Marks

variable {mark : List Char} {title : String} {blocks : List Block} {classes : List UtilityClass}

theorem Sheet.lacks_titled (lacks : ∀ block ∈ blocks, block.Lacks mark) :
    (Sheet.titled title blocks).Lacks mark :=
  List.forall_mem_cons.mpr ⟨False.elim, fun block member _ => lacks block member⟩

theorem ClassesLack.plainBlocks (opens : ['/', '*'] <:+: mark) (lack : ClassesLack mark classes) :
    ∀ block ∈ plainBlocks classes, block.Lacks mark :=
  List.forall_mem_map.mpr fun utility member => .of_utility opens (lack utility member) none

/-- Texts that go on without an opening in a longer mark do so in a shorter one. -/
theorem Block.Lacks.mono {block : Block} {more : List Char} (opens : mark <:+: more)
    (lacks : block.Lacks mark) : block.Lacks more := by
  have longer {text : List Char} (absent : ¬ mark <:+: text) : ¬ more <:+: text :=
    fun inside => absent (opens.trans inside)
  have wider {rule : StyleRule} (lacks : rule.Lacks mark) : rule.Lacks more :=
    ⟨longer lacks.selector, fun declaration member =>
      (lacks.declarations declaration member).imp longer longer⟩
  cases block with
  | comment text => exact longer lacks
  | rule single => exact wider lacks
  | media query rules => exact ⟨longer lacks.1, fun rule member => wider (lacks.2 rule member)⟩

variable [IsCommentMark mark]

theorem Sheet.Keeps.lacks {sheet : Sheet} (keeps : sheet.Keeps (IsUnmarked mark)) :
    sheet.Lacks mark := by
  intro block member braced
  have single := keeps block member
  cases block with
  | comment text => exact braced.elim
  | rule rule => exact StyleRule.Keeps.lacks single
  | media query rules => exact single.elim

theorem ClassesLack.of_keeps (keep : ∀ utility ∈ classes, utility.Keeps (IsUnmarked mark)) :
    ClassesLack mark classes :=
  fun utility member declaration known =>
    ((keep utility member).declarations declaration known).lacks

end Marks

namespace Theme.Uncommented

variable {theme : Theme} (own : theme.Uncommented)

include own

theorem supplies : theme.Supplies (IsUnmarked ['/', '*']) where
  main := own.main
  headlines := own.headlines
  duration := own.duration
  easing := own.easing
  container := own.container
  baseUnit := own.baseUnit

theorem responsive {sheet : Sheet} {classes : List UtilityClass} (lacks : sheet.Lacks ['/', '*'])
    (lack : ClassesLack ['/', '*'] classes) :
    (sheet.withResponsive classes theme.breakpoints).Lacks ['/', '*'] := by
  refine List.forall_mem_append.mpr ⟨lacks, ?_⟩
  rw [responsiveBlocks, List.forall_mem_append]
  refine ⟨fun block member _ => lack.plainBlocks (List.infix_refl _) block member, ?_⟩
  rw [List.forall_mem_map, Theme.breakpoints, List.forall_mem_map]
  intro entry member _
  have width : IsUnmarked ['/', '*'] entry.2.text :=
    IsCompositional.length_text (own.widths entry member)
  have closed : IsUnmarked ['/', '*'] (entry.2.text ++ ")") := width.append_safe (.of_all rfl)
  have front : IsShut ['/', '*'] "(min-width: ".toList := .of_not_mem (by simp)
  refine ⟨by simpa [toString] using front _ closed, List.forall_mem_map.mpr ?_⟩
  exact fun utility known => .of_utility (List.infix_refl _) (lack utility known) _

theorem grid : theme.grid.Lacks ['/', '*'] :=
  own.responsive own.supplies.gridRules.lacks
    (.of_keeps (keeps_columnClasses theme.layout.columns))

theorem utilityGroup (group : UtilityGroup) : (group.sheet theme).Lacks ['/', '*'] := by
  have lack : ClassesLack ['/', '*'] (group.classes theme) := .of_keeps (own.supplies.group group)
  have none {title : String} : (Sheet.titled title).Lacks ['/', '*'] :=
    Sheet.lacks_titled (List.forall_mem_nil _)
  cases group with
  | spacing => exact own.responsive none lack
  | flex => exact own.responsive none lack
  | color => exact Sheet.lacks_titled (lack.plainBlocks (List.infix_refl _))
  | image => exact Sheet.lacks_titled (lack.plainBlocks (List.infix_refl _))

theorem transitions : theme.transitions.Lacks ['/', '*'] :=
  Sheet.lacks_titled ((ClassesLack.of_keeps own.supplies.transitionClasses).plainBlocks
    (List.infix_refl _))

/-- No comment opens in a section but its title. -/
theorem sections : ∀ part ∈ theme.sections, part.Lacks ['/', '*'] := by
  simp only [Theme.sections, Theme.componentSheets, Theme.utilitySheets, List.forall_mem_append,
    List.forall_mem_cons, List.forall_mem_map, List.not_mem_nil, false_imp_iff, implies_true,
    and_true]
  exact ⟨⟨⟨⟨theme.lacks_palette (List.infix_refl _) own.colors, own.supplies.text.lacks, own.grid⟩,
    fun component _ => (own.supplies.component component).lacks⟩,
    fun group _ => own.utilityGroup group⟩, own.transitions⟩

end Theme.Uncommented

end ThemeCss
