import ThemeCss.Proofs.Theme.Rules
import ThemeCss.Proofs.Theme.Texts

/-! # What the sections make of the texts of a theme

Outside the palette the properties of declarations are safe words, and a value is safe but for the
texts of the theme in it, which have something safe between them. So a property of texts that safe
ones leave as it is goes over from the texts of a theme to all values of its sections.
-/

namespace ThemeCss

variable {holds : String → Prop}

/-- The property is a safe word, and the value is such a text. -/
structure Declaration.Keeps (holds : String → Prop) (declaration : Declaration) : Prop where
  word : isSafeWord declaration.property = true
  value : holds declaration.value

/-- The selector is plain, and the values of all declarations are such texts. -/
structure StyleRule.Keeps (holds : String → Prop) (rule : StyleRule) : Prop where
  plain : (rule.selector.toList.all fun c => isValueChar c && c != '/') = true
  declarations : ∀ declaration ∈ rule.declarations, declaration.Keeps holds

/-- The name has no punctuation of sheets, and the values of all declarations are such texts. -/
structure UtilityClass.Keeps (holds : String → Prop) (utility : UtilityClass) : Prop where
  name : ∀ c ∈ utility.name.toList, isValueChar c = true
  declarations : ∀ declaration ∈ utility.declarations, declaration.Keeps holds

/-- A rule with such values, or a comment that neither ends early nor has a semicolon. -/
def Block.Keeps (holds : String → Prop) : Block → Prop
  | comment text => ';' ∉ text.toList ∧ ¬ ClosesComment text.toList
  | rule single => single.Keeps holds
  | media _ _ => False

/-- The sheet is made of such blocks. -/
def Sheet.Keeps (holds : String → Prop) (sheet : Sheet) : Prop :=
  ∀ block ∈ sheet.blocks, block.Keeps holds

theorem Sheet.keeps_titled {title : String} {blocks : List Block}
    (comment : (Block.comment title).Keeps holds) (keep : ∀ block ∈ blocks, block.Keeps holds) :
    (Sheet.titled title blocks).Keeps holds := List.forall_mem_cons.mpr ⟨comment, keep⟩

theorem Declaration.Keeps.of_isSafeWord {property value : String}
    (word : isSafeWord property = true) (valued : holds value) :
    (Declaration.mk property value).Keeps holds := ⟨word, valued⟩

theorem StyleRule.Keeps.of_selector {selector : String} {declarations : List Declaration}
    {style : RuleStyle} (plain : (selector.toList.all fun c => isValueChar c && c != '/') = true)
    (keep : ∀ declaration ∈ declarations, declaration.Keeps holds) :
    (StyleRule.mk selector declarations style).Keeps holds := ⟨plain, keep⟩

section Safe

variable [IsCompositional holds]

theorem Declaration.Keeps.of_isSafe {declaration : Declaration} (safe : declaration.isSafe = true) :
    declaration.Keeps holds := by
  rw [Declaration.isSafe, Bool.and_eq_true] at safe
  exact ⟨safe.1, IsCompositional.of_all safe.2⟩

theorem StyleRule.Keeps.of_isSafe {rule : StyleRule} (safe : rule.isSafe = true) :
    rule.Keeps holds := by
  rw [StyleRule.isSafe, Bool.and_eq_true] at safe
  exact ⟨safe.1, fun declaration member =>
    .of_isSafe (List.all_eq_true.mp safe.2 declaration member)⟩

/-- Whether a class is safe. -/
def UtilityClass.isSafe (utility : UtilityClass) : Bool :=
  utility.name.toList.all isValueChar && utility.declarations.all Declaration.isSafe

theorem UtilityClass.keeps_of_all {classes : List UtilityClass}
    (safe : classes.all UtilityClass.isSafe = true) : ∀ utility ∈ classes, utility.Keeps holds := by
  intro utility member
  have single := List.all_eq_true.mp safe utility member
  rw [isSafe, Bool.and_eq_true] at single
  exact ⟨List.all_eq_true.mp single.1, fun declaration member =>
    .of_isSafe (List.all_eq_true.mp single.2 declaration member)⟩

namespace Palette

variable {name suffix : String}

theorem isSafe_of_mem_suffixes : ∀ suffix ∈ suffixes, IsSafe suffix ∧ IsSolid suffix :=
  fun suffix member => isSafe_of_isSafeWord
    (List.all_eq_true.mp (rfl : suffixes.all isSafeWord = true) suffix member)

theorem holds_property (named : holds name) (known : suffix ∈ suffixes) :
    holds (property name suffix) :=
  IsCompositional.append_safe (IsCompositional.safe_append (.of_all rfl) named)
    (isSafe_of_mem_suffixes suffix known).1

theorem holds_reference (named : holds name) (known : suffix ∈ suffixes) :
    holds (reference name suffix) :=
  IsCompositional.append_safe
    (IsCompositional.safe_append (.of_all rfl) (holds_property named known)) (.of_all rfl)

end Palette

theorem keeps_columnClasses (columns : Nat) :
    ∀ utility ∈ Page.columnClasses columns, utility.Keeps holds := by
  rw [Page.columnClasses, List.forall_mem_map]
  intro before _
  have width : IsSafe (Page.columnWidth (before + 1) columns) :=
    (isSafe_fixed 4 _).append (.of_all rfl)
  have name : IsSafe s!"col-{before + 1}" := .append (.of_all rfl) (isSafe_repr _)
  have share : holds (Page.columnWidth (before + 1) columns) := IsCompositional.of_isSafe width
  have flex : holds s!"0 0 {Page.columnWidth (before + 1) columns}" :=
    IsCompositional.safe_append (.of_all rfl) share
  refine ⟨name.harmless.inert.plain, List.forall_mem_cons.mpr ⟨.of_isSafeWord rfl flex, ?_⟩⟩
  exact List.forall_mem_singleton.mpr (.of_isSafeWord rfl share)

end Safe

theorem keeps_sideDeclarations {property value : String} {sides : List String}
    (word : isSafeWord property = true) (words : ∀ side ∈ sides, isSafeWord side = true)
    (valued : holds value) :
    ∀ declaration ∈ Utilities.sideDeclarations property sides value, declaration.Keeps holds := by
  rw [Utilities.sideDeclarations.eq_def]
  split
  · exact List.forall_mem_singleton.mpr ⟨word, valued⟩
  · rw [List.forall_mem_map]
    intro side member
    have joined : isSafeWord (property ++ "-" ++ side) = true := by
      rw [isSafeWord_append, isSafeWord_append, word, words side member]
      rfl
    exact ⟨joined, valued⟩

/-- The texts of a theme that get into values, but for the names of its colours. -/
structure Theme.Supplies (holds : String → Prop) (theme : Theme) : Prop where
  main : holds theme.typography.main
  headlines : holds theme.typography.headlines
  duration : holds theme.transition.duration
  easing : holds theme.transition.easing
  container : holds theme.layout.container.unit
  baseUnit : holds theme.spacing.baseUnit.unit

namespace Theme.Supplies

open IsCompositional (length_text safe_append)

variable [IsCompositional holds] {theme : Theme} (supplies : theme.Supplies holds)

include supplies

theorem timing : holds theme.transition.timing :=
  IsCompositional.spaced supplies.duration supplies.easing

/-- Two movements with the theme's timing. -/
theorem movement {front : String} (safe : IsSafe front) :
    holds (front ++ theme.transition.timing ++ ", transform " ++ theme.transition.timing) :=
  IsCompositional.between (safe_append safe supplies.timing) (.of_all rfl) (by simp)
    supplies.timing

theorem unit : holds theme.spacing.baseUnit.text := length_text supplies.baseUnit

theorem units (factor : Binary64) : holds (Components.units theme factor) := by
  have scaled : holds (theme.spacing.baseUnit.scale factor).unit := supplies.baseUnit
  exact length_text scaled

theorem bodyRule : (Page.bodyRule theme).Keeps holds := by
  have lineHeight : IsSafe (Page.lineHeight theme.spacing.lineHeight) :=
    (isSafe_compact _).append (.of_all rfl)
  apply StyleRule.Keeps.of_selector rfl
  simp only [List.forall_mem_cons, List.not_mem_nil, false_imp_iff, implies_true, and_true]
  exact ⟨.of_isSafeWord rfl supplies.main,
    .of_isSafeWord rfl (IsCompositional.of_isSafe lineHeight), .of_isSafe rfl⟩

theorem headingRule : (Page.headingRule theme).Keeps holds := by
  apply StyleRule.Keeps.of_selector rfl
  simp only [List.forall_mem_cons, List.not_mem_nil, false_imp_iff, implies_true, and_true]
  exact ⟨.of_isSafeWord rfl supplies.headlines, .of_isSafe rfl, .of_isSafe rfl⟩

theorem text : theme.text.Keeps holds :=
  Sheet.keeps_titled ⟨by simp, by decide⟩ (List.forall_mem_cons.mpr
    ⟨supplies.bodyRule, List.forall_mem_singleton.mpr supplies.headingRule⟩)

theorem containerRule : (Page.containerRule theme).Keeps holds := by
  have unit := supplies.unit
  apply StyleRule.Keeps.of_selector rfl
  simp only [List.forall_mem_cons, List.not_mem_nil, false_imp_iff, implies_true, and_true]
  exact ⟨.of_isSafe rfl, .of_isSafeWord rfl (length_text supplies.container), .of_isSafe rfl,
    .of_isSafe rfl, .of_isSafeWord rfl unit, .of_isSafeWord rfl unit⟩

theorem rowRule : (Page.rowRule theme).Keeps holds := by
  apply StyleRule.Keeps.of_selector rfl
  simp only [List.forall_mem_cons, List.not_mem_nil, false_imp_iff, implies_true, and_true]
  exact ⟨.of_isSafe rfl, .of_isSafe rfl, .of_isSafeWord rfl supplies.unit⟩

theorem gridRules : (Sheet.titled "Layout"
    [.rule (Page.containerRule theme), .rule (Page.rowRule theme)]).Keeps holds :=
  Sheet.keeps_titled ⟨by simp, by decide⟩ (List.forall_mem_cons.mpr
    ⟨supplies.containerRule, List.forall_mem_singleton.mpr supplies.rowRule⟩)

theorem button : (Components.button theme).Keeps holds := by
  have half := supplies.units Components.half
  have padding := IsCompositional.spaced half (supplies.units Components.oneAndAHalf)
  have movement := @Supplies.movement holds _ theme supplies "background-color " (.of_all rfl)
  apply Sheet.keeps_titled ⟨by simp, by decide⟩
  simp only [List.forall_mem_cons, List.not_mem_nil, false_imp_iff, implies_true, and_true]
  -- What the theme brings along is in three declarations; the others are checked by evaluation.
  refine ⟨.of_selector rfl ?_, .of_isSafe rfl, .of_isSafe rfl, .of_isSafe rfl⟩
  simp only [List.forall_mem_cons, List.not_mem_nil, false_imp_iff, implies_true, and_true]
  exact ⟨.of_isSafe rfl, .of_isSafe rfl, .of_isSafe rfl, .of_isSafeWord rfl half,
    .of_isSafeWord rfl padding, .of_isSafe rfl, .of_isSafe rfl, .of_isSafe rfl, .of_isSafe rfl,
    .of_isSafe rfl, .of_isSafe rfl, .of_isSafe rfl, .of_isSafe rfl, .of_isSafe rfl,
    .of_isSafeWord rfl movement⟩

theorem card : (Components.card theme).Keeps holds := by
  have movement := @Supplies.movement holds _ theme supplies "box-shadow " (.of_all rfl)
  apply Sheet.keeps_titled ⟨by simp, by decide⟩
  simp only [List.forall_mem_cons, List.not_mem_nil, false_imp_iff, implies_true, and_true]
  refine ⟨.of_selector rfl ?_, .of_isSafe rfl, .of_selector rfl ?_⟩
  · simp only [List.forall_mem_cons, List.not_mem_nil, false_imp_iff, implies_true, and_true]
    exact ⟨.of_isSafe rfl, .of_isSafe rfl, .of_isSafe rfl,
      .of_isSafeWord rfl (supplies.units Components.oneAndAHalf), .of_isSafe rfl,
      .of_isSafeWord rfl movement⟩
  · exact List.forall_mem_singleton.mpr (.of_isSafeWord rfl supplies.unit)

theorem alert : (Components.alert theme).Keeps holds := by
  have gap := supplies.units Components.threeQuarters
  have table : (tones.all fun tone => (Components.toneRule tone).isSafe) = true := by
    decide +kernel
  apply Sheet.keeps_titled ⟨by simp, by decide⟩
  rw [List.forall_mem_cons, List.forall_mem_map]
  refine ⟨.of_selector rfl ?_, fun tone member => StyleRule.Keeps.of_isSafe
    (List.all_eq_true.mp table tone (List.mem_of_mem_filter member))⟩
  simp only [List.forall_mem_cons, List.not_mem_nil, false_imp_iff, implies_true, and_true]
  exact ⟨.of_isSafe rfl, .of_isSafe rfl, .of_isSafeWord rfl gap,
    .of_isSafeWord rfl (IsCompositional.spaced gap supplies.unit), .of_isSafe rfl, .of_isSafe rfl⟩

theorem component (component : Component) : (component.sheet theme).Keeps holds := by
  cases component with
  | button => exact supplies.button
  | card => exact supplies.card
  | alert => exact supplies.alert

theorem spacingClasses : ∀ utility ∈ Utilities.spacingClasses theme.spacing.baseUnit,
    utility.Keeps holds := by
  have properties : (Utilities.spacingProperties.all fun entry =>
      isSafeWord entry.1 && isSafeWord entry.2) = true := rfl
  have directions : (Utilities.spacingDirections.all fun entry =>
      isSafeWord entry.1 && entry.2.all isSafeWord) = true := rfl
  rw [Utilities.spacingClasses, List.forall_mem_flatMap]
  rintro ⟨property, letter⟩ propertyMember
  rw [List.forall_mem_flatMap]
  rintro ⟨direction, sides⟩ directionMember
  have words := List.all_eq_true.mp properties _ propertyMember
  have steps := List.all_eq_true.mp directions _ directionMember
  rw [Bool.and_eq_true] at words steps
  simp only [Utilities.stepClasses, List.forall_mem_map]
  rintro ⟨step, index⟩ _
  have name : IsSafe (letter ++ direction ++ "-" ++ index.repr) :=
    (((isSafe_of_isSafeWord words.2).1.append (isSafe_of_isSafeWord steps.1).1).append
      (.of_all rfl)).append (isSafe_repr index)
  exact ⟨name.harmless.inert.plain, keeps_sideDeclarations words.1
    (List.all_eq_true.mp steps.2) (supplies.units step)⟩

theorem group (group : UtilityGroup) : ∀ utility ∈ group.classes theme, utility.Keeps holds := by
  have flex : Utilities.flexClasses.all UtilityClass.isSafe = true := by decide +kernel
  have color : Utilities.colorClasses.all UtilityClass.isSafe = true := by decide +kernel
  have image : Utilities.imageClasses.all UtilityClass.isSafe = true := by decide +kernel
  cases group with
  | spacing => exact supplies.spacingClasses
  | flex => exact UtilityClass.keeps_of_all flex
  | color => exact UtilityClass.keeps_of_all color
  | image => exact UtilityClass.keeps_of_all image

theorem transitionClasses : ∀ utility ∈ Utilities.transitionClasses theme.transition.timing,
    utility.Keeps holds := by
  have timing := supplies.timing
  have all : holds s!"all {theme.transition.timing}" := safe_append (.of_all rfl) timing
  have color : holds s!"color {theme.transition.timing}" := safe_append (.of_all rfl) timing
  have colors : holds (s!"color {theme.transition.timing}" ++ ", background-color " ++
      theme.transition.timing ++ ", border-color " ++ theme.transition.timing) :=
    IsCompositional.between (IsCompositional.between color (.of_all rfl) (by simp) timing)
      (.of_all rfl) (by simp) timing
  have transform : holds s!"transform {theme.transition.timing}" :=
    safe_append (.of_all rfl) timing
  have single {name value : String} (plain : name.toList.all isValueChar = true)
      (valued : holds value) : (UtilityClass.mk name [⟨"transition", value⟩]).Keeps holds :=
    ⟨List.all_eq_true.mp plain, List.forall_mem_singleton.mpr (.of_isSafeWord rfl valued)⟩
  simp only [Utilities.transitionClasses, List.forall_mem_cons, List.not_mem_nil, false_imp_iff,
    implies_true, and_true]
  exact ⟨single rfl all, single rfl colors, single rfl transform,
    single rfl (IsCompositional.of_all rfl)⟩

end Theme.Supplies

end ThemeCss
