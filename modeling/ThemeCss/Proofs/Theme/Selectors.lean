import ThemeCss.Proofs.Sheet.Responsive
import ThemeCss.Proofs.Sheet.Selectors
import ThemeCss.Proofs.Theme.Mentions
import ThemeCss.Proofs.Theme.Names
import ThemeCss.Proofs.Theme.Uncommented

/-! # Utility classes in the minified artifact

The rules of utility classes are the compact ones of a theme's sheet. As long as no text of the
theme opens a comment, the selector of each of them reaches the minified artifact, but with the
blanks of the class name treated like any others. So the rule is still one for its class exactly if
the blanks of the name are spaces and none of them is at its end.
-/

namespace ThemeCss

namespace Sheet

variable {title : String} {first rule : StyleRule} {blocks more : List Block}
variable {utility : UtilityClass} {others : List UtilityClass} {name : String}

theorem lists_titled (quiet : ';' ∉ title.toList) (unclosed : ¬ ClosesComment title.toList)
    (unbroken : ';' ∉ first.selector.toList) (braced : ∀ block ∈ blocks, block.IsBraced)
    (member : rule ∈ (Sheet.titled title (.rule first :: blocks)).rules) :
    (Sheet.titled title (.rule first :: blocks)).Lists rule := by
  have lists := @Lists.intro title first rule blocks [] quiet unclosed unbroken braced member
  rwa [List.append_nil] at lists

/-- Utility classes list their rules below a title. -/
theorem lists_classes (quiet : ';' ∉ title.toList) (unclosed : ¬ ClosesComment title.toList)
    (named : utility.name = name) (plain : name.toList.all isValueChar = true)
    (braced : ∀ block ∈ more, block.IsBraced)
    (member : rule ∈ (Sheet.titled title (plainBlocks (utility :: others) ++ more)).rules) :
    (Sheet.titled title (plainBlocks (utility :: others) ++ more)).Lists rule := by
  have inert : IsInert (classSelector utility.name) :=
    named ▸ inert_classSelector (List.all_eq_true.mp plain)
  refine lists_titled quiet unclosed (inert.not_mem rfl) ?_ member
  exact List.forall_mem_append.mpr ⟨isBraced_of_mem_plainBlocks, braced⟩

theorem lists_plainBlocks (quiet : ';' ∉ title.toList) (unclosed : ¬ ClosesComment title.toList)
    (named : utility.name = name) (plain : name.toList.all isValueChar = true)
    (member : rule ∈ (Sheet.titled title (plainBlocks (utility :: others))).rules) :
    (Sheet.titled title (plainBlocks (utility :: others))).Lists rule := by
  have none := List.append_nil (plainBlocks (utility :: others))
  rw [← none] at member ⊢
  exact lists_classes quiet unclosed named plain (List.forall_mem_nil _) member

theorem lists_withResponsive (quiet : ';' ∉ title.toList) (unclosed : ¬ ClosesComment title.toList)
    (named : utility.name = name) (plain : name.toList.all isValueChar = true)
    {breakpoints : List Breakpoint}
    (member : rule ∈ ((Sheet.titled title).withResponsive (utility :: others) breakpoints).rules) :
    ((Sheet.titled title).withResponsive (utility :: others) breakpoints).Lists rule :=
  lists_classes quiet unclosed named plain (List.forall_mem_map.mpr fun _ _ => trivial) member

end Sheet

namespace Theme

variable {theme : Theme} {rule : StyleRule}

theorem lists_palette (member : rule ∈ theme.palette.rules) (compact : rule.style = .compact) :
    theme.palette.Lists rule := by
  have member : rule ∈ ((Block.rule (Palette.rootRule .onLight theme.colors) ::
      plainBlocks (theme.colors.names.flatMap Palette.classes)) ++
        if theme.darkMode then Palette.darkBlocks theme.colors
          else []).flatMap Block.rules := member
  rw [List.flatMap_append, List.mem_append] at member
  have unbroken : ';' ∉ (Palette.rootRule .onLight theme.colors).selector.toList := by
    simp [Palette.rootRule]
  refine @Sheet.Lists.intro "Palette" _ rule _ _ (by simp) (by decide) unbroken
    isBraced_of_mem_plainBlocks (member.resolve_right fun dark => ?_)
  split at dark
  · have known : rule = Palette.rootRule .onDark theme.colors ∨ rule = Palette.darkPageRule := by
      simpa [Palette.darkBlocks, Block.rules] using dark
    rcases known with rfl | rfl
    · exact absurd compact (by simp [Palette.rootRule])
    · exact absurd compact (by simp [Palette.darkPageRule])
  · contradiction

theorem lists_grid (member : rule ∈ theme.grid.rules) : theme.grid.Lists rule := by
  refine Sheet.lists_titled (by simp) (by decide) (by simp [Page.containerRule]) ?_ member
  exact List.forall_mem_cons.mpr ⟨trivial, isBraced_of_mem_responsiveBlocks⟩

theorem lists_group {group : UtilityGroup} (member : rule ∈ (group.sheet theme).rules) :
    (group.sheet theme).Lists rule := by
  cases group with
  | spacing =>
    obtain ⟨utility, others, opens, named⟩ : ∃ utility others,
        Utilities.spacingClasses theme.spacing.baseUnit = utility :: others ∧
          utility.name = "m-0" := ⟨_, _, rfl, rfl⟩
    rw [UtilityGroup.sheet, opens] at member ⊢
    exact Sheet.lists_withResponsive (by simp) (by decide) named rfl member
  | flex => exact Sheet.lists_withResponsive (by simp) (by decide) rfl rfl member
  | color => exact Sheet.lists_plainBlocks (by simp) (by decide) rfl rfl member
  | image => exact Sheet.lists_plainBlocks (by simp) (by decide) rfl rfl member

theorem lists_transitions (member : rule ∈ theme.transitions.rules) :
    theme.transitions.Lists rule :=
  Sheet.lists_plainBlocks (by simp) (by decide) (rfl : _ = "transition") rfl member

end Theme

/-- No name of the classes is a single character. -/
def HasLongNames (classes : List UtilityClass) : Prop :=
  ∀ utility ∈ classes, 1 < utility.name.toList.length

theorem hasLongNames_palette (names : List String) :
    HasLongNames (names.flatMap Palette.classes) := by
  rw [HasLongNames, List.forall_mem_flatMap]
  intro name _
  simp only [Palette.classes, List.forall_mem_append, List.forall_mem_map,
    List.forall_mem_singleton, Palette.textClass, Palette.backgroundClass, Palette.borderClass]
  refine ⟨⟨fun suffix _ => ?_, fun suffix _ => ?_⟩, ?_⟩ <;> simp [toString]

theorem hasLongNames_columnClasses (columns : Nat) :
    HasLongNames (Page.columnClasses columns) := by
  rw [HasLongNames, Page.columnClasses, List.forall_mem_map]
  intro before _
  simp [Page.columnClass, toString]

theorem hasLongNames_group (theme : Theme) (group : UtilityGroup) :
    HasLongNames (group.classes theme) := by
  cases group with
  | spacing =>
    have letters : ∀ entry ∈ Utilities.spacingProperties, 0 < entry.2.toList.length := by decide
    rw [HasLongNames, UtilityGroup.classes, Utilities.spacingClasses, List.forall_mem_flatMap]
    rintro ⟨property, letter⟩ known
    rw [List.forall_mem_flatMap]
    rintro ⟨direction, sides⟩ _
    simp only [Utilities.stepClasses, List.forall_mem_map]
    rintro ⟨step, index⟩ _
    have shown : 0 < letter.toList.length := letters _ known
    change 1 < (numbered (letter ++ direction) index).toList.length
    rw [toList_numbered, String.toList_append, List.length_append, List.length_append,
      List.length_cons]
    omega
  | flex => exact (by decide : ∀ utility ∈ Utilities.flexClasses, 1 < utility.name.toList.length)
  | color => exact (by decide : ∀ utility ∈ Utilities.colorClasses, 1 < utility.name.toList.length)
  | image => exact (by decide : ∀ utility ∈ Utilities.imageClasses, 1 < utility.name.toList.length)

theorem hasLongNames_transitionClasses (timing : String) :
    HasLongNames (Utilities.transitionClasses timing) := by
  simp [HasLongNames, Utilities.transitionClasses]

/-- With its label, too, the name of such a class is more than one character. -/
theorem HasLongNames.ne_singleton {classes : List UtilityClass} (long : HasLongNames classes)
    {utility : UtilityClass} (known : utility ∈ classes) (label : Option String) (c : Char) :
    (labelled label utility.name).toList ≠ [c] := by
  have several := long utility known
  intro single
  have length := congrArg List.length single
  cases label with
  | none =>
    rw [labelled] at length
    exact absurd length several.ne'
  | some label =>
    rw [toList_labelled_some, List.length_append, List.length_cons, List.length_singleton] at length
    omega

namespace Theme

variable {theme : Theme} {rule : StyleRule}

theorem style_of_mem_component {component : Component}
    (member : rule ∈ (component.sheet theme).rules) : rule.style = .expanded := by
  have each : ∀ rule ∈ (component.sheet theme).rules, rule.style = .expanded := by
    cases component with
    | button => simp [Component.sheet, Components.button, Sheet.rules_titled, Block.rules]
    | card => simp [Component.sheet, Components.card, Sheet.rules_titled, Block.rules]
    | alert =>
      rw [Component.sheet, Components.alert, Sheet.rules_titled, List.flatMap_cons,
        List.flatMap_map, List.forall_mem_append, List.forall_mem_flatMap]
      exact ⟨List.forall_mem_singleton.mpr rfl, fun tone _ => List.forall_mem_singleton.mpr rfl⟩
  exact each rule member

/-- The compact rules of a theme are those of utility classes, and the section of each lists it. -/
theorem exists_lists (member : rule ∈ theme.sheet.rules) (compact : rule.style = .compact) :
    ∃ part ∈ theme.sections, part.Lists rule ∧
      ∃ classes, HasLongNames classes ∧ rule.IsOf classes := by
  rcases mem_rules_sheet.mp member with
    palette | text | grid | ⟨component, -, inside⟩ | ⟨group, known, inside⟩ | transitions
  · refine ⟨theme.palette, by simp [sections], lists_palette palette compact, _,
      hasLongNames_palette theme.colors.names, ?_⟩
    rcases rule_of_mem_palette palette with rfl | utility | rfl | rfl
    · exact absurd compact (by simp [Palette.rootRule])
    · exact utility
    · exact absurd compact (by simp [Palette.rootRule])
    · exact absurd compact (by simp [Palette.darkPageRule])
  · rcases rule_of_mem_text text with rfl | rfl
    · exact absurd compact (by simp [Page.bodyRule])
    · exact absurd compact (by simp [Page.headingRule])
  · refine ⟨theme.grid, by simp [sections], lists_grid grid, _,
      hasLongNames_columnClasses theme.layout.columns, ?_⟩
    rcases rule_of_mem_grid grid with rfl | rfl | utility
    · exact absurd compact (by simp [Page.containerRule])
    · exact absurd compact (by simp [Page.rowRule])
    · exact utility
  · rw [style_of_mem_component inside] at compact
    contradiction
  · refine ⟨group.sheet theme, ?_, lists_group inside, _, hasLongNames_group theme group,
      rule_of_mem_group inside⟩
    simp only [sections, utilitySheets, List.mem_append, List.mem_map]
    exact .inl (.inr ⟨group, known, rfl⟩)
  · exact ⟨theme.transitions, by simp [sections], lists_transitions transitions, _,
      hasLongNames_transitionClasses _, rule_of_mem_transitions transitions⟩

theorem lacks_titles (theme : Theme) :
    ∀ title ∈ theme.sheet.titles, (Block.comment title).Lacks ['/', '/', '*'] := by
  have table : ∀ darkMode : Bool, ∀ part ∈ Part.all, ∀ title ∈ part.titles darkMode,
      (Block.comment title).Lacks ['/', '/', '*'] := by
    simp only [Block.Lacks]
    decide +kernel
  rw [titles_sheet, List.forall_mem_flatMap]
  exact fun part _ => table theme.darkMode part part.mem_all

namespace Uncommented

variable (own : theme.Uncommented)

include own

theorem not_opensBehindSlash_section {part : Sheet} (known : part ∈ theme.sections) :
    ¬ OpensBehindSlash (withVendorCopies part.text).toList := by
  refine Sheet.not_opensBehindSlash_copies (fun title member => ?_) fun block member braced =>
    (own.sections part known block member braced).mono opening_infix_slashed
  have inside : Block.comment title ∈ theme.sheet.blocks :=
    List.mem_flatMap.mpr ⟨part, known, member⟩
  exact theme.lacks_titles title (List.mem_filterMap.mpr ⟨_, inside, rfl⟩)

/-- In front of a section the artifact has no opening behind a slash. -/
theorem not_opensBehindSlash_front {earlier : List Sheet}
    (known : ∀ part ∈ earlier, part ∈ theme.sections) : ¬ OpensBehindSlash (banner.toList ++
      earlier.flatMap fun part => '\n' :: (withVendorCopies part.text).toList) := by
  have each (part : Sheet) (member : part ∈ earlier) :=
    own.not_opensBehindSlash_section (known part member)
  have start : ¬ OpensBehindSlash banner.toList := by decide
  generalize banner.toList = front at start
  induction earlier generalizing front with
  | nil => simpa using start
  | cons part rest ih =>
    obtain ⟨single, others⟩ := List.forall_mem_cons.mp each
    rw [OpensBehindSlash, List.flatMap_cons, List.cons_append,
      infix_append_cons_iff IsCommentMark.nonempty (by decide), not_or]
    exact ⟨start,
      ih (fun part member => known part (List.mem_cons_of_mem _ member)) others _ single⟩

/-- The selector of a class is in the text that is left without comments. -/
theorem exists_stripComments_readable {label : Option String} {utility : UtilityClass}
    (member : utility.rule label ∈ theme.sheet.rules) : ∃ before behind,
    stripComments theme.readable.toList = before ++
      '.' :: (escapeName (labelled label utility.name).toList ++ ' ' :: '{' :: behind) := by
  generalize named : (labelled label utility.name).toList = name
  have letters : (utility.rule label).selector.toList = '.' :: escapeName name := by
    simp [UtilityClass.selector_rule, classSelector, escapeClass, named]
  have escapes : EscapesColons ('.' :: escapeName name) :=
    EscapesColons.append (.of_not_mem (by decide : ':' ∉ ['.'])) (.escapeName name)
  obtain ⟨part, known, lists, -⟩ := exists_lists member rfl
  obtain ⟨title, before, behind, unclosed, unopened, written⟩ :=
    lists.exists_toList (own.sections part known) (letters ▸ escapes)
  obtain ⟨earlier, later, split⟩ := List.append_of_mem known
  have front := own.not_opensBehindSlash_front (fun part member => by
    rw [split]
    exact List.mem_append_left _ member : ∀ part ∈ earlier, part ∈ theme.sections)
  obtain ⟨bare, cleared⟩ : ∃ bare, IsCleared _ '\n' _ bare :=
    exists_isCleared (Sheet.isComment_titleLine unclosed) (by decide) (by decide) front
  have first : ¬ OpensComment (before ++ '.' :: (escapeName name ++ [' '])) := by
    rw [OpensComment, pair_infix_append_cons_iff (by decide) (by decide), not_or,
      pair_infix_append_iff_of_not_mem (by decide)]
    exact ⟨unopened, not_opensComment_escapeName name⟩
  have stripped := cleared.stripComments_eq first (by decide : '{' ≠ '/') (by decide)
    (behind ++ later.flatMap fun part => '\n' :: (withVendorCopies part.text).toList)
  refine ⟨bare ++ '\n' :: before, stripComments (behind ++ later.flatMap fun part =>
    '\n' :: (withVendorCopies part.text).toList), ?_⟩
  have whole : theme.readable.toList = (banner.toList ++
      earlier.flatMap fun part => '\n' :: (withVendorCopies part.text).toList) ++
        '\n' :: (Sheet.titleLine title ++ '\n' :: (before ++ '.' :: (escapeName name ++ [' ']) ++
          '{' :: (behind ++ later.flatMap fun part =>
            '\n' :: (withVendorCopies part.text).toList))) := by
    rw [toList_readable, split, List.flatMap_append, List.flatMap_cons, written, letters]
    simp
  rw [whole, stripped]
  simp

end Uncommented

/-- A theme of which no text opens a comment has the selector of every utility class in the minified
artifact, in front of its brace and squeezed like any text. It is the selector of the class if the
blanks of the class name are spaces inside the name, and only then: any other blank is changed, and
one at the end is dropped, so that its backslash escapes the brace. -/
theorem selector_minified (own : theme.Uncommented) {label : Option String}
    {utility : UtilityClass} (member : utility.rule label ∈ theme.sheet.rules) :
    let name := labelled label utility.name
    squeezed (classSelector name).toList ++ ['{'] <:+: theme.compile.minified.toList ∧
      ((classSelector name ++ "\x7b").toList <:+: theme.compile.minified.toList ↔
        HasInnerSpaces name.toList) := by
  intro name
  obtain ⟨before, behind, stripped⟩ := own.exists_stripComments_readable member
  obtain ⟨part, -, -, classes, long, listed, known, place, same⟩ := exists_lists member rfl
  have selectors := congrArg StyleRule.selector same
  rw [UtilityClass.selector_rule, UtilityClass.selector_rule] at selectors
  have named : labelled place listed.name = name := injective_classSelector selectors
  have several (c : Char) (single : name.toList = [c]) : c.isDigit = false :=
    absurd single (named ▸ long.ne_singleton known place c)
  have letters : (classSelector name).toList = '.' :: escapeName name.toList := by
    simp [classSelector, escapeClass]
  have whole : theme.compile.minified.toList = minifyText theme.readable.toList := by
    rw [compile, minified, String.toList_ofList]
  have brace : (classSelector name ++ "\x7b").toList = '.' :: escapeName name.toList ++ ['{'] := by
    rw [String.toList_append, letters]
    rfl
  rw [whole, letters, brace]
  exact selector_minifyText stripped several

theorem mem_rules_textClass {color : String} (known : color ∈ theme.colors.names) :
    (Palette.textClass color "").rule none ∈ theme.sheet.rules := by
  have listed : Palette.textClass color "" ∈ theme.colors.names.flatMap Palette.classes :=
    List.mem_flatMap.mpr ⟨color, known, by simp [Palette.classes, Palette.suffixes]⟩
  refine mem_rules_sheet.mpr (.inl ?_)
  rw [palette, Sheet.rules_titled, List.flatMap_append, List.flatMap_cons]
  exact List.mem_append_left _ (List.mem_append_right _
    (mem_rules_plainBlocks.mpr ⟨_, listed, rfl⟩))

/-- A space inside a name is kept. -/
theorem selector_minified_foam :
    (ofColors foam).Uncommented ∧
      (Palette.textClass "sea foam" "").rule none ∈ (ofColors foam).sheet.rules ∧
      ".text-sea\\ foam\x7b".toList <:+: (ofColors foam).compile.minified.toList := by
  have own : (ofColors foam).Uncommented :=
    ⟨by decide, List.forall_mem_nil _, by decide, by decide, by decide, by decide, by decide,
      by decide⟩
  have member : (Palette.textClass "sea foam" "").rule none ∈ (ofColors foam).sheet.rules :=
    mem_rules_textClass List.mem_cons_self
  have inner : HasInnerSpaces (labelled none (Palette.textClass "sea foam" "").name).toList :=
    ⟨by simp [labelled, Palette.textClass, isBlank, toString],
      by simp [labelled, Palette.textClass, isBlank, toString]⟩
  have kept := ((ofColors foam).selector_minified own member).2.mpr inner
  have letters : classSelector (labelled none (Palette.textClass "sea foam" "").name) ++ "\x7b" =
      ".text-sea\\ foam\x7b" := by decide
  exact ⟨own, member, letters ▸ kept⟩

/-- A space at the end of a name is lost, and the brace behind it is escaped instead. -/
theorem selector_minified_refuted : ¬ ∀ (text : String) (theme : Theme)
    (diagnostics : List Diagnostic), ofJson text = .ok theme → theme.check = .ok diagnostics →
      ∀ (label : Option String) (utility : UtilityClass),
        utility.rule label ∈ theme.sheet.rules →
          (classSelector (labelled label utility.name) ++ "\x7b").toList <:+:
            theme.compile.minified.toList := by
  intro claim
  let trailing : Catalog Color := ⟨[("sea ", ⟨0, 0x66, 0xcc⟩)], List.nodup_singleton _⟩
  obtain ⟨text, theme, diagnostics, read, checked, colors, -⟩ :=
    exists_accepted trailing ⟨"Inter", "Georgia"⟩
  have known : "sea " ∈ theme.colors.names := colors ▸ List.mem_cons_self
  have inside := claim text theme diagnostics read checked none _ (mem_rules_textClass known)
  have normal : IsNormal theme.compile.minified.toList := by
    rw [compile, minified, String.toList_ofList]
    exact isNormal_minifyText _
  have letters : (classSelector (labelled none (Palette.textClass "sea " "").name) ++ "\x7b").toList =
      ".text-sea\\".toList ++ [' ', '{'] := by decide
  have pair : [' ', '{'] <:+: theme.compile.minified.toList :=
    (letters ▸ (List.suffix_append _ _).isInfix).trans inside
  have tight := normal.tight.infix pair
  simp [isPunctuation] at tight

end Theme

end ThemeCss
