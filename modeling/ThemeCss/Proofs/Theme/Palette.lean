import ThemeCss.Proofs.Sheet.Classes
import ThemeCss.Proofs.Sheet.Titled
import ThemeCss.Proofs.Theme.Copies
import ThemeCss.Proofs.Theme.References
import ThemeCss.Proofs.Theme.Supplied

/-! # The declarations of the palette

A rule for the root declares a shade for each property of a colour, and a class of a colour refers
to its properties or names one of two fixed colours. The name of the colour is the only part of them
that is not fixed: unless an opening of a comment stands behind a slash in it, none does so in the
palette.
-/

namespace ThemeCss

namespace Palette

variable {color suffix : String}

theorem declaration_of_mem_rootRule {shades : Color → Shades} {colors : Catalog Color}
    {declaration : Declaration} (member : declaration ∈ (rootRule shades colors).declarations) :
    ∃ color ∈ colors.names, ∃ suffix ∈ suffixes, ∃ shade : Color,
      declaration = ⟨property color suffix, shade.hex⟩ := by
  obtain ⟨⟨color, base⟩, known, inside⟩ := List.mem_flatMap.mp member
  have configured : color ∈ colors.names := List.mem_map_of_mem known
  simp only [properties, List.mem_cons, List.not_mem_nil, or_false] at inside
  rcases inside with rfl | rfl | rfl
  · exact ⟨color, configured, "", by decide, _, rfl⟩
  · exact ⟨color, configured, "-light", by decide, _, rfl⟩
  · exact ⟨color, configured, "-dark", by decide, _, rfl⟩

/-- The properties that the classes of colours set. -/
def setProperties : List String := ["color", "background-color", "border-color"]

theorem declaration_of_mem_classes {utility : UtilityClass} (known : utility ∈ classes color)
    {declaration : Declaration} (member : declaration ∈ utility.declarations) :
    declaration.property ∈ setProperties ∧
      ((∃ suffix ∈ suffixes, declaration.value = reference color suffix) ∨
        declaration.value ∈ [textOnLight, textOnDark]) := by
  rw [classes, List.mem_append, List.mem_append, List.mem_map, List.mem_map,
    List.mem_singleton] at known
  rcases known with (⟨suffix, known, rfl⟩ | ⟨suffix, known, rfl⟩) | rfl
  · obtain rfl := List.mem_singleton.mp member
    exact ⟨by simp [setProperties], .inl ⟨suffix, known, rfl⟩⟩
  · rcases List.mem_cons.mp member with rfl | text
    · exact ⟨by simp [setProperties], .inl ⟨suffix, known, rfl⟩⟩
    · obtain rfl := List.mem_singleton.mp text
      refine ⟨by simp [setProperties], .inr ?_⟩
      dsimp only
      split <;> simp
  · obtain rfl := List.mem_singleton.mp member
    exact ⟨by simp [setProperties], .inl ⟨"", by decide, rfl⟩⟩

variable {holds : String → Prop} [IsCompositional holds]

theorem holds_className (named : holds color) {utility : UtilityClass}
    (known : utility ∈ classes color) : holds utility.name := by
  have joined {front suffix : String} (safe : IsSafe front) (variant : suffix ∈ suffixes) :
      holds (front ++ color ++ suffix) :=
    IsCompositional.append_safe (IsCompositional.safe_append safe named)
      (isSafe_of_mem_suffixes suffix variant).1
  simp only [classes, List.mem_append, List.mem_map, List.mem_singleton] at known
  rcases known with (⟨suffix, variant, rfl⟩ | ⟨suffix, variant, rfl⟩) | rfl
  · exact joined (.of_all rfl) variant
  · exact joined (.of_all rfl) variant
  · exact IsCompositional.safe_append (.of_all rfl) named

/-- What holds of the name of a colour holds of the values that its classes set. -/
theorem keeps_of_mem_classes (named : holds color) {utility : UtilityClass}
    (known : utility ∈ classes color) :
    ∀ declaration ∈ utility.declarations, declaration.Keeps holds := by
  intro declaration member
  obtain ⟨set, value⟩ := declaration_of_mem_classes known member
  have words : (setProperties.all isSafeWord) = true := rfl
  have texts : ([textOnLight, textOnDark].all fun text => text.toList.all isSafeChar) = true := rfl
  refine ⟨List.all_eq_true.mp words _ set, ?_⟩
  rcases value with ⟨suffix, variant, same⟩ | text
  · rw [same]
    exact holds_reference named variant
  · exact IsCompositional.of_all (List.all_eq_true.mp texts _ text)

end Palette

section Marks

variable {mark : List Char} [IsCommentMark mark]

/-- The mark is on neither side of the declaration. -/
def Declaration.Lacks (mark : List Char) (declaration : Declaration) : Prop :=
  IsUnmarked mark declaration.property ∧ IsUnmarked mark declaration.value

theorem Declaration.Keeps.lacks {declaration : Declaration}
    (keeps : declaration.Keeps (IsUnmarked mark)) : declaration.Lacks mark :=
  ⟨(isSafe_of_isSafeWord keeps.word).1.unmarked, keeps.value⟩

theorem StyleRule.Keeps.lacks {rule : StyleRule} (keeps : rule.Keeps (IsUnmarked mark)) :
    rule.Lacks mark := by
  refine ⟨IsShut.unmarked (.of_not_mem fun slash => ?_), fun declaration member =>
    (keeps.declarations declaration member).lacks⟩
  exact absurd (List.all_eq_true.mp keeps.plain '/' slash) (by decide)

omit [IsCommentMark mark] in
/-- The name of a class is escaped, so no comment opens in its selector, whatever its label is. -/
theorem StyleRule.Lacks.of_utility (opens : ['/', '*'] <:+: mark) {utility : UtilityClass}
    (lacks : ∀ declaration ∈ utility.declarations, declaration.Lacks mark) (label : Option String) :
    (utility.rule label).Lacks mark := by
  refine ⟨fun inside => ?_, lacks⟩
  have letters : (utility.rule label).selector.toList =
      ['.'] ++ escapeName (labelled label utility.name).toList := by
    simp [UtilityClass.selector_rule, classSelector, escapeClass]
  have dot : IsShut ['/', '*'] ['.'] := .of_not_mem (by decide)
  exact (letters ▸ dot _ (not_opensComment_escapeName _)) (opens.trans inside)

namespace Palette

variable {color : String}

theorem lacks_rootRule {shades : Color → Shades} {colors : Catalog Color}
    (unmarked : ∀ color ∈ colors.names, IsUnmarked mark color) :
    (rootRule shades colors).Lacks mark := by
  refine ⟨IsShut.unmarked (.of_not_mem (by simp [rootRule])), fun declaration member => ?_⟩
  obtain ⟨color, known, suffix, variant, shade, rfl⟩ := declaration_of_mem_rootRule member
  exact ⟨holds_property (unmarked color known) variant, (isSafe_hex shade).unmarked⟩

theorem lacks_rule (opens : ['/', '*'] <:+: mark) (unmarked : IsUnmarked mark color)
    {utility : UtilityClass} (known : utility ∈ classes color) (label : Option String) :
    (utility.rule label).Lacks mark :=
  .of_utility opens (fun declaration member =>
    (keeps_of_mem_classes unmarked known declaration member).lacks) label

end Palette

/-- Unless the mark is in the name of a colour, it is in none of the palette's blocks but titles. -/
theorem Theme.lacks_palette (opens : ['/', '*'] <:+: mark) {theme : Theme}
    (unmarked : ∀ color ∈ theme.colors.names, IsUnmarked mark color) :
    ∀ block ∈ theme.palette.blocks, block.IsBraced → block.Lacks mark := by
  have plain : ∀ block ∈ plainBlocks (theme.colors.names.flatMap Palette.classes),
      block.Lacks mark := by
    rw [plainBlocks, List.forall_mem_map]
    intro utility member
    obtain ⟨color, known, own⟩ := List.mem_flatMap.mp member
    exact Palette.lacks_rule opens (unmarked color known) own none
  have dark : ∀ rule ∈ [Palette.rootRule .onDark theme.colors, Palette.darkPageRule],
      rule.Lacks mark :=
    List.forall_mem_cons.mpr ⟨Palette.lacks_rootRule unmarked,
      List.forall_mem_singleton.mpr (StyleRule.Keeps.of_isSafe rfl).lacks⟩
  have query : IsUnmarked mark Palette.darkQuery :=
    IsShut.unmarked (.of_not_mem (by decide))
  refine List.forall_mem_cons.mpr ⟨False.elim, ?_⟩
  refine List.forall_mem_cons.mpr ⟨fun _ => Palette.lacks_rootRule unmarked, ?_⟩
  refine List.forall_mem_append.mpr ⟨fun block member _ => plain block member, ?_⟩
  split
  · exact List.forall_mem_cons.mpr
      ⟨False.elim, List.forall_mem_singleton.mpr fun _ => ⟨query, dark⟩⟩
  · exact List.forall_mem_nil _

end Marks

theorem Theme.comment_of_mem_palette {theme : Theme} {title : String}
    (member : .comment title ∈ theme.palette.blocks) : title ∈ ["Palette", "Dark mode"] := by
  rcases List.mem_cons.mp member with same | member
  · obtain rfl := Block.comment.inj same
    exact List.mem_cons_self
  · rcases List.mem_append.mp member with plain | dark
    · simp [plainBlocks] at plain
    · split at dark
      · have same : title = "Dark mode" := by simpa [Palette.darkBlocks] using dark
        simp [same]
      · contradiction

/-- Unless an opening stands behind a slash in the name of a colour, none does in the palette or in
its copies. -/
theorem Theme.not_opensBehindSlash_palette {theme : Theme}
    (unslashed : ∀ color ∈ theme.colors.names, ¬ OpensBehindSlash color.toList) :
    ¬ OpensBehindSlash (withVendorCopies theme.palette.text).toList := by
  have titles : ∀ title ∈ ["Palette", "Dark mode"],
      (Block.comment title).Lacks ['/', '/', '*'] := by
    simp only [Block.Lacks]
    decide
  exact Sheet.not_opensBehindSlash_copies
    (fun title member => titles title (comment_of_mem_palette member))
    (theme.lacks_palette opening_infix_slashed unslashed)

end ThemeCss
