import ThemeCss.Artifacts
import ThemeCss.Proofs.Sheet.Section

/-! # Copies in the sections of a theme

Copies are put into the text of all sections at once. Every section of a theme ends in a closing
brace and the next one begins behind an empty line, so nothing is found across the two: the result
is the same as if each section had been treated alone, whatever names and values the theme brings
along.
-/

namespace ThemeCss

namespace Theme

variable (theme : Theme)

theorem isSection_palette : theme.palette.IsSection := by
  apply Sheet.isSection_titled
  · simp
  · intro last known
    cases dark : theme.darkMode with
    | false =>
      have braced : ∀ block ∈ plainBlocks (theme.colors.names.flatMap Palette.classes),
          block.IsBraced := isBraced_of_mem_plainBlocks
      simp only [dark, Bool.false_eq_true, if_false, List.append_nil] at known
      rcases List.mem_cons.mp (List.mem_of_getLast? known) with rfl | utility
      · trivial
      · exact braced last utility
    | true =>
      simp only [dark, if_true, List.getLast?_append, Palette.darkBlocks, List.getLast?_cons_cons,
        List.getLast?_singleton, Option.some_or, Option.mem_some_iff] at known
      subst known
      trivial

theorem isSection_text : theme.text.IsSection :=
  Sheet.isSection_titled_of_forall _ (List.cons_ne_nil _ _) (by simp [Block.IsBraced])

theorem isSection_grid : theme.grid.IsSection :=
  Sheet.isSection_withResponsive _ (by simp [Block.IsBraced]) (.inl (List.cons_ne_nil _ _)) _

theorem isSection_component (component : Component) : (component.sheet theme).IsSection := by
  cases component with
  | button =>
    exact Sheet.isSection_titled_of_forall _ (List.cons_ne_nil _ _) (by simp [Block.IsBraced])
  | card =>
    exact Sheet.isSection_titled_of_forall _ (List.cons_ne_nil _ _) (by simp [Block.IsBraced])
  | alert =>
    refine Sheet.isSection_titled_of_forall _ (List.cons_ne_nil _ _) (List.forall_mem_cons.mpr ?_)
    exact ⟨trivial, List.forall_mem_map.mpr fun _ _ => trivial⟩

theorem isSection_utilityGroup (group : UtilityGroup) : (group.sheet theme).IsSection := by
  cases group with
  | spacing =>
    refine Sheet.isSection_withResponsive _ (List.forall_mem_nil _) (.inr ?_) _
    simp [Utilities.spacingClasses, Utilities.spacingProperties, Utilities.spacingDirections,
      Utilities.stepClasses, Utilities.spacingSteps]
  | flex =>
    exact Sheet.isSection_withResponsive _ (List.forall_mem_nil _) (.inr (List.cons_ne_nil _ _)) _
  | color =>
    exact Sheet.isSection_titled_of_forall _ (List.cons_ne_nil _ _) isBraced_of_mem_plainBlocks
  | image =>
    exact Sheet.isSection_titled_of_forall _ (List.cons_ne_nil _ _) isBraced_of_mem_plainBlocks

theorem isSection_transitions : theme.transitions.IsSection :=
  Sheet.isSection_titled_of_forall _ (List.cons_ne_nil _ _) isBraced_of_mem_plainBlocks

theorem isSection_of_mem_sections : ∀ part ∈ theme.sections, part.IsSection := by
  simp only [sections, componentSheets, utilitySheets, List.forall_mem_append,
    List.forall_mem_cons, List.forall_mem_map, List.not_mem_nil, false_imp_iff, implies_true,
    and_true]
  exact ⟨⟨⟨⟨theme.isSection_palette, theme.isSection_text, theme.isSection_grid⟩,
    fun component _ => theme.isSection_component component⟩,
    fun group _ => theme.isSection_utilityGroup group⟩, theme.isSection_transitions⟩

/-- The sheet opens with the rule of the custom properties; there is no semicolon in front of its
brace. -/
theorem toList_text_sheet : ∃ tail, theme.sheet.text.toList =
    "/* Palette */\n:root ".toList ++ '{' :: tail := by
  obtain ⟨blocks, opens⟩ : ∃ blocks, theme.sheet.blocks = .comment "Palette" ::
      .rule (Palette.rootRule .onLight theme.colors) :: blocks := ⟨_, rfl⟩
  obtain ⟨opening, before, behind, closing, -, -, -, -, lines⟩ :=
    (Palette.rootRule .onLight theme.colors).exists_toList_textWith "" (by simp)
  have whole : theme.sheet = ⟨theme.sheet.blocks⟩ := rfl
  have first : (Block.rule (Palette.rootRule .onLight theme.colors)).textBehindWith
      Declaration.text = (Palette.rootRule .onLight theme.colors).textWith Declaration.text "" := rfl
  have selector : (Palette.rootRule .onLight theme.colors).selector = ":root" := rfl
  rw [whole, opens, Sheet.toList_text_cons, Block.toList_textWith_comment, List.flatMap_cons, first,
    lines, selector]
  simp

/-- The readable artifact has copies put into the text of the banner and all sections at once. It is
the banner and the sections, each with copies of its own, with empty lines between them. -/
theorem readable_compile :
    let parts := [theme.palette, theme.text, theme.grid] ++
      theme.knownComponents.map (Component.sheet theme) ++
      theme.knownUtilities.map (UtilityGroup.sheet theme) ++ [theme.transitions]
    theme.compile.readable =
        withVendorCopies (banner ++ "\n" ++ String.intercalate "\n" (parts.map Sheet.text)) ∧
      theme.compile.readable =
        banner ++ "\n" ++ String.intercalate "\n" (parts.map fun part =>
          withVendorCopies part.text) := by
  intro parts
  obtain ⟨tail, opens⟩ := theme.toList_text_sheet
  have nonempty : theme.sections ≠ [] := by simp [sections]
  have whole : theme.sheet.text = String.intercalate "\n" (parts.map Sheet.text) :=
    Sheet.text_merged nonempty theme.isSection_of_mem_sections
  have behind : withVendorCopies (banner ++ "\n" ++ theme.sheet.text) =
      banner ++ "\n" ++ withVendorCopies theme.sheet.text := by
    rw [← String.toList_inj, withVendorCopies, withVendorCopies, String.toList_append, opens,
      local_addVendorCopies.quiet_append (by simp [banner]) (by simp)]
    simp
  constructor
  · rw [← whole]
    rfl
  · calc theme.compile.readable
        = withVendorCopies (banner ++ "\n" ++ theme.sheet.text) := rfl
      _ = banner ++ "\n" ++ withVendorCopies theme.sheet.text := behind
      _ = banner ++ "\n" ++ String.intercalate "\n"
            (parts.map fun part => withVendorCopies part.text) := by
          rw [sheet, Sheet.withVendorCopies_merged nonempty theme.isSection_of_mem_sections]
          rfl

end Theme

end ThemeCss
