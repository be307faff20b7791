import ThemeCss.Proofs.Sheet.Lines
import ThemeCss.Proofs.Vendor.Locality
import ThemeCss.Sheet.Utility

/-! # Sections of a sheet

A section opens with its title and ends with a closing brace and the end of the line. So sections
that follow each other are kept apart by an empty line, and a pass that treats what is between
delimiters on its own treats each section on its own, whatever stands in it.
-/

namespace ThemeCss

/-- A block that ends with a closing brace. -/
def Block.IsBraced : Block → Prop
  | comment _ => False
  | rule _ => True
  | media _ _ => True

/-- A text that ends with a closing brace and the end of the line. -/
def EndsBraced (text : List Char) : Prop := ∃ body, text = body ++ ['}', '\n']

theorem EndsBraced.append {text : List Char} (ends : EndsBraced text) (front : List Char) :
    EndsBraced (front ++ text) := by
  obtain ⟨body, rfl⟩ := ends
  exact ⟨front ++ body, (List.append_assoc ..).symm⟩

theorem EndsBraced.append_cons {text : List Char} (ends : EndsBraced text) (c : Char)
    (front : List Char) : EndsBraced (c :: (front ++ text)) :=
  ends.append (c :: front)

theorem EndsBraced.lastLine : EndsBraced ['}', '\n'] := ⟨[], rfl⟩

theorem StyleRule.endsBraced (rule : StyleRule) (write : Declaration → String) {indent : String}
    (blank : IsBlankText indent.toList) : EndsBraced (rule.textWith write indent).toList := by
  obtain ⟨opening, before, behind, closing, -, -, -, -, lines⟩ :=
    rule.exists_toList_textWith indent blank
  rw [lines write]
  exact ((EndsBraced.lastLine.append_cons '{' _).append _).append _

theorem Block.IsBraced.endsBraced {block : Block} (braced : block.IsBraced)
    (write : Declaration → String) : EndsBraced (block.textWith write).toList := by
  cases block with
  | comment text => exact braced.elim
  | rule single => exact single.endsBraced write (by simp)
  | media query rules =>
    rw [Block.toList_textWith_media]
    exact (EndsBraced.lastLine.append_cons '{' _).append _

/-- Utility classes are rules and media queries, and so in braces. -/
theorem isBraced_of_mem_plainBlocks {classes : List UtilityClass} :
    ∀ block ∈ plainBlocks classes, block.IsBraced :=
  List.forall_mem_map.mpr fun _ _ => trivial

theorem isBraced_of_mem_responsiveBlocks {classes : List UtilityClass}
    {breakpoints : List Breakpoint} :
    ∀ block ∈ responsiveBlocks classes breakpoints, block.IsBraced :=
  List.forall_mem_append.mpr
    ⟨isBraced_of_mem_plainBlocks, List.forall_mem_map.mpr fun _ _ => trivial⟩

namespace Sheet

/-- The sheet opens with a comment, its title, and ends with a block in braces. -/
structure IsSection (sheet : Sheet) : Prop where
  titled : ∃ title rest, sheet.blocks = .comment title :: rest
  braced : ∃ before last, sheet.blocks = before ++ [last] ∧ last.IsBraced

theorem isSection_titled (title : String) {blocks : List Block} (nonempty : blocks ≠ [])
    (braced : ∀ last ∈ blocks.getLast?, last.IsBraced) : (Sheet.titled title blocks).IsSection := by
  refine ⟨⟨title, blocks, rfl⟩, .comment title :: blocks.dropLast, blocks.getLast nonempty, ?_, ?_⟩
  · rw [List.cons_append, List.dropLast_concat_getLast]
    rfl
  · exact braced _ (List.getLast?_eq_some_getLast nonempty)

/-- A sheet with a title and braced blocks only is a section. -/
theorem isSection_titled_of_forall (title : String) {blocks : List Block}
    (nonempty : blocks ≠ []) (braced : ∀ block ∈ blocks, block.IsBraced) :
    (Sheet.titled title blocks).IsSection :=
  isSection_titled title nonempty fun last known => braced last (List.mem_of_getLast? known)

theorem isSection_withResponsive (title : String) {blocks : List Block}
    (braced : ∀ block ∈ blocks, block.IsBraced) {classes : List UtilityClass}
    (nonempty : blocks ≠ [] ∨ classes ≠ []) (breakpoints : List Breakpoint) :
    ((Sheet.titled title blocks).withResponsive classes breakpoints).IsSection := by
  change (Sheet.titled title (blocks ++ responsiveBlocks classes breakpoints)).IsSection
  apply isSection_titled_of_forall
  · rcases nonempty with own | further
    · simp [own]
    · simp [responsiveBlocks, plainBlocks, further]
  · exact List.forall_mem_append.mpr ⟨braced, isBraced_of_mem_responsiveBlocks⟩

theorem toList_text_cons (first : Block) (others : List Block) :
    (Sheet.mk (first :: others)).text.toList = (first.textWith Declaration.text).toList ++
      others.flatMap fun block => (block.textBehindWith Declaration.text).toList := by
  simp [Sheet.text, Sheet.textWith, List.flatMap_map]

theorem IsSection.endsBraced {sheet : Sheet} (is : sheet.IsSection) :
    EndsBraced sheet.text.toList := by
  obtain ⟨title, rest, titled⟩ := is.titled
  obtain ⟨before, last, blocks, braced⟩ := is.braced
  rcases sheet with ⟨_⟩
  subst blocks
  cases before with
  | nil =>
    obtain ⟨rfl, -⟩ := List.cons.inj titled
    exact braced.elim
  | cons first others =>
    obtain ⟨gap, -, lines⟩ := last.exists_toList_textBehindWith
    rw [List.cons_append, toList_text_cons, List.flatMap_append, List.flatMap_singleton, lines]
    exact (((braced.endsBraced Declaration.text).append gap).append _).append _

/-- A sheet behind another one is written behind an empty line. -/
theorem text_append {first second : Sheet} (nonempty : first.blocks ≠ [])
    (titled : ∃ title rest, second.blocks = .comment title :: rest) :
    (Sheet.mk (first.blocks ++ second.blocks)).text = first.text ++ "\n" ++ second.text := by
  obtain ⟨block, others, blocks⟩ := List.exists_cons_of_ne_nil nonempty
  obtain ⟨title, rest, opens⟩ := titled
  rcases first with ⟨_⟩
  rcases second with ⟨_⟩
  subst blocks opens
  rw [← String.toList_inj, String.toList_append, String.toList_append, List.cons_append,
    toList_text_cons, toList_text_cons, toList_text_cons, List.flatMap_append, List.flatMap_cons,
    Block.textBehindWith, String.toList_append]
  simp only [List.append_assoc]

/-- The text of sections put together has an empty line between them. -/
theorem text_merged {parts : List Sheet} (nonempty : parts ≠ [])
    (sections : ∀ part ∈ parts, part.IsSection) :
    (Sheet.merged parts).text = String.intercalate "\n" (parts.map Sheet.text) := by
  induction parts with
  | nil => exact absurd rfl nonempty
  | cons part rest ih =>
    obtain ⟨single, others⟩ := List.forall_mem_cons.mp sections
    cases rest with
    | nil => simp [Sheet.merged]
    | cons next more =>
      have behind := ih (List.cons_ne_nil _ _) others
      obtain ⟨title, blocks, opens⟩ := single.titled
      obtain ⟨second, further, titled⟩ := (others next List.mem_cons_self).titled
      have whole : Sheet.merged (part :: next :: more) =
          ⟨part.blocks ++ (Sheet.merged (next :: more)).blocks⟩ := rfl
      have headed : (Sheet.merged (next :: more)).blocks =
          .comment second :: (further ++ more.flatMap (·.blocks)) := by simp [Sheet.merged, titled]
      rw [whole, text_append (by simp [opens]) ⟨second, _, headed⟩, behind]
      simp only [List.map_cons, String.intercalate_cons_cons, String.append_assoc]

end Sheet

namespace Local

variable {pass : List Char → List Char} (isLocal : Local pass)

include isLocal

/-- A pass treats what is behind the brace of a section on its own. -/
theorem section_append {text : List Char} (ends : EndsBraced text) (rest : List Char) :
    pass (text ++ '\n' :: rest) = pass text ++ '\n' :: pass rest := by
  obtain ⟨body, rfl⟩ := ends
  have newline (text : List Char) : pass ('\n' :: text) = '\n' :: pass text :=
    isLocal.blank _ _ isBlank_newline
  have whole : body ++ ['}', '\n'] ++ '\n' :: rest = body ++ '}' :: ('\n' :: '\n' :: rest) := by
    simp
  rw [whole, isLocal.closing _ _ (by simp), isLocal.closing _ _ (by simp), newline, newline,
    newline, isLocal.nil]
  simp

theorem intercalate {texts : List (List Char)} (ends : ∀ text ∈ texts, EndsBraced text) :
    pass (['\n'].intercalate texts) = ['\n'].intercalate (texts.map pass) := by
  induction texts with
  | nil => exact isLocal.nil
  | cons text rest ih =>
    obtain ⟨single, others⟩ := List.forall_mem_cons.mp ends
    cases rest with
    | nil => simp
    | cons next more =>
      rw [List.intercalate_cons_cons, List.append_assoc, List.singleton_append,
        isLocal.section_append single, ih others]
      simp [List.intercalate_cons_cons]

/-- What has no semicolon in front of a block is left alone. -/
theorem quiet_append {front head : List Char} (quiet : ';' ∉ front) (unbroken : ';' ∉ head)
    (tail : List Char) :
    pass (front ++ (head ++ '{' :: tail)) = front ++ pass (head ++ '{' :: tail) := by
  have both : ';' ∉ front ++ head := by simp [quiet, unbroken]
  rw [← List.append_assoc, isLocal.opening, isLocal.opening, isLocal.quiet _ both,
    isLocal.quiet _ unbroken, List.append_assoc]

end Local

/-- Copies in sections put together are the copies in each of them. -/
theorem Sheet.withVendorCopies_merged {parts : List Sheet} (nonempty : parts ≠ [])
    (sections : ∀ part ∈ parts, part.IsSection) :
    withVendorCopies (Sheet.merged parts).text =
      String.intercalate "\n" (parts.map fun part => withVendorCopies part.text) := by
  have ends : ∀ text ∈ parts.map fun part => part.text.toList, EndsBraced text :=
    List.forall_mem_map.mpr fun part member => (sections part member).endsBraced
  have copied := local_addVendorCopies.intercalate ends
  rw [← String.toList_inj, withVendorCopies, text_merged nonempty sections, String.toList_ofList,
    String.toList_intercalate, String.toList_intercalate, List.map_map, List.map_map]
  rw [List.map_map] at copied
  exact copied.trans (congrArg _ (List.map_congr_left fun part _ => by
    simp [withVendorCopies]))

end ThemeCss
