import ThemeCss.Proofs.Sheet.Arrangement
import ThemeCss.Proofs.Sheet.Section
import ThemeCss.Proofs.Vendor.Quoted

/-! # Titles of sections, and the marks of comments

The title of a section is a comment, and copies are only put in behind it. Any other mark of a
comment in a section comes from a selector, a query, a property or a value: what is written around
them shuts them.
-/

namespace ThemeCss

/-- The mark is in no part of the rule. -/
structure StyleRule.Lacks (mark : List Char) (rule : StyleRule) : Prop where
  selector : ¬ mark <:+: rule.selector.toList
  declarations : ∀ declaration ∈ rule.declarations,
    ¬ mark <:+: declaration.property.toList ∧ ¬ mark <:+: declaration.value.toList

/-- The mark is in no part of the block, or in the comment as it is written. -/
def Block.Lacks (mark : List Char) : Block → Prop
  | comment text => ¬ mark <:+: '/' :: '*' :: ' ' :: (text.toList ++ [' ', '*', '/'])
  | rule single => single.Lacks mark
  | media query rules => ¬ mark <:+: query.toList ∧ ∀ rule ∈ rules, rule.Lacks mark

section Shut

variable {mark text : List Char} [IsCommentMark mark]

theorem IsBlankText.isShut (blank : IsBlankText text) : IsShut mark text :=
  .of_not_mem (blank.not_mem rfl)

theorem Declaration.isShut_text {declaration : Declaration}
    (property : ¬ mark <:+: declaration.property.toList)
    (value : ¬ mark <:+: declaration.value.toList) : IsShut mark declaration.text.toList := by
  have whole : declaration.text.toList =
      (declaration.property.toList ++ [':']) ++ ([' '] ++ (declaration.value.toList ++ [';'])) := by
    rw [declaration.toList_text]
    simp
  have space : IsShut mark [' '] := .of_not_mem (by decide)
  rw [whole]
  exact (IsShut.concat property (by decide) (by decide)).append
    (space.append (.concat value (by decide) (by decide)))

theorem StyleRule.Lacks.isShut_text {rule : StyleRule} (lacks : rule.Lacks mark)
    {indent : String} (blank : IsBlankText indent.toList) :
    IsShut mark (rule.textWith Declaration.text indent).toList := by
  obtain ⟨opening, before, behind, closing, opens, starts, stops, closes, lines⟩ :=
    rule.exists_toList_textWith indent blank
  have whole : (rule.textWith Declaration.text indent).toList =
      indent.toList ++ ((rule.selector.toList ++ [' ']) ++ (['{'] ++ (opening ++
        ((rule.declarations.flatMap fun declaration =>
          before ++ declaration.text.toList ++ behind) ++ (closing ++ ['}', '\n']))))) := by
    rw [lines]
    simp
  have front : IsShut mark (rule.selector.toList ++ [' ']) :=
    .concat lacks.selector (by decide) (by decide)
  have brace : IsShut mark ['{'] := .of_not_mem (by decide)
  have stop : IsShut mark ['}', '\n'] := .of_not_mem (by decide)
  have declarations : IsShut mark (rule.declarations.flatMap fun declaration =>
      before ++ declaration.text.toList ++ behind) := by
    refine .flatMap fun declaration member => ?_
    obtain ⟨property, value⟩ := lacks.declarations declaration member
    exact (starts.isShut.append (Declaration.isShut_text property value)).append stops.isShut
  rw [whole]
  exact blank.isShut.append (front.append (brace.append (opens.isShut.append
    (declarations.append (closes.isShut.append stop)))))

theorem Block.Lacks.isShut_text {block : Block} (lacks : block.Lacks mark) :
    IsShut mark (block.textWith Declaration.text).toList := by
  cases block with
  | comment text =>
    have whole : ((Block.comment text).textWith Declaration.text).toList =
        ('/' :: '*' :: ' ' :: (text.toList ++ [' ', '*', '/'])) ++ ['\n'] := by
      rw [Block.toList_textWith_comment]
      simp
    rw [whole]
    exact .concat lacks (by decide) (by decide)
  | rule single => exact StyleRule.Lacks.isShut_text lacks (by simp)
  | media query rules =>
    have whole : ((Block.media query rules).textWith Declaration.text).toList =
        "@media ".toList ++ ((query.toList ++ [' ']) ++ (['{', '\n'] ++
          ((rules.flatMap fun rule => (rule.textWith Declaration.text "  ").toList) ++
            ['}', '\n']))) := by
      rw [Block.toList_textWith_media]
      simp
    have keyword : IsShut mark "@media ".toList := .of_not_mem (by simp)
    have front : IsShut mark (query.toList ++ [' ']) := .concat lacks.1 (by decide) (by decide)
    have start : IsShut mark ['{', '\n'] := .of_not_mem (by decide)
    have stop : IsShut mark ['}', '\n'] := .of_not_mem (by decide)
    have body : IsShut mark
        (rules.flatMap fun rule => (rule.textWith Declaration.text "  ").toList) :=
      .flatMap fun rule member => (lacks.2 rule member).isShut_text (by simp)
    rw [whole]
    exact keyword.append (front.append (start.append (body.append stop)))

theorem Sheet.isShut_text {sheet : Sheet} (lacks : ∀ block ∈ sheet.blocks, block.Lacks mark) :
    IsShut mark sheet.text.toList := by
  rcases sheet with ⟨blocks⟩
  cases blocks with
  | nil => exact .nil
  | cons first others =>
    obtain ⟨single, rest⟩ := List.forall_mem_cons.mp lacks
    rw [Sheet.toList_text_cons]
    refine single.isShut_text.append (.flatMap fun block member => ?_)
    obtain ⟨gap, blank, lines⟩ := block.exists_toList_textBehindWith
    rw [lines]
    exact blank.isShut.append (rest block member).isShut_text

end Shut

/-- If no opening stands behind a slash in a title or anywhere else in the sheet, none does when the
copies are put in. -/
theorem Sheet.not_opensBehindSlash_copies {sheet : Sheet}
    (titles : ∀ title, .comment title ∈ sheet.blocks → (Block.comment title).Lacks ['/', '/', '*'])
    (braced : ∀ block ∈ sheet.blocks, block.IsBraced → block.Lacks ['/', '/', '*']) :
    ¬ OpensBehindSlash (withVendorCopies sheet.text).toList := by
  have blocks : ∀ block ∈ sheet.blocks, block.Lacks ['/', '/', '*'] := by
    intro block member
    cases block with
    | comment title => exact titles title member
    | rule single => exact braced _ member trivial
    | media query rules => exact braced _ member trivial
  rw [withVendorCopies, String.toList_ofList]
  exact not_infix_addVendorCopies (Sheet.isShut_text blocks).unmarked

namespace Sheet

variable {title : String} {rule : StyleRule} {others : List Block}

/-- A title as it is written above a section. -/
def titleLine (title : String) : List Char :=
  '/' :: '*' :: ((' ' :: title.toList ++ [' ']) ++ ['*', '/'])

theorem isComment_titleLine (unclosed : ¬ ClosesComment title.toList) :
    IsComment (titleLine title) := by
  refine ⟨_, rfl, ?_⟩
  rw [ClosesComment, pair_infix_cons_iff, not_or]
  exact ⟨by simp, not_closesComment_inside unclosed⟩

/-- Copies are put in behind the title of a section with a rule below it. -/
theorem withVendorCopies_titled (quiet : ';' ∉ title.toList)
    (unbroken : ';' ∉ rule.selector.toList) :
    (withVendorCopies (Sheet.titled title (.rule rule :: others)).text).toList =
      titleLine title ++ '\n' :: addVendorCopies (Sheet.mk (.rule rule :: others)).text.toList := by
  obtain ⟨opening, before, behind, closing, -, -, -, -, lines⟩ :=
    rule.exists_toList_textWith "" (by simp)
  have whole : Sheet.titled title (.rule rule :: others) =
      ⟨.comment title :: .rule rule :: others⟩ := rfl
  have below : (Block.rule rule).textBehindWith Declaration.text =
      (Block.rule rule).textWith Declaration.text := rfl
  have front : ';' ∉ titleLine title ++ ['\n'] := by simp [titleLine, quiet]
  have head : ';' ∉ rule.selector.toList ++ [' '] := by simp [unbroken]
  have copied (tail : List Char) := local_addVendorCopies.quiet_append front head tail
  rw [withVendorCopies, String.toList_ofList, whole, toList_text_cons, toList_text_cons,
    List.flatMap_cons, below, Block.toList_textWith_comment, Block.textWith,
    lines Declaration.text]
  simpa [titleLine] using copied _

end Sheet

end ThemeCss
