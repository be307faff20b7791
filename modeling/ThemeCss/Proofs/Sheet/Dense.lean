import ThemeCss.Proofs.Minified.Comments
import ThemeCss.Sheet.Basic
import ThemeCss.Sheet.Vendor

/-! # Sheets without a needless character

A sheet can be written densely by a recursion on its structure: every selector, query, property and
value is minified on its own, and nothing but punctuation stands between them. Comments and the ways
rules are laid out leave no trace. The text is unambiguous as long as the pieces are inert: none of
them ends a declaration or a block or opens a comment.
-/

namespace ThemeCss

/-- A text that neither ends a declaration nor begins or ends a block, and opens no comment. -/
structure IsInert (text : String) : Prop where
  plain : ∀ c ∈ text.toList, isValueChar c = true
  unopened : ¬ OpensComment text.toList

/-- A text without slashes opens no comment. -/
theorem IsInert.of_not_mem {text : String} (plain : ∀ c ∈ text.toList, isValueChar c = true)
    (absent : '/' ∉ text.toList) : IsInert text :=
  ⟨plain, fun opened => absent (opened.subset List.mem_cons_self)⟩

theorem IsInert.of_all {text : String}
    (safe : (text.toList.all fun c => isValueChar c && c != '/') = true) : IsInert text := by
  have letters : ∀ c ∈ text.toList, isValueChar c = true ∧ c ≠ '/' := by simpa using safe
  exact .of_not_mem (fun c member => (letters c member).1) fun member => (letters _ member).2 rfl

namespace Declaration

/-- Both sides of a declaration are inert. -/
structure Inert (declaration : Declaration) : Prop where
  property : IsInert declaration.property
  value : IsInert declaration.value

/-- A declaration without needless characters. -/
def dense (declaration : Declaration) : String :=
  minified declaration.property ++ ":" ++ minified declaration.value

end Declaration

namespace StyleRule

/-- All pieces of a rule are inert. -/
structure Inert (rule : StyleRule) : Prop where
  selector : IsInert rule.selector
  declarations : ∀ declaration ∈ rule.declarations, declaration.Inert

/-- A rule without needless characters, the last semicolon included. -/
def dense (rule : StyleRule) : String :=
  minified rule.selector ++ "\x7b" ++
    String.intercalate ";" (rule.declarations.map Declaration.dense) ++ "\x7d"

/-- A rule laid out in lines. -/
def unstyled (rule : StyleRule) : StyleRule := { rule with style := .expanded }

end StyleRule

namespace Block

/-- All pieces of a block are inert; a comment does not end before its end. -/
def Inert : Block → Prop
  | comment text => ¬ ClosesComment text.toList
  | rule single => single.Inert
  | media query rules => IsInert query ∧ ∀ rule ∈ rules, rule.Inert

/-- A block without needless characters. -/
def dense : Block → String
  | comment _ => ""
  | rule single => single.dense
  | media query rules =>
    minified ("@media " ++ query) ++ "\x7b" ++ String.join (rules.map StyleRule.dense) ++ "\x7d"

/-- A block up to its layout, if it is not a comment. -/
def content? : Block → Option Block
  | comment _ => none
  | rule single => some (.rule single.unstyled)
  | media query rules => some (.media query (rules.map StyleRule.unstyled))

end Block

namespace Sheet

/-- All pieces of a sheet are inert. -/
def Inert (sheet : Sheet) : Prop := ∀ block ∈ sheet.blocks, block.Inert

/-- A sheet without needless characters. -/
def dense (sheet : Sheet) : String := String.join (sheet.blocks.map Block.dense)

/-- The blocks of a sheet up to comments and layout. -/
def content (sheet : Sheet) : List Block := sheet.blocks.filterMap Block.content?

/-- Sheets that differ in comments and layout only have the same dense text. -/
theorem dense_eq_content (sheet : Sheet) :
    sheet.dense = String.join (sheet.content.map Block.dense) := by
  rw [dense, content]
  induction sheet.blocks with
  | nil => rfl
  | cons block rest ih =>
    simp only [List.map_cons, List.filterMap_cons, String.join_cons, ih]
    cases block with
    | comment text => exact String.empty_append
    | rule single => exact String.join_cons.symm
    | media query rules =>
      have same : rules.map StyleRule.dense = (rules.map StyleRule.unstyled).map StyleRule.dense := by
        rw [List.map_map]
        rfl
      rw [Block.dense, same]
      exact String.join_cons.symm

end Sheet

end ThemeCss
