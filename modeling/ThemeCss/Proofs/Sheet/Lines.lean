import ThemeCss.Proofs.Text.Characters
import ThemeCss.Sheet.Layout

/-! # The lines of a sheet as lists of characters

Both styles write a rule as its selector and a pair of braces with the declarations between them. They
differ in blanks only, so what holds for any blanks is proved once for the two of them.
-/

namespace ThemeCss

theorem Declaration.toList_text (declaration : Declaration) : declaration.text.toList =
    declaration.property.toList ++ ':' :: ' ' :: (declaration.value.toList ++ [';']) := by
  simp [Declaration.text, toString]

/-- A rule up to the blanks that its style puts in. -/
theorem StyleRule.exists_toList_textWith (indent : String) (blank : IsBlankText indent.toList)
    (rule : StyleRule) :
    ∃ opening before behind closing, IsBlankText opening ∧ IsBlankText before ∧
      IsBlankText behind ∧ IsBlankText closing ∧ ∀ write : Declaration → String,
      (rule.textWith write indent).toList =
        indent.toList ++ (rule.selector.toList ++ [' '] ++ '{' :: (opening ++
          (rule.declarations.flatMap fun declaration =>
            before ++ (write declaration).toList ++ behind) ++ closing ++ '}' :: ['\n'])) := by
  cases style : rule.style with
  | compact =>
    refine ⟨[], [' '], [], [' '], by simp, by simp, by simp, by simp, fun write => ?_⟩
    simp [StyleRule.textWith, style, List.flatMap_map]
  | expanded =>
    refine ⟨['\n'], indent.toList ++ [' ', ' '], ['\n'], indent.toList, by simp,
      blank.append (by simp), by simp, blank, fun write => ?_⟩
    simp [StyleRule.textWith, style, List.flatMap_map]

theorem Block.toList_textWith_comment (write : Declaration → String) (text : String) :
    ((Block.comment text).textWith write).toList =
      '/' :: '*' :: ((' ' :: text.toList ++ [' ']) ++ '*' :: '/' :: ['\n']) := by
  simp [Block.textWith, toString]

theorem Block.toList_textWith_media (write : Declaration → String) (query : String)
    (rules : List StyleRule) :
    ((Block.media query rules).textWith write).toList =
      "@media ".toList ++ query.toList ++ [' '] ++ '{' :: (['\n'] ++
        (rules.flatMap fun rule => (rule.textWith write "  ").toList) ++ '}' :: ['\n']) := by
  simp [Block.textWith, toString, List.flatMap_map]

/-- A block behind another one is the block itself, behind an empty line if it is a comment. -/
theorem Block.exists_toList_textBehindWith (block : Block) :
    ∃ gap, IsBlankText gap ∧ ∀ write : Declaration → String,
      (block.textBehindWith write).toList = gap ++ (block.textWith write).toList := by
  cases block with
  | comment text => exact ⟨['\n'], by simp, by simp [Block.textBehindWith]⟩
  | rule single => exact ⟨[], .nil, fun _ => rfl⟩
  | media query rules => exact ⟨[], .nil, fun _ => rfl⟩

end ThemeCss
