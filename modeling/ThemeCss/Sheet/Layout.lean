import ThemeCss.Sheet.Basic

/-! # The text of a sheet

Blocks follow each other without a blank line, but a comment opens a new section and has one in
front of it. Inside a media query rules are indented by two spaces. The lines are the same for every
way to write a single declaration.
-/

namespace ThemeCss

namespace Declaration

def text (declaration : Declaration) : String :=
  s!"{declaration.property}: {declaration.value};"

end Declaration

namespace StyleRule

/-- The lines of a rule behind the given indentation. -/
def textWith (write : Declaration → String) (indent : String) (rule : StyleRule) : String :=
  match rule.style with
  | .compact =>
    indent ++ rule.selector ++ " \x7b" ++
      String.join (rule.declarations.map fun declaration => " " ++ write declaration) ++ " \x7d\n"
  | .expanded =>
    indent ++ rule.selector ++ " \x7b\n" ++
      String.join (rule.declarations.map fun declaration =>
        indent ++ "  " ++ write declaration ++ "\n") ++ indent ++ "\x7d\n"

end StyleRule

namespace Block

/-- The text of a block at the start of a sheet. -/
def textWith (write : Declaration → String) : Block → String
  | comment text => s!"/* {text} */\n"
  | rule single => single.textWith write ""
  | media query rules =>
    s!"@media {query} \x7b\n" ++ String.join (rules.map (StyleRule.textWith write "  ")) ++ "\x7d\n"

/-- The text of a block behind another one. -/
def textBehindWith (write : Declaration → String) : Block → String
  | comment text => "\n" ++ (comment text).textWith write
  | block => block.textWith write

end Block

namespace Sheet

/-- The text of a sheet with its declarations written in the given way. -/
def textWith (write : Declaration → String) (sheet : Sheet) : String :=
  match sheet.blocks with
  | [] => ""
  | first :: others =>
    first.textWith write ++ String.join (others.map (Block.textBehindWith write))

def text (sheet : Sheet) : String := sheet.textWith Declaration.text

end Sheet

end ThemeCss
