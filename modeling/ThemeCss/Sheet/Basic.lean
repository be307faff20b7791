/-! # Style sheets

A sheet is a list of blocks in the order in which they take effect. Rules differ in nothing but
selector, declarations and the way they are laid out.
-/

namespace ThemeCss

structure Declaration where
  property : String
  value : String
deriving DecidableEq

/-- How a rule is laid out: a line for each declaration, or one line for the rule. -/
inductive RuleStyle where
  | expanded
  | compact
deriving DecidableEq

structure StyleRule where
  selector : String
  declarations : List Declaration
  style : RuleStyle := .expanded
deriving DecidableEq

/-- From `minWidth` on, the classes marked with `label` apply. -/
structure Breakpoint where
  label : String
  minWidth : String
deriving DecidableEq

inductive Block where
  | comment (text : String)
  | rule (rule : StyleRule)
  | media (query : String) (rules : List StyleRule)
deriving DecidableEq

namespace Block

/-- Rules for pages at least as wide as a breakpoint. -/
def minWidth (breakpoint : Breakpoint) (rules : List StyleRule) : Block :=
  .media s!"(min-width: {breakpoint.minWidth})" rules

/-- The rules of a block, inside or outside a media query. -/
def rules : Block → List StyleRule
  | comment _ => []
  | rule single => [single]
  | media _ rules => rules

end Block

structure Sheet where
  blocks : List Block := []
deriving DecidableEq

namespace Sheet

/-- A sheet that opens with its title as a comment. -/
def titled (title : String) (blocks : List Block := []) : Sheet := ⟨.comment title :: blocks⟩

def append (first second : Sheet) : Sheet := ⟨first.blocks ++ second.blocks⟩

instance : Append Sheet := ⟨append⟩

/-- The blocks of all sheets, one sheet after the other. -/
def merged (sheets : List Sheet) : Sheet := ⟨sheets.flatMap (·.blocks)⟩

/-- All rules in document order. -/
def rules (sheet : Sheet) : List StyleRule := sheet.blocks.flatMap Block.rules

end Sheet

end ThemeCss
