import ThemeCss.Text.Characters
import ThemeCss.Text.Pieces

/-! # The shortest text of a sheet

Four passes over the text: comments are taken out, blanks around punctuation, semicolons in front
of a closing brace, and what is left of blanks becomes a single space. Taking out a comment may
put a new one together from what is around it, so that pass is repeated until none is left.
-/

namespace ThemeCss

/-- The length of the text up to the end of a comment, added to the length `passed` before it. -/
def commentLength? (passed : Nat) : List Char → Option Nat
  | '*' :: '/' :: _ => some (passed + 2)
  | _ :: rest => commentLength? (passed + 1) rest
  | [] => none

/-- A comment, from its opening to the first end behind that. -/
def commentPattern : Pattern
  | '/' :: '*' :: rest => commentLength? 1 rest
  | _ => none

/-- Takes out comments that do not overlap. -/
def removeComments (text : List Char) : List Char :=
  (pieces commentPattern text).flatMap fun
    | .plain c => [c]
    | .hit _ _ => []

/-- Takes out comments until none is left. -/
def stripComments (text : List Char) : List Char :=
  let next := removeComments text
  if next.length < text.length then stripComments next else next
termination_by text.length

/-- The characters that need no blanks around them. -/
def isPunctuation (c : Char) : Bool := c == '{' || c == '}' || c == ':' || c == ';' || c == ','

/-- Puts a character in front of a text whose punctuation has no blanks around it. -/
def tightenStep (c : Char) (text : List Char) : List Char :=
  if isPunctuation c then c :: text.dropWhile isBlank
  else if isBlank c then
    match text with
    | next :: _ => if isPunctuation next then text else c :: text
    | [] => [c]
  else c :: text

/-- Takes out the blanks around punctuation. -/
def tighten (text : List Char) : List Char := text.foldr tightenStep []

/-- Puts a character in front of a text without semicolons at the end of a block. -/
def dropSemicolonStep (c : Char) (text : List Char) : List Char :=
  match text with
  | '}' :: _ => if c = ';' then text else c :: text
  | _ => c :: text

/-- Takes out the semicolons directly in front of a closing brace. -/
def dropSemicolons (text : List Char) : List Char := text.foldr dropSemicolonStep []

/-- Puts a character in front of a text in which blanks are single spaces. -/
def collapseStep (c : Char) (text : List Char) : List Char :=
  if isBlank c then
    match text with
    | ' ' :: _ => text
    | _ => ' ' :: text
  else c :: text

/-- Turns every stretch of blanks into a single space. -/
def collapse (text : List Char) : List Char := text.foldr collapseStep []

/-- All passes, and no blanks at the ends. -/
def minifyText (text : List Char) : List Char :=
  trim (collapse (dropSemicolons (tighten (stripComments text))))

/-- The text of a sheet without anything that browsers ignore. -/
def minified (css : String) : String := String.ofList (minifyText css.toList)

end ThemeCss
