import ThemeCss.Sheet.Basic
import ThemeCss.Text.Characters
import ThemeCss.Text.Pieces

/-! # Class names in selectors

A class may have any name. In a selector the characters that have a meaning there are escaped:
most by a backslash, a digit in front by its code in hexadecimal and a space. `Sheet.classNames`
finds the escaped names again.
-/

namespace ThemeCss

/-- Letters, digits, hyphen and underscore stand for themselves. ASCII only. -/
def isNameChar (c : Char) : Bool := c.isAlphanum || c == '-' || c == '_'

/-- A character of a name behind the first one, as it stands in a selector. -/
def escapeNameChar (c : Char) : List Char := if isNameChar c then [c] else ['\\', c]

/-- A class name as it stands in a selector. -/
def escapeName : List Char → List Char
  | [] => []
  | c :: rest =>
    let first :=
      if c.isDigit then
        ['\\', Nat.digitChar (c.toNat / 16), Nat.digitChar (c.toNat % 16), ' ']
      else escapeNameChar c
    first ++ rest.flatMap escapeNameChar

/-- A class name as it stands behind the dot of a selector. -/
def escapeClass (name : String) : String := String.ofList (escapeName name.toList)

/-- The selector of all elements of a class. -/
def classSelector (name : String) : String := "." ++ escapeClass name

/-- The length of an escape, behind its backslash: up to six hexadecimal digits and a space, or
any character that does not end the line. -/
def escapeLength? (text : List Char) : Option Nat :=
  match (text.take 6).takeWhile fun c => (hexDigit? c).isSome with
  | [] =>
    match text with
    | c :: _ => if c = '\n' then none else some 1
    | [] => none
  | digits =>
    match text.drop digits.length with
    | ' ' :: _ => some (digits.length + 1)
    | _ => some digits.length

/-- The length of the character of a name at the front of a text. A name does not begin with a
plain digit. -/
def nameCharLength? (first : Bool) (text : List Char) : Option Nat :=
  match text with
  | '\\' :: rest => (escapeLength? rest).map (· + 1)
  | c :: _ =>
    if c.isAlpha || c == '-' || c == '_' || (!first && c.isDigit) then some 1 else none
  | [] => none

/-- The length of the rest of a name, added to the length `passed` of what is before it. -/
def nameLength (passed : Nat) (text : List Char) : Nat :=
  match text with
  | [] => passed
  | c :: rest =>
    match nameCharLength? false (c :: rest) with
    | none => passed
    | some length => nameLength (passed + length) (rest.drop (length - 1))
termination_by text.length
decreasing_by
  simp only [List.length_cons, List.length_drop]
  omega

/-- A dot with the name of a class. -/
def classPattern : Pattern
  | '.' :: rest => (nameCharLength? true rest).map fun length => nameLength length (rest.drop length)
  | _ => none

/-- The escaped names of the classes in a selector. -/
def classesIn (selector : List Char) : List String :=
  (pieces classPattern selector).filterMap fun
    | .plain _ => none
    | .hit _ text => some (String.ofList (text.drop 1))

namespace Sheet

/-- The escaped names of all classes in the selectors of a sheet, each once. -/
def classNames (sheet : Sheet) : List String :=
  (sheet.rules.flatMap fun rule => classesIn rule.selector.toList).eraseDups

end Sheet

end ThemeCss
