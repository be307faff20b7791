import ThemeCss.Text.Characters
import ThemeCss.Text.Pieces

/-! # Copies of declarations for single browsers

Some browsers know a property only under a name of their own, or know a keyword under another one.
A vendor rule finds the declarations of its property in the text of a sheet and puts copies in
front of them. The rules are applied one after the other, each to all of the text, so a later rule
sees what an earlier one has put in. A declaration begins at the start of the text or behind a
blank, an opening brace or a semicolon; a match anywhere else is left alone.
-/

namespace ThemeCss

/-- The values for which a declaration is copied. -/
inductive DeclaredValue where
  | anything
  | keyword (word : String)
deriving DecidableEq

/-- A copy: the declaration itself with a mark in front, or a fixed text. -/
inductive VendorCopy where
  | marked (mark : String)
  | fixed (text : String)
deriving DecidableEq

structure VendorRule where
  property : String
  value : DeclaredValue
  copies : List VendorCopy
deriving DecidableEq

namespace VendorCopy

def text (declaration : List Char) : VendorCopy → List Char
  | marked mark => mark.toList ++ declaration
  | fixed text => text.toList

/-- The copy in the notation of replacements. -/
def template : VendorCopy → String
  | marked mark => mark ++ "$\x7bdecl\x7d"
  | fixed text => text

end VendorCopy

/-- Whether a character may stand inside any value: it ends neither a declaration nor a block. -/
def isValueChar (c : Char) : Bool := c != ';' && c != '{' && c != '}'

namespace DeclaredValue

/-- The length of a value and its semicolon, less one, behind the colon. -/
def length? (value : DeclaredValue) (text : List Char) : Option Nat :=
  match value with
  | anything =>
    let shown := text.takeWhile isValueChar
    match text.drop shown.length with
    | ';' :: _ => some shown.length
    | _ => none
  | keyword word =>
    let before := text.takeWhile isBlank
    match word.toList.isPrefixOf? (text.drop before.length) with
    | none => none
    | some rest =>
      let after := rest.takeWhile isBlank
      match rest.drop after.length with
      | ';' :: _ => some (before.length + word.length + after.length)
      | _ => none

/-- The value in the notation of regular expressions. -/
def expression : DeclaredValue → String
  | anything => "[^;\x7b\x7d]*;"
  | keyword word => "\\s*" ++ word ++ "\\s*;"

end DeclaredValue

/-- The declarations with a property, given with its colon, and a value. -/
def declarationPattern (opening : List Char) (value : DeclaredValue) : Pattern := fun text =>
  match opening.isPrefixOf? text with
  | none => none
  | some rest => (value.length? rest).map (opening.length + ·)

/-- Whether a declaration may begin behind a character. -/
def beginsDeclaration : Option Char → Bool
  | none => true
  | some c => isBlank c || c == '{' || c == ';'

namespace VendorRule

def name (rule : VendorRule) : String :=
  match rule.value with
  | .anything => rule.property
  | .keyword word => s!"{rule.property}: {word}"

/-- The pattern of a rule as a regular expression. -/
def expression (rule : VendorRule) : String :=
  "(?P<decl>" ++ rule.property ++ ":" ++ rule.value.expression ++ ")"

/-- What a rule puts in place of a declaration, in the notation of replacements. -/
def replacement (rule : VendorRule) : String :=
  String.intercalate " " (rule.copies.map VendorCopy.template ++ ["$\x7bdecl\x7d"])

/-- The copies of a declaration and then the declaration. -/
def expand (rule : VendorRule) (declaration : List Char) : List Char :=
  rule.copies.flatMap (fun copy => copy.text declaration ++ [' ']) ++ declaration

/-- What becomes of a piece of the text. -/
def rewritePiece (rule : VendorRule) : Piece → List Char
  | .plain c => [c]
  | .hit before declaration =>
    if beginsDeclaration before then rule.expand declaration else declaration

def pattern (rule : VendorRule) : Pattern :=
  declarationPattern (rule.property.toList ++ [':']) rule.value

/-- Puts the copies in front of all declarations of the rule's property. -/
def apply (rule : VendorRule) (text : List Char) : List Char :=
  (pieces rule.pattern text).flatMap rule.rewritePiece

end VendorRule

/-- The rules in the order in which they are applied. -/
def vendorRules : List VendorRule := [
  ⟨"display", .keyword "flex",
    [.fixed "display: -webkit-box;", .fixed "display: -ms-flexbox;"]⟩,
  ⟨"display", .keyword "inline-flex",
    [.fixed "display: -webkit-inline-box;", .fixed "display: -ms-inline-flexbox;"]⟩,
  ⟨"user-select", .anything, [.marked "-webkit-", .marked "-moz-", .marked "-ms-"]⟩,
  ⟨"appearance", .keyword "none",
    [.fixed "-webkit-appearance: none;", .fixed "-moz-appearance: none;"]⟩,
  ⟨"backdrop-filter", .anything, [.marked "-webkit-"]⟩,
  ⟨"object-fit", .anything, [.marked "-o-"]⟩,
  ⟨"transition", .anything, [.marked "-webkit-"]⟩,
  ⟨"box-shadow", .anything, [.marked "-webkit-"]⟩,
  ⟨"transform", .anything, [.marked "-webkit-", .marked "-ms-"]⟩]

/-- Applies all rules to a text. -/
def addVendorCopies (text : List Char) : List Char :=
  vendorRules.foldl (fun text rule => rule.apply text) text

/-- The text of a sheet with copies for single browsers. -/
def withVendorCopies (css : String) : String := String.ofList (addVendorCopies css.toList)

end ThemeCss
