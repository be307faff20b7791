import ThemeCss.Number.Shortest
import ThemeCss.Text.Quoted
import ThemeCss.ValueError

/-! # What can be wrong with a JSON text

A reader works on what is left of the text, so it knows the place of a fault as the number of
bytes that were left there. A fault in what the text means, such as a missing field, takes its
place only where the innermost object or array around it is left; until then it is *pending* and
carries the text from which that object or array is left.
-/

namespace ThemeCss.Json

/-- The bytes of a text in UTF-8. -/
def byteCount (text : List Char) : Nat :=
  text.foldl (fun count c => count + c.utf8Size) 0

/-- A value that stands where a value of another type belongs. -/
inductive Found where
  | null
  | boolean (value : Bool)
  | integer (value : Int)
  | floating (value : Binary64)
  | string (value : String)
  | sequence
  | map

namespace Found

def text : Found → String
  | null => "null"
  | boolean value => s!"boolean `{value}`"
  | integer value => s!"integer `{value}`"
  | floating value => s!"floating point `{value.shortestText}`"
  | string value => s!"string {Quoted.text value}"
  | sequence => "sequence"
  | map => "map"

end Found

/-- The kinds of fault: the text ends too soon, is not JSON, or does not hold what it should. -/
inductive Category where
  | endOfText
  | syntactic
  | semantic
deriving DecidableEq

inductive Cause where
  | endInValue
  | endInObject
  | endInList
  | endInString
  | expectedValue
  | expectedWord
  | expectedColon
  | expectedCommaOrBrace
  | expectedCommaOrBracket
  | keyNotString
  | trailingComma
  | trailingCharacters
  | invalidNumber
  | numberOutOfRange
  | invalidEscape
  | loneSurrogate
  | endOfSurrogate
  | controlCharacter
  | invalidType (found : Found) (expected : String)
  | invalidValue (found : Found) (expected : String)
  | missingField (name : String)
  | duplicateField (name : String)
  | tooFewElements (count : Nat) (expected : String)
  | value (error : ValueError)

namespace Cause

def category : Cause → Category
  | endInValue | endInObject | endInList | endInString => .endOfText
  | invalidType .. | invalidValue .. | missingField _ | duplicateField _ | tooFewElements ..
  | value _ => .semantic
  | _ => .syntactic

def text : Cause → String
  | endInValue => "EOF while parsing a value"
  | endInObject => "EOF while parsing an object"
  | endInList => "EOF while parsing a list"
  | endInString => "EOF while parsing a string"
  | expectedValue => "expected value"
  | expectedWord => "expected ident"
  | expectedColon => "expected `:`"
  | expectedCommaOrBrace => "expected `,` or `\x7d`"
  | expectedCommaOrBracket => "expected `,` or `]`"
  | keyNotString => "key must be a string"
  | trailingComma => "trailing comma"
  | trailingCharacters => "trailing characters"
  | invalidNumber => "invalid number"
  | numberOutOfRange => "number out of range"
  | invalidEscape => "invalid escape"
  | loneSurrogate => "lone leading surrogate in hex escape"
  | endOfSurrogate => "unexpected end of hex escape"
  | controlCharacter => "control character (\\u0000-\\u001F) found while parsing a string"
  | invalidType found expected => s!"invalid type: {found.text}, expected {expected}"
  | invalidValue found expected => s!"invalid value: {found.text}, expected {expected}"
  | missingField name => s!"missing field `{name}`"
  | duplicateField name => s!"duplicate field `{name}`"
  | tooFewElements count expected => s!"invalid length {count}, expected {expected}"
  | value error => error.message

end Cause

/-- A fault on the way out of a reader. -/
inductive Fault where
  /-- The fault has its place, where `left` bytes of the text were left. -/
  | placed (cause : Cause) (left : Nat)
  /-- The fault takes its place when what encloses it is left, from `rest` on. -/
  | pending (cause : Cause) (rest : List Char)

namespace Fault

/-- A fault before the rest of the text. -/
def here (cause : Cause) (rest : List Char) : Fault := .placed cause (byteCount rest)

/-- A fault behind the next byte, or at the end of the text. -/
def next (cause : Cause) (rest : List Char) : Fault := .placed cause (byteCount rest - 1)

end Fault

/-- A fault with its place in the text: lines from 1, and bytes since the start of the line. -/
structure Error where
  cause : Cause
  line : Nat
  column : Nat

namespace Error

def message (error : Error) : String :=
  s!"{error.cause.text} at line {error.line} column {error.column}"

/-- Walks `bytes` bytes on from the given line and column. -/
def walk (line column bytes : Nat) : List Char → Nat × Nat
  | [] => (line, column)
  | c :: rest =>
    if bytes < c.utf8Size then (line, column + bytes)
    else if c = '\n' then walk (line + 1) 0 (bytes - 1) rest
    else walk line (column + c.utf8Size) (bytes - c.utf8Size) rest

/-- The place of a fault in the whole text. -/
def ofFault (text : List Char) (fault : Fault) : Error :=
  let (cause, left) := match fault with
    | .placed cause left => (cause, left)
    | .pending cause rest => (cause, byteCount rest)
  let (line, column) := walk 1 0 (byteCount text - left) text
  ⟨cause, line, column⟩

end Error

end ThemeCss.Json
