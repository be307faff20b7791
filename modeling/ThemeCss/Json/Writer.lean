import ThemeCss.Number.Shortest

/-! # Writing JSON

Compact JSON: no space between tokens, and only quotes, backslashes and control characters escaped.
-/

namespace ThemeCss.Json

/-- A control character as a Unicode escape. -/
def unicodeEscape (c : Char) : List Char :=
  ['\\', 'u', '0', '0', Nat.digitChar (c.toNat / 16), Nat.digitChar (c.toNat % 16)]

def escapeChar (c : Char) : List Char :=
  match c with
  | '"' => ['\\', '"']
  | '\\' => ['\\', '\\']
  | '\x08' => ['\\', 'b']
  | '\x0c' => ['\\', 'f']
  | '\n' => ['\\', 'n']
  | '\r' => ['\\', 'r']
  | '\t' => ['\\', 't']
  | c => if c.toNat < 0x20 then unicodeEscape c else [c]

def quote (text : String) : String :=
  String.ofList ('"' :: (text.toList.flatMap escapeChar ++ ['"']))

def writeList (items : List String) : String :=
  "[" ++ String.intercalate "," items ++ "]"

/-- Keys with the texts of their values. -/
def writeObject (members : List (String × String)) : String :=
  "\x7b" ++ String.intercalate "," (members.map fun (key, value) => quote key ++ ":" ++ value) ++
    "\x7d"

def writeBool (value : Bool) : String := if value then "true" else "false"

/-- The fewest digits that read back; what is not finite has no number in JSON. -/
def writeDouble (value : Binary64) : String :=
  if value.isFinite then value.shortestText else "null"

end ThemeCss.Json
