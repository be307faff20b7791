import ThemeCss.Text.Formless

/-! # Quoted text in messages

A text stands between double quotes. Quotes and backslashes get a backslash, and characters that
could not be told apart on paper are written by name or number.
-/

namespace ThemeCss.Quoted

def escape (char : Char) : List Char :=
  match char with
  | '"' => ['\\', '"']
  | '\\' => ['\\', '\\']
  | '\x00' => ['\\', '0']
  | '\t' => ['\\', 't']
  | '\n' => ['\\', 'n']
  | '\r' => ['\\', 'r']
  | _ =>
    if isFormless char then
      ['\\', 'u', '\x7b'] ++ Nat.toDigits 16 char.toNat ++ ['\x7d']
    else [char]

def text (value : String) : String :=
  String.ofList ('"' :: value.toList.flatMap escape ++ ['"'])

end ThemeCss.Quoted
