import ThemeCss.Json.Fault

/-! # Readers

A reader takes a value off the front of a text and leaves the rest, which is shorter. That every
reader gets on is part of its type, so a loop over readers ends by the length of the text.
-/

namespace ThemeCss.Json

/-- The outcome of a step: a value and the rest of the text, or a fault. -/
abbrev Outcome (α : Type) := Except Fault (α × List Char)

/-- Takes a value off the front of a text. -/
structure Reader (α : Type) where
  run : List Char → Outcome α
  shorter : ∀ {text value rest}, run text = .ok (value, rest) → rest.length < text.length

/-- The four characters that may stand between tokens. -/
def isSpace (c : Char) : Bool := c == ' ' || c == '\n' || c == '\t' || c == '\r'

def skipSpace (text : List Char) : List Char := text.dropWhile isSpace

theorem length_dropWhile_le {α : Type} (keep : α → Bool) (items : List α) :
    (items.dropWhile keep).length ≤ items.length :=
  (List.dropWhile_sublist keep).length_le

theorem length_skipSpace_le (text : List Char) : (skipSpace text).length ≤ text.length :=
  length_dropWhile_le isSpace text

namespace Reader

variable {α β : Type}

/-- Goes on from the value and the rest that a reader leaves, without giving text back. -/
def andThen (reader : Reader α) (next : α → List Char → Outcome β)
    (keeps : ∀ {value text result rest}, next value text = .ok (result, rest) →
      rest.length ≤ text.length) : Reader β where
  run text :=
    match reader.run text with
    | .error fault => .error fault
    | .ok (value, rest) => next value rest
  shorter := by
    intro text value rest success
    split at success
    · cases success
    · next result => exact Nat.lt_of_le_of_lt (keeps success) (reader.shorter result)

/-- Reads a value and turns it into another one. -/
def map (f : α → β) (reader : Reader α) : Reader β :=
  reader.andThen (fun value rest => .ok (f value, rest)) (by
    intro value text result rest success
    cases success
    exact Nat.le_refl _)

/-- Reads a value that may have no meaning; the fault is then a pending one. -/
def interpret (f : α → Except ValueError β) (reader : Reader α) : Reader β :=
  reader.andThen
    (fun value rest =>
      match f value with
      | .ok meaning => .ok (meaning, rest)
      | .error error => .error (.pending (.value error) rest))
    (by
      intro value text result rest success
      split at success
      · cases success
        exact Nat.le_refl _
      · cases success)

end Reader

end ThemeCss.Json
