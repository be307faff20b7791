import ThemeCss.Json.Skip

/-! # Typed values without members

Strings, booleans and numbers. Where a value of another type stands, it is read as far as is
needed to say what it is, and the fault lies behind it.
-/

namespace ThemeCss.Json

/-- The fault of a word that was read in place of another value. -/
def wordFault (word rest : List Char) (found : Found) (expected : String) : Fault :=
  match takeWord word rest with
  | .error fault => fault
  | .ok ((), behind) => .here (.invalidType found expected) behind

/-- What a number is called in a message. -/
def Number.found : Number → Found
  | .whole value => .integer value
  | .floating value => .floating value

/-- The fault of the value at the front of the text, which is not of the expected type. -/
def mismatch (expected : String) (text : List Char) : Fault :=
  match text with
  | [] => .here .endInValue []
  | '"' :: rest =>
    match takeBody [] rest with
    | .error fault => fault
    | .ok (value, behind) => .here (.invalidType (.string value) expected) behind
  | '[' :: _ => .here (.invalidType .sequence expected) text
  | '{' :: _ => .here (.invalidType .map expected) text
  | 'n' :: rest => wordFault ['u', 'l', 'l'] rest .null expected
  | 't' :: rest => wordFault ['r', 'u', 'e'] rest (.boolean true) expected
  | 'f' :: rest => wordFault ['a', 'l', 's', 'e'] rest (.boolean false) expected
  | c :: _ =>
    if c = '-' ∨ c.isDigit then
      match takeNumber text with
      | .error fault => fault
      | .ok (number, behind) => .here (.invalidType number.found expected) behind
    else .next .expectedValue text

namespace Reader

/-- Reads a string. -/
def string : Reader String where
  run text :=
    match skipSpace text with
    | '"' :: rest => takeBody [] rest
    | other => .error (mismatch "a string" other)
  shorter := by
    intro text value rest success
    have spaces := length_skipSpace_le text
    split at success
    · next tail spaced =>
      rw [spaced, List.length_cons] at spaces
      have := takeBody_shorter success
      omega
    · cases success

/-- Reads `true` or `false`. -/
def boolean : Reader Bool where
  run text :=
    match skipSpace text with
    | 't' :: rest =>
      match takeWord ['r', 'u', 'e'] rest with
      | .error fault => .error fault
      | .ok ((), behind) => .ok (true, behind)
    | 'f' :: rest =>
      match takeWord ['a', 'l', 's', 'e'] rest with
      | .error fault => .error fault
      | .ok ((), behind) => .ok (false, behind)
    | other => .error (mismatch "a boolean" other)
  shorter := by
    intro text value rest success
    have spaces := length_skipSpace_le text
    split at success
    · next tail spaced =>
      rw [spaced, List.length_cons] at spaces
      split at success <;> cases success
      next word =>
        have := takeWord_keeps word
        omega
    · next tail spaced =>
      rw [spaced, List.length_cons] at spaces
      split at success <;> cases success
      next word =>
        have := takeWord_keeps word
        omega
    · cases success

/-- Reads a number that `meaning` accepts; otherwise `meaning` gives the cause of the fault. -/
def number {α : Type} (expected : String) (meaning : Number → Except Cause α) : Reader α where
  run text :=
    match skipSpace text with
    | [] => .error (mismatch expected [])
    | c :: tail =>
      if c = '-' ∨ c.isDigit then
        match takeNumber (c :: tail) with
        | .error fault => .error fault
        | .ok (number, rest) =>
          match meaning number with
          | .ok value => .ok (value, rest)
          | .error cause => .error (.here cause rest)
      else .error (mismatch expected (c :: tail))
  shorter := by
    intro text value rest success
    have spaces := length_skipSpace_le text
    split at success
    · cases success
    · next c tail spaced =>
      rw [spaced] at spaces
      split at success
      · split at success
        · cases success
        · next number =>
          have := takeNumber_shorter number
          split at success <;> cases success
          omega
      · cases success

/-- Reads a whole number from 0 to 2³² - 1. -/
def count : Reader Nat :=
  number "u32" fun
    | .whole value =>
      if 0 ≤ value ∧ value < 0x100000000 then .ok value.toNat
      else .error (.invalidValue (.integer value) "u32")
    | .floating value => .error (.invalidType (.floating value) "u32")

/-- Reads any number as a double. -/
def double : Reader Binary64 :=
  number "f64" fun
    | .whole value =>
      .ok (if value < 0 then -Binary64.ofNat value.natAbs else Binary64.ofNat value.natAbs)
    | .floating value => .ok value

end Reader

end ThemeCss.Json
