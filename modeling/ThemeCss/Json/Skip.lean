import ThemeCss.Json.Escape
import ThemeCss.Json.Numeral

/-! # Values that are skipped

A value that nobody asked for is checked for its form and passed. The objects and arrays that are
open around the current place are kept on a list, so the depth of nesting is not limited by the
depth of recursion.
-/

namespace ThemeCss.Json

/-- Takes the letters of a word. -/
def takeWord (word : List Char) (text : List Char) : Outcome Unit :=
  match word, text with
  | [], rest => .ok ((), rest)
  | _ :: _, [] => .error (.placed .endInValue 0)
  | letter :: letters, c :: rest =>
    if c = letter then takeWord letters rest else .error (.next .expectedWord text)

theorem takeWord_keeps {word text rest : List Char}
    (success : takeWord word text = .ok ((), rest)) : rest.length ≤ text.length := by
  induction word generalizing text with
  | nil =>
    rw [takeWord] at success
    cases success
    exact Nat.le_refl _
  | cons letter letters ih =>
    match text with
    | [] => cases success
    | c :: tail =>
      rw [takeWord] at success
      split at success
      · have further := ih success
        rw [List.length_cons]
        omega
      · cases success

/-- What a value may be nested in. -/
inductive Bracket where
  | object
  | list
deriving DecidableEq

namespace Bracket

def closer : Bracket → Char
  | object => '}'
  | list => ']'

/-- The cause of a fault where the text ends between two members. -/
def atEnd : Bracket → Cause
  | object => .endInObject
  | list => .endInList

/-- The cause of a fault where neither a comma nor the closer follows a member. -/
def expected : Bracket → Cause
  | object => .expectedCommaOrBrace
  | list => .expectedCommaOrBracket

end Bracket

/-- Takes the colon between a key and its value. -/
def takeColon (text : List Char) : Outcome Unit :=
  match skipSpace text with
  | ':' :: rest => .ok ((), rest)
  | [] => .error (.here .endInObject [])
  | other => .error (.next .expectedColon other)

theorem takeColon_shorter {text rest : List Char}
    (success : takeColon text = .ok ((), rest)) : rest.length < text.length := by
  have := length_skipSpace_le text
  unfold takeColon at success
  split at success <;> cases success
  next spaced =>
    rw [spaced, List.length_cons] at this
    omega

/-- Passes the key of a member and its colon. In an array there is nothing to pass. -/
def passKey (bracket : Bracket) (text : List Char) : Outcome Unit :=
  match bracket with
  | .list => .ok ((), text)
  | .object =>
    match skipSpace text with
    | '"' :: rest =>
      match passBody rest with
      | .error fault => .error fault
      | .ok ((), behind) => takeColon behind
    | [] => .error (.here .endInObject [])
    | other => .error (.next .keyNotString other)

theorem passKey_keeps {bracket : Bracket} {text rest : List Char}
    (success : passKey bracket text = .ok ((), rest)) : rest.length ≤ text.length := by
  have := length_skipSpace_le text
  unfold passKey at success
  split at success
  · cases success
    exact Nat.le_refl _
  · split at success
    · next spaced =>
      rw [spaced, List.length_cons] at this
      split at success
      · cases success
      · next body =>
        have := passBody_shorter body
        have := takeColon_shorter success
        omega
    · cases success
    · cases success

/-- Passes a value without members, if one stands at the front of the text. -/
def passScalar? (text : List Char) : Option (Outcome Unit) :=
  match text with
  | '"' :: rest => some (passBody rest)
  | 'n' :: rest => some (takeWord ['u', 'l', 'l'] rest)
  | 't' :: rest => some (takeWord ['r', 'u', 'e'] rest)
  | 'f' :: rest => some (takeWord ['a', 'l', 's', 'e'] rest)
  | c :: _ =>
    if c = '-' ∨ c.isDigit then
      some (match takeNumeral .invalidNumber text with
        | .error fault => .error fault
        | .ok (_, rest) => .ok ((), rest))
    else none
  | [] => none

theorem passScalar?_shorter {text rest : List Char}
    (success : passScalar? text = some (.ok ((), rest))) : rest.length < text.length := by
  unfold passScalar? at success
  split at success
  · have := passBody_shorter (Option.some.inj success)
    simp only [List.length_cons]
    omega
  · have := takeWord_keeps (Option.some.inj success)
    simp only [List.length_cons]
    omega
  · have := takeWord_keeps (Option.some.inj success)
    simp only [List.length_cons]
    omega
  · have := takeWord_keeps (Option.some.inj success)
    simp only [List.length_cons]
    omega
  · split at success
    · have inner := Option.some.inj success
      split at inner <;> cases inner
      next numeral => exact takeNumeral_shorter numeral
    · cases success
  · cases success

mutual

/-- Passes a value inside the open brackets, innermost first, and whatever they hold behind it. -/
def passValue (opened : List Bracket) (text : List Char) : Outcome Unit :=
  match _spaced : skipSpace text with
  | [] => .error (.here .endInValue [])
  | '[' :: rest =>
    have := length_skipSpace_le text
    passMembers .list opened rest
  | '{' :: rest =>
    have := length_skipSpace_le text
    passMembers .object opened rest
  | other =>
    match scalar : passScalar? other with
    | none => .error (.next .expectedValue other)
    | some (.error fault) => .error fault
    | some (.ok ((), rest)) =>
      have := length_skipSpace_le text
      have := passScalar?_shorter scalar
      passBehind opened rest
termination_by 2 * text.length
decreasing_by
  all_goals simp_all only [List.length_cons]; omega

/-- Passes the members of a bracket that was just opened. -/
def passMembers (bracket : Bracket) (opened : List Bracket) (text : List Char) : Outcome Unit :=
  match _spaced : skipSpace text with
  | [] => .error (.here bracket.atEnd [])
  | c :: rest =>
    have := length_skipSpace_le text
    if c = bracket.closer then passBehind opened rest
    else
      match key : passKey bracket (c :: rest) with
      | .error fault => .error fault
      | .ok ((), value) =>
        have := passKey_keeps key
        passValue (bracket :: opened) value
termination_by 2 * text.length + 1
decreasing_by
  all_goals simp_all only [List.length_cons]; omega

/-- Passes what follows a value, up to the end of the outermost bracket. -/
def passBehind (opened : List Bracket) (text : List Char) : Outcome Unit :=
  match opened with
  | [] => .ok ((), text)
  | bracket :: outer =>
    match _spaced : skipSpace text with
    | [] => .error (.here bracket.atEnd [])
    | c :: rest =>
      have := length_skipSpace_le text
      if c = ',' then
        match key : passKey bracket rest with
        | .error fault => .error fault
        | .ok ((), value) =>
          have := passKey_keeps key
          passValue (bracket :: outer) value
      else if c = bracket.closer then passBehind outer rest
      else .error (.next bracket.expected (c :: rest))
termination_by 2 * text.length
decreasing_by
  all_goals simp_all only [List.length_cons]; omega

end

/-- Passing a value gets on, and so does whatever is passed behind it. -/
theorem pass_shorter (bound : Nat) :
    (∀ {opened text rest}, text.length ≤ bound → passValue opened text = .ok ((), rest) →
      rest.length < text.length) ∧
    (∀ {bracket opened text rest}, text.length ≤ bound →
      passMembers bracket opened text = .ok ((), rest) → rest.length < text.length) ∧
    (∀ {opened text rest}, text.length ≤ bound → passBehind opened text = .ok ((), rest) →
      rest.length ≤ text.length) := by
  induction bound using Nat.strongRecOn with
  | ind bound ih =>
    have value : ∀ {opened text rest}, text.length ≤ bound →
        passValue opened text = .ok ((), rest) → rest.length < text.length := by
      intro opened text rest fits success
      have spaces := length_skipSpace_le text
      rw [passValue] at success
      split at success
      · cases success
      · next tail spaced =>
        rw [spaced, List.length_cons] at spaces
        have := (ih tail.length (by omega)).2.1 (Nat.le_refl _) success
        omega
      · next tail spaced =>
        rw [spaced, List.length_cons] at spaces
        have := (ih tail.length (by omega)).2.1 (Nat.le_refl _) success
        omega
      · split at success
        · cases success
        · cases success
        · next scalar =>
          have := passScalar?_shorter scalar
          have := (ih _ (by omega)).2.2 (Nat.le_refl _) success
          omega
    have members : ∀ {bracket opened text rest}, text.length ≤ bound →
        passMembers bracket opened text = .ok ((), rest) → rest.length < text.length := by
      intro bracket opened text rest fits success
      have spaces := length_skipSpace_le text
      rw [passMembers] at success
      split at success
      · cases success
      · next c tail spaced =>
        rw [spaced] at spaces
        split at success
        · rw [List.length_cons] at spaces
          have := (ih tail.length (by omega)).2.2 (Nat.le_refl _) success
          omega
        · split at success
          · cases success
          · next key =>
            have := passKey_keeps key
            have := value (by omega) success
            omega
    refine ⟨value, members, ?_⟩
    intro opened text rest fits success
    have spaces := length_skipSpace_le text
    rw [passBehind.eq_def] at success
    split at success
    · cases success
      exact Nat.le_refl _
    · split at success
      · cases success
      · next c tail spaced =>
        rw [spaced, List.length_cons] at spaces
        split at success
        · split at success
          · cases success
          · next key =>
            have := passKey_keeps key
            have := value (by omega) success
            omega
        · split at success
          · have := (ih tail.length (by omega)).2.2 (Nat.le_refl _) success
            omega
          · cases success

/-- Passes one value of any kind. -/
def Reader.ignore : Reader Unit where
  run := passValue []
  shorter success := (pass_shorter _).1 (Nat.le_refl _) success

end ThemeCss.Json
