import ThemeCss.Json.Reader
import ThemeCss.Text.Characters

/-! # Strings

The body of a string behind its opening quote. A string that is kept is decoded, and its escapes
must denote characters; a string that is skipped is only checked for its form.
-/

namespace ThemeCss.Json

/-- The 16-bit unit that four hexadecimal digits denote. -/
def hexUnit? (a b c d : Char) : Option Nat := do
  return ((← hexDigit? a) * 16 + (← hexDigit? b)) * 256 +
    ((← hexDigit? c) * 16 + (← hexDigit? d))

/-- The fault of four bytes that are not four hexadecimal digits. -/
def badUnit (text : List Char) : Fault :=
  if byteCount text < 4 then .placed .endInString 0
  else .placed .invalidEscape (byteCount text - 4)

/-- Reads the unit of a Unicode escape, behind its `u`. -/
def takeUnit (text : List Char) : Outcome Nat :=
  match text with
  | a :: b :: c :: d :: rest =>
    match hexUnit? a b c d with
    | some unit => .ok (unit, rest)
    | none => .error (badUnit text)
  | _ => .error (badUnit text)

theorem takeUnit_shorter {text rest : List Char} {unit : Nat}
    (success : takeUnit text = .ok (unit, rest)) : rest.length < text.length := by
  unfold takeUnit at success
  split at success
  · split at success
    · cases success
      simp only [List.length_cons]
      omega
    · cases success
  · cases success

def isLeading (unit : Nat) : Bool := 0xd800 ≤ unit && unit ≤ 0xdbff

def isTrailing (unit : Nat) : Bool := 0xdc00 ≤ unit && unit ≤ 0xdfff

/-- Reads the `\u` that has to follow a leading surrogate. -/
def takePairMark (text : List Char) : Outcome Unit :=
  match text with
  | '\\' :: 'u' :: rest => .ok ((), rest)
  | ['\\'] | [] => .error (.placed .endInString 0)
  | '\\' :: rest => .error (.next .endOfSurrogate rest)
  | _ => .error (.next .endOfSurrogate text)

theorem takePairMark_shorter {text rest : List Char}
    (success : takePairMark text = .ok ((), rest)) : rest.length < text.length := by
  unfold takePairMark at success
  split at success <;> cases success
  simp only [List.length_cons]
  omega

/-- Reads the character of a Unicode escape, behind its `u`: one unit or a surrogate pair. -/
def takeUnicode (text : List Char) : Outcome Char :=
  match takeUnit text with
  | .error fault => .error fault
  | .ok (unit, rest) =>
    if isTrailing unit then .error (.here .loneSurrogate rest)
    else if isLeading unit then
      match takePairMark rest with
      | .error fault => .error fault
      | .ok ((), behind) =>
        match takeUnit behind with
        | .error fault => .error fault
        | .ok (second, last) =>
          if isTrailing second then
            .ok (Char.ofNat (0x10000 + (unit - 0xd800) * 0x400 + (second - 0xdc00)), last)
          else .error (.here .loneSurrogate last)
    else .ok (Char.ofNat unit, rest)

theorem takeUnicode_shorter {text rest : List Char} {c : Char}
    (success : takeUnicode text = .ok (c, rest)) : rest.length < text.length := by
  unfold takeUnicode at success
  split at success
  · cases success
  · next first =>
    have start := takeUnit_shorter first
    split at success
    · cases success
    · split at success
      · split at success
        · cases success
        · next mark =>
          have middle := takePairMark_shorter mark
          split at success
          · cases success
          · next second =>
            have last := takeUnit_shorter second
            split at success
            · simp only [Except.ok.injEq, Prod.mk.injEq] at success
              obtain ⟨-, rfl⟩ := success
              omega
            · cases success
      · simp only [Except.ok.injEq, Prod.mk.injEq] at success
        obtain ⟨-, rfl⟩ := success
        exact start

/-- The character that a letter behind a backslash stands for. -/
def escaped? : Char → Option Char
  | '"' => some '"'
  | '\\' => some '\\'
  | '/' => some '/'
  | 'b' => some '\x08'
  | 'f' => some '\x0c'
  | 'n' => some '\n'
  | 'r' => some '\r'
  | 't' => some '\t'
  | _ => none

/-- Reads the character of an escape, behind its backslash. -/
def takeEscape (text : List Char) : Outcome Char :=
  match text with
  | [] => .error (.here .endInString [])
  | letter :: rest =>
    if letter = 'u' then takeUnicode rest
    else
      match escaped? letter with
      | some c => .ok (c, rest)
      | none => .error (.next .invalidEscape text)

theorem takeEscape_shorter {text rest : List Char} {c : Char}
    (success : takeEscape text = .ok (c, rest)) : rest.length < text.length := by
  unfold takeEscape at success
  split at success
  · cases success
  · split at success
    · have unicode := takeUnicode_shorter success
      simp only [List.length_cons]
      omega
    · split at success <;> cases success
      simp

/-- Passes an escape of a string that is skipped: surrogates need not be paired. -/
def passEscape (text : List Char) : Outcome Unit :=
  match text with
  | [] => .error (.here .endInString [])
  | letter :: rest =>
    if letter = 'u' then
      match takeUnit rest with
      | .error fault => .error fault
      | .ok (_, behind) => .ok ((), behind)
    else
      match escaped? letter with
      | some _ => .ok ((), rest)
      | none => .error (.next .invalidEscape text)

theorem passEscape_shorter {text rest : List Char}
    (success : passEscape text = .ok ((), rest)) : rest.length < text.length := by
  unfold passEscape at success
  split at success
  · cases success
  · split at success
    · split at success
      · cases success
      · next unit =>
        have shorter := takeUnit_shorter unit
        cases success
        simp only [List.length_cons]
        omega
    · split at success <;> cases success
      simp

/-- Reads the rest of a string up to its closing quote; `done` holds what was read, reversed. -/
def takeBody (done : List Char) (text : List Char) : Outcome String :=
  match text with
  | [] => .error (.here .endInString [])
  | c :: rest =>
    if c = '"' then .ok (String.ofList done.reverse, rest)
    else if c = '\\' then
      match escape : takeEscape rest with
      | .error fault => .error fault
      | .ok (meant, behind) =>
        have := takeEscape_shorter escape
        takeBody (meant :: done) behind
    else if c.toNat < 0x20 then .error (.next .controlCharacter text)
    else takeBody (c :: done) rest
termination_by text.length
decreasing_by
  all_goals simp only [List.length_cons]; omega

/-- Passes the rest of a string that is skipped. -/
def passBody (text : List Char) : Outcome Unit :=
  match text with
  | [] => .error (.here .endInString [])
  | c :: rest =>
    if c = '"' then .ok ((), rest)
    else if c = '\\' then
      match escape : passEscape rest with
      | .error fault => .error fault
      | .ok ((), behind) =>
        have := passEscape_shorter escape
        passBody behind
    else if c.toNat < 0x20 then .error (.here .controlCharacter text)
    else passBody rest
termination_by text.length
decreasing_by
  all_goals simp only [List.length_cons]; omega

theorem takeBody_shorter {done text rest : List Char} {value : String}
    (success : takeBody done text = .ok (value, rest)) : rest.length < text.length := by
  match text with
  | [] =>
    rw [takeBody] at success
    cases success
  | c :: tail =>
    rw [takeBody] at success
    rw [List.length_cons]
    split at success
    · cases success
      exact Nat.lt_add_one _
    · split at success
      · split at success
        · cases success
        · next escape =>
          have escaped := takeEscape_shorter escape
          have further := takeBody_shorter success
          omega
      · split at success
        · cases success
        · have further := takeBody_shorter success
          omega
termination_by text.length

theorem passBody_shorter {text rest : List Char}
    (success : passBody text = .ok ((), rest)) : rest.length < text.length := by
  match text with
  | [] =>
    rw [passBody] at success
    cases success
  | c :: tail =>
    rw [passBody] at success
    rw [List.length_cons]
    split at success
    · cases success
      exact Nat.lt_add_one _
    · split at success
      · split at success
        · cases success
        · next escape =>
          have escaped := passEscape_shorter escape
          have further := passBody_shorter success
          omega
      · split at success
        · cases success
        · have further := passBody_shorter success
          omega
termination_by text.length

end ThemeCss.Json
