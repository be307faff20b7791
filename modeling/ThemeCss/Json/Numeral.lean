import ThemeCss.Json.Reader

/-! # Numerals

A numeral is taken off the text first and given its value afterwards. Whole numbers that fit 64
bits are exact. Of the others at most the digits that fit 64 bits are kept; the kept digits become
a double, which is then multiplied or divided by a power of ten. That is two roundings, so the
last bit may differ from the nearest double.
-/

namespace ThemeCss.Json

structure Numeral where
  negative : Bool
  whole : List Char
  /-- The digits behind the point, if there is one. -/
  places : Option (List Char)
  /-- Whether the exponent is negative, and its digits, if there is one. -/
  power : Option (Bool × List Char)

/-- The fault where a digit has to follow; `atEnd` is the cause if the text ends there. -/
def noDigit (atEnd : Cause) (text : List Char) : Fault :=
  match text with
  | [] => .placed atEnd 0
  | _ => .next .invalidNumber text

/-- Takes at least one digit. -/
def takeDigits (atEnd : Cause) (text : List Char) : Outcome (List Char) :=
  match text.takeWhile Char.isDigit with
  | [] => .error (noDigit atEnd text)
  | digits => .ok (digits, text.dropWhile Char.isDigit)

/-- Takes the digits in front of the point: a zero stands alone. -/
def takeWhole (atEnd : Cause) (text : List Char) : Outcome (List Char) :=
  match text with
  | '0' :: rest =>
    match rest.head?.filter Char.isDigit with
    | some _ => .error (.next .invalidNumber rest)
    | none => .ok (['0'], rest)
  | _ => takeDigits atEnd text

def takePlaces (atEnd : Cause) (text : List Char) : Outcome (Option (List Char)) :=
  match text with
  | '.' :: rest =>
    match takeDigits atEnd rest with
    | .error fault => .error fault
    | .ok (digits, behind) => .ok (some digits, behind)
  | _ => .ok (none, text)

def takePower (atEnd : Cause) (text : List Char) : Outcome (Option (Bool × List Char)) :=
  match text with
  | c :: rest =>
    if c = 'e' ∨ c = 'E' then
      let (negative, body) := splitSign rest
      match takeDigits atEnd body with
      | .error fault => .error fault
      | .ok (digits, behind) => .ok (some (negative, digits), behind)
    else .ok (none, text)
  | [] => .ok (none, text)

/-- Takes a numeral off the text; `atEnd` is the cause of a fault at the end of the text. -/
def takeNumeral (atEnd : Cause) (text : List Char) : Outcome Numeral :=
  let (negative, body) := match text with
    | '-' :: rest => (true, rest)
    | _ => (false, text)
  match takeWhole atEnd body with
  | .error fault => .error fault
  | .ok (whole, afterWhole) =>
    match takePlaces atEnd afterWhole with
    | .error fault => .error fault
    | .ok (places, afterPlaces) =>
      match takePower atEnd afterPlaces with
      | .error fault => .error fault
      | .ok (power, rest) => .ok (⟨negative, whole, places, power⟩, rest)

theorem takeDigits_shorter {atEnd : Cause} {text digits rest : List Char}
    (success : takeDigits atEnd text = .ok (digits, rest)) : rest.length < text.length := by
  unfold takeDigits at success
  split at success
  · cases success
  · next some =>
    cases success
    have whole : text.takeWhile Char.isDigit ++ text.dropWhile Char.isDigit = text :=
      List.takeWhile_append_dropWhile
    have lengths := congrArg List.length whole
    have present : 0 < (text.takeWhile Char.isDigit).length :=
      List.length_pos_iff.mpr some
    rw [List.length_append] at lengths
    omega

theorem takeWhole_shorter {atEnd : Cause} {text digits rest : List Char}
    (success : takeWhole atEnd text = .ok (digits, rest)) : rest.length < text.length := by
  unfold takeWhole at success
  split at success
  · split at success <;> cases success
    simp
  · exact takeDigits_shorter success

theorem takePlaces_keeps {atEnd : Cause} {text rest : List Char} {places : Option (List Char)}
    (success : takePlaces atEnd text = .ok (places, rest)) : rest.length ≤ text.length := by
  unfold takePlaces at success
  split at success
  · split at success
    · cases success
    · next digits =>
      have := takeDigits_shorter digits
      cases success
      simp only [List.length_cons]
      omega
  · cases success
    exact Nat.le_refl _

theorem splitSign_keeps (text : List Char) : (splitSign text).2.length ≤ text.length := by
  unfold splitSign
  split <;> simp

theorem takePower_keeps {atEnd : Cause} {text rest : List Char}
    {power : Option (Bool × List Char)}
    (success : takePower atEnd text = .ok (power, rest)) : rest.length ≤ text.length := by
  unfold takePower at success
  split at success
  · next c tail =>
    split at success
    · simp only at success
      split at success
      · cases success
      · next digits =>
        have := takeDigits_shorter digits
        have := splitSign_keeps tail
        cases success
        simp only [List.length_cons]
        omega
    · cases success
      exact Nat.le_refl _
  · cases success
    exact Nat.le_refl _

theorem takeNumeral_shorter {atEnd : Cause} {text rest : List Char} {numeral : Numeral}
    (success : takeNumeral atEnd text = .ok (numeral, rest)) : rest.length < text.length := by
  unfold takeNumeral at success
  have body : (match text with
    | '-' :: rest => (true, rest)
    | _ => (false, text)).2.length ≤ text.length := by
    split <;> simp
  revert success
  generalize (match text with
    | '-' :: rest => (true, rest)
    | _ => (false, text)) = signed at body
  obtain ⟨negative, unsigned⟩ := signed
  intro success
  simp only at success body
  split at success
  · cases success
  · next whole =>
    have := takeWhole_shorter whole
    split at success
    · cases success
    · next places =>
      have := takePlaces_keeps places
      split at success
      · cases success
      · next power =>
        have := takePower_keeps power
        cases success
        omega

/-- The value of a numeral: a whole number of 64 bits, or a double. -/
inductive Number where
  | whole (value : Int)
  | floating (value : Binary64)

/-- The greatest number of 64 bits. -/
def greatestSignificand : Nat := 0xFFFFFFFFFFFFFFFF

/-- The greatest exponent that is told from infinity. -/
def greatestPower : Nat := 0x7FFFFFFF

/-- Appends digits to a number as long as it stays within a bound; the digits left over follow. -/
def appendDigits (bound value : Nat) (digits : List Char) : Nat × List Char :=
  match digits with
  | [] => (value, [])
  | digit :: rest =>
    let next := value * 10 + (digit.toNat - '0'.toNat)
    if bound < next then (value, digits) else appendDigits bound next rest

def powerOfTen (exponent : Nat) : Binary64 := .ofDecimal false 1 exponent

/-- Divides by a power of ten, by at most 10³⁰⁸ at a time. -/
def shrink (value : Binary64) (down : Nat) : Binary64 :=
  if down ≤ 308 then value / powerOfTen down
  else if value.isZero then value
  else shrink (value / powerOfTen 308) (down - 308)
termination_by down

/-- Multiplies by a power of ten, if the result is finite. -/
def grow? (value : Binary64) (up : Nat) : Option Binary64 :=
  if up ≤ 308 then
    let product := value * powerOfTen up
    if product.isFinite then some product else none
  else if value.isZero then some value
  else none

/-- Moves the point of a double by decimal places. -/
def movePoint? (value : Binary64) (exponent : Int) : Option Binary64 :=
  match exponent with
  | .ofNat up => grow? value up
  | .negSucc down => some (shrink value (down + 1))

namespace Numeral

/-- The significand that is kept, and the exponent that belongs to it. -/
def parts (numeral : Numeral) : Nat × Int :=
  let (whole, dropped) := appendDigits greatestSignificand 0 numeral.whole
  let places := numeral.places.getD []
  let (significand, unread) := appendDigits greatestSignificand whole places
  (significand, (dropped.length : Int) - (places.length - unread.length : Int))

/-- The value of a numeral in front of `rest`. -/
def value (numeral : Numeral) (rest : List Char) : Except Fault Number :=
  let (significand, shift) := numeral.parts
  let signed (size : Binary64) : Binary64 := if numeral.negative then -size else size
  let moved (exponent : Int) : Except Fault Number :=
    match movePoint? (.ofNat significand) exponent with
    | some size => .ok (.floating (signed size))
    | none => .error (.here .numberOutOfRange rest)
  match numeral.places, numeral.power with
  | none, none =>
    if shift ≠ 0 then moved shift
    else if !numeral.negative then .ok (.whole significand)
    else if 0 < significand ∧ significand ≤ 0x8000000000000000 then .ok (.whole (-significand))
    else .ok (.floating (signed (.ofNat significand)))
  | _, none => moved shift
  | _, some (down, digits) =>
    match appendDigits greatestPower 0 digits with
    | (power, []) => moved (if down then shift - power else shift + power)
    | (_, _ :: unread) =>
      if significand ≠ 0 ∧ !down then
        .error (.placed .numberOutOfRange (byteCount rest + unread.length))
      else .ok (.floating (signed .zero))

end Numeral

/-- Takes a number: a numeral with its value. -/
def takeNumber (text : List Char) : Outcome Number :=
  match takeNumeral .endInValue text with
  | .error fault => .error fault
  | .ok (numeral, rest) =>
    match numeral.value rest with
    | .error fault => .error fault
    | .ok number => .ok (number, rest)

theorem takeNumber_shorter {text rest : List Char} {number : Number}
    (success : takeNumber text = .ok (number, rest)) : rest.length < text.length := by
  unfold takeNumber at success
  split at success
  · cases success
  · next numeral =>
    have := takeNumeral_shorter numeral
    split at success <;> cases success
    exact this

end ThemeCss.Json
