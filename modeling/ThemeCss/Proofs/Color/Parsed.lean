import ThemeCss.Proofs.Theme.Values

/-! # Which texts are colours

A text is a colour if six hexadecimal digits of either case are left of it behind at most one hash,
without the blanks around. It is written again with the same digits in lower case.
-/

namespace ThemeCss

/-- Six hexadecimal digits of either case. -/
def IsSixDigits (text : List Char) : Prop :=
  text.length = 6 ∧ ∀ c ∈ text, c ∈ "0123456789abcdefABCDEF".toList

theorem mem_hexDigits_of_isSome {c : Char} (digit : (hexDigit? c).isSome = true) :
    c ∈ "0123456789abcdefABCDEF".toList := by
  have range : (48 ≤ c.toNat ∧ c.toNat ≤ 57) ∨ (97 ≤ c.toNat ∧ c.toNat ≤ 102) ∨
      (65 ≤ c.toNat ∧ c.toNat ≤ 70) := by
    simp only [hexDigit?, Char.le_def, UInt32.le_iff_toNat_le] at digit
    split at digit
    · next number => exact .inl number
    · split at digit
      · next low => exact .inr (.inl low)
      · split at digit
        · next high => exact .inr (.inr high)
        · contradiction
  rw [← Char.ofNat_toNat c]
  generalize c.toNat = code at range
  rcases range with ⟨low, high⟩ | ⟨low, high⟩ | ⟨low, high⟩ <;> interval_cases code <;> decide

/-- A digit of either case stands for the number that is written with it in lower case. -/
theorem hexDigit?_of_mem : ∀ c ∈ "0123456789abcdefABCDEF".toList,
    ∃ digit, hexDigit? c = some digit ∧ digit < 16 ∧ c.toLower = Nat.digitChar digit := by
  have table : ("0123456789abcdefABCDEF".toList.all fun c => (hexDigit? c).any fun digit =>
      digit < 16 && c.toLower == Nat.digitChar digit) = true := rfl
  intro c member
  have entry := List.all_eq_true.mp table c member
  simpa only [Option.any_eq_true, Bool.and_eq_true, decide_eq_true_eq, beq_iff_eq] using entry

theorem mapM_hexDigit?_of_forall {text : List Char}
    (digits : ∀ c ∈ text, c ∈ "0123456789abcdefABCDEF".toList) :
    ∃ values, text.mapM hexDigit? = some values ∧ (∀ digit ∈ values, digit < 16) ∧
      text.map Char.toLower = values.map Nat.digitChar := by
  induction text with
  | nil => exact ⟨[], rfl, List.forall_mem_nil _, rfl⟩
  | cons c rest ih =>
    obtain ⟨single, others⟩ := List.forall_mem_cons.mp digits
    obtain ⟨digit, value, small, lower⟩ := hexDigit?_of_mem c single
    obtain ⟨values, read, bounded, written⟩ := ih others
    refine ⟨digit :: values, ?_, List.forall_mem_cons.mpr ⟨small, bounded⟩, ?_⟩
    · rw [List.mapM_cons, value, read]
      rfl
    · rw [List.map_cons, List.map_cons, lower, written]

theorem forall_mem_of_mapM_hexDigit? {text : List Char} {values : List Nat}
    (read : text.mapM hexDigit? = some values) :
    values.length = text.length ∧ ∀ c ∈ text, c ∈ "0123456789abcdefABCDEF".toList := by
  induction text generalizing values with
  | nil =>
    cases read
    exact ⟨rfl, List.forall_mem_nil _⟩
  | cons c rest ih =>
    simp only [List.mapM_cons, Option.bind_eq_bind, Option.bind_eq_some_iff] at read
    obtain ⟨digit, single, further, others, same⟩ := read
    obtain rfl := Option.some.inj same
    obtain ⟨length, plain⟩ := ih others
    have first := mem_hexDigits_of_isSome (Option.isSome_iff_exists.mpr ⟨digit, single⟩)
    exact ⟨congrArg Nat.succ length, List.forall_mem_cons.mpr ⟨first, plain⟩⟩

namespace Color

variable {text : String} {color : Color}

/-- What is left of the text of a colour: its digits. -/
def digitsOf (text : String) : List Char := dropHash (trim text.toList)

/-- The channels are read from pairs of digits. -/
structure HasDigits (color : Color) (a b c d e f : Nat) : Prop where
  red : color.red.toNat = 16 * a + b
  green : color.green.toNat = 16 * c + d
  blue : color.blue.toNat = 16 * e + f

theorem channelDigits_ofNat {high low : Nat} (first : high < 16) (second : low < 16) :
    channelDigits (UInt8.ofNat (16 * high + low)) = [Nat.digitChar high, Nat.digitChar low] := by
  have value : (UInt8.ofNat (16 * high + low)).toNat = 16 * high + low := by
    rw [UInt8.toNat_ofNat']
    omega
  have quotient : (16 * high + low) / 16 = high := by omega
  have remainder : (16 * high + low) % 16 = low := by omega
  rw [channelDigits, value, quotient, remainder]

/-- Only texts of six digits are colours. -/
theorem isSixDigits_of_parse (success : parse text = .ok color) : IsSixDigits (digitsOf text) := by
  rw [parse] at success
  split at success
  · next read =>
    obtain ⟨values, digits, meant⟩ := Option.bind_eq_some_iff.mp read
    obtain ⟨length, plain⟩ := forall_mem_of_mapM_hexDigit? digits
    refine ⟨?_, plain⟩
    rw [digitsOf, ← length]
    unfold ofDigits? at meant
    split at meant
    · rfl
    · cases meant
  · cases success

/-- Six digits are a colour, which is written with these digits in lower case. -/
theorem exists_parse (six : IsSixDigits (digitsOf text)) :
    ∃ color, parse text = .ok color ∧
      color.hex.toList = '#' :: (digitsOf text).map Char.toLower ∧
      ∃ a b c d e f, (digitsOf text).mapM hexDigit? = some [a, b, c, d, e, f] ∧
        color.HasDigits a b c d e f := by
  obtain ⟨length, plain⟩ := six
  obtain ⟨values, read, bounded, lower⟩ := mapM_hexDigit?_of_forall plain
  have size : values.length = 6 := by rw [(forall_mem_of_mapM_hexDigit? read).1, length]
  match values, size with
  | [a, b, c, d, e, f], _ =>
    simp only [List.forall_mem_cons, List.not_mem_nil, IsEmpty.forall_iff, implies_true,
      and_true] at bounded
    obtain ⟨ha, hb, hc, hd, he, hf⟩ := bounded
    have success : parse text = .ok ⟨.ofNat (16 * a + b), .ofNat (16 * c + d),
        .ofNat (16 * e + f)⟩ := by
      rw [parse, ← digitsOf, read]
      rfl
    refine ⟨_, success, ?_, a, b, c, d, e, f, read, ?_⟩
    · rw [lower, hex, String.toList_ofList, channelDigits_ofNat ha hb, channelDigits_ofNat hc hd,
        channelDigits_ofNat he hf]
      rfl
    · constructor <;> rw [UInt8.toNat_ofNat'] <;> omega

/-- A text that is no colour is named in the error as it was given. -/
theorem parse_eq_error (other : ¬ IsSixDigits (digitsOf text)) :
    parse text = .error (.color text) := by
  cases outcome : parse text with
  | ok color => exact absurd (isSixDigits_of_parse outcome) other
  | error error =>
    rw [parse] at outcome
    split at outcome
    · cases outcome
    · exact outcome.symm

end Color

end ThemeCss
