import ThemeCss.Color
import ThemeCss.Proofs.Number.Thousandths
import ThemeCss.Proofs.Text.Characters

/-! # Colours and lengths that are written and read

A colour is read as it was written. A length comes back with its unit, and is written in the same
way again; its value may have moved to the nearest double of what was written.
-/

namespace ThemeCss

namespace Color

theorem mapM_channelDigits (channel : UInt8) : (channelDigits channel).mapM hexDigit? =
    some [channel.toNat / 16, channel.toNat % 16] := by
  have bound := channel.toNat_lt
  rw [channelDigits, List.mapM_cons, hexDigit?_digitChar (by omega), List.mapM_cons,
    hexDigit?_digitChar (by omega)]
  rfl

theorem ofNat_channelDigits (channel : UInt8) :
    UInt8.ofNat (16 * (channel.toNat / 16) + channel.toNat % 16) = channel := by
  rw [Nat.div_add_mod, UInt8.ofNat_toNat]

/-- A colour is written with a hash and hexadecimal digits. -/
theorem mem_hex {color : Color} {c : Char} (member : c ∈ color.hex.toList) :
    c = '#' ∨ ∃ digit < 16, c = Nat.digitChar digit := by
  have channel {channel : UInt8} (member : c ∈ channelDigits channel) :
      ∃ digit < 16, c = Nat.digitChar digit := by
    have bound := channel.toNat_lt
    rw [channelDigits, List.mem_cons, List.mem_singleton] at member
    rcases member with same | same
    · exact ⟨_, by omega, same⟩
    · exact ⟨_, by omega, same⟩
  rw [hex, String.toList_ofList, List.mem_cons, List.mem_append, List.mem_append] at member
  rcases member with hash | (red | green) | blue
  · exact .inl hash
  · exact .inr (channel red)
  · exact .inr (channel green)
  · exact .inr (channel blue)

theorem not_isBlank_of_mem_hex {color : Color} {c : Char} (member : c ∈ color.hex.toList) :
    isBlank c = false := by
  rcases mem_hex member with rfl | ⟨digit, small, rfl⟩
  · rfl
  · exact not_isBlank_digitChar small

/-- A colour is read as it was written. -/
theorem parse_hex (color : Color) : parse color.hex = .ok color := by
  have text : trim color.hex.toList = '#' :: (channelDigits color.red ++
      channelDigits color.green ++ channelDigits color.blue) := by
    rw [trim_of_not_isBlank fun c member => not_isBlank_of_mem_hex member, hex,
      String.toList_ofList]
  have digits : (channelDigits color.red ++ channelDigits color.green ++
      channelDigits color.blue).mapM hexDigit? =
      some ([color.red.toNat / 16, color.red.toNat % 16] ++
        [color.green.toNat / 16, color.green.toNat % 16] ++
        [color.blue.toNat / 16, color.blue.toNat % 16]) := by
    simp only [List.mapM_append, mapM_channelDigits]
    rfl
  rw [parse, text, dropHash, digits]
  simp only [Option.bind_some, ofDigits?, List.cons_append, List.nil_append, ofNat_channelDigits]

end Color

namespace Length

/-- A length that can be had from a text: its number is finite, and its unit is told from the number
and does not end in a blank. -/
structure WellFormed (length : Length) : Prop where
  finite : length.value.isFinite = true
  apart : ∀ c ∈ length.unit.toList.head?, isNumberChar c = false
  trimmed : ∀ c ∈ length.unit.toList.getLast?, isBlank c = false

theorem wellFormed_of_parse {text : String} {length : Length} (success : parse text = .ok length) :
    length.WellFormed := by
  rw [parse] at success
  split at success
  · next value read =>
    split at success
    · next finite =>
      obtain rfl := Except.ok.inj success
      refine ⟨finite, ?_, ?_⟩
      · intro c first
        have other := List.head?_dropWhile_not isNumberChar (trim text.toList)
        rw [String.toList_ofList, Option.mem_def] at first
        rwa [first] at other
      · intro c last
        rw [String.toList_ofList, Option.mem_def] at last
        apply @not_isBlank_of_getLast?_trimRight (text.toList.dropWhile isBlank)
        rw [← trim, ← List.takeWhile_append_dropWhile (p := isNumberChar) (l := trim text.toList),
          List.getLast?_append, last]
        rfl
    · cases success
  · cases success

theorem not_isBlank_of_isNumberChar {c : Char} (number : isNumberChar c = true) :
    isBlank c = false := by
  have range : 0x2b ≤ c.toNat ∧ c.toNat ≤ 0x39 := by
    simp only [isNumberChar, Bool.or_eq_true, beq_iff_eq, Char.isDigit_iff_toNat] at number
    rcases number with ((⟨low, high⟩ | rfl) | rfl) | rfl
    · exact ⟨Nat.le_trans (by decide) low, high⟩
    all_goals decide
  simp only [isBlank]
  generalize c.toNat = code at *
  obtain ⟨low, high⟩ := range
  interval_cases code <;> rfl

/-- A number in front of a unit is told from it. -/
theorem parse_append {number unit : List Char} {value : Binary64}
    (read : Binary64.ofNumeral? number = some value) (finite : value.isFinite = true)
    (some_char : number ≠ []) (numberChars : ∀ c ∈ number, isNumberChar c = true)
    (apart : ∀ c ∈ unit.head?, isNumberChar c = false)
    (trimmed : ∀ c ∈ unit.getLast?, isBlank c = false) :
    parse (String.ofList (number ++ unit)) = .ok ⟨value, String.ofList unit⟩ := by
  have body : trim (number ++ unit) = number ++ unit := by
    apply trim_of_ends
    · intro c first
      rw [List.head?_append_of_ne_nil _ some_char] at first
      exact not_isBlank_of_isNumberChar (numberChars c (List.mem_of_head? first))
    · intro c last
      rw [List.getLast?_append] at last
      rcases Option.or_eq_some_iff.mp last with unitLast | ⟨-, numberLast⟩
      · exact trimmed c unitLast
      · exact not_isBlank_of_isNumberChar (numberChars c (List.mem_of_getLast? numberLast))
  have first : unit.takeWhile isNumberChar = [] ∧ unit.dropWhile isNumberChar = unit := by
    cases unit with
    | nil => exact ⟨rfl, rfl⟩
    | cons c rest => simp [apart c rfl]
  rw [parse, String.toList_ofList, body, List.takeWhile_append_of_pos numberChars,
    List.dropWhile_append_of_pos numberChars, first.1, first.2, List.append_nil, read]
  simp [finite]

/-- The value is the double nearest to a whole number of thousandths below 2⁵³. -/
def InThousandths (length : Length) : Prop :=
  ∃ count : Int, count.natAbs < 2 ^ 53 ∧
    length.value.same (.ofDecimal (count < 0) count.natAbs (-3)) = true

/-- What the writing of a length keeps: its unit, its text, and its value up to thousandths. -/
structure Keeps (length again : Length) : Prop where
  unit : again.unit = length.unit
  text : again.text = length.text
  same : length.InThousandths → again.same length = true

/-- A length that was written is read with the double that is nearest to the written thousandths. -/
theorem parse_text {negative : Bool} {magnitude : Magnitude} {unit : String}
    (wellFormed : WellFormed ⟨.finite negative magnitude, unit⟩) :
    parse (text ⟨.finite negative magnitude, unit⟩) =
      .ok ⟨Binary64.reread negative magnitude, unit⟩ := by
  have read := Binary64.ofNumeral?_compact negative magnitude
  have written : Length.text ⟨.finite negative magnitude, unit⟩ =
      String.ofList ((Binary64.finite negative magnitude).compact.toList ++ unit.toList) := by
    rw [text, String.ofList_append, String.ofList_toList, String.ofList_toList]
  have some_char : (Binary64.finite negative magnitude).compact.toList ≠ [] := by
    intro empty
    rw [empty] at read
    cases read
  rw [written, parse_append read rfl some_char
    (fun c member => Binary64.isNumberChar_of_mem_compact rfl member) wellFormed.apart
    wellFormed.trimmed, String.ofList_toList]

/-- A length that was written can be read. -/
theorem exists_parse_text {length : Length} (wellFormed : length.WellFormed) :
    ∃ again, parse length.text = .ok again ∧ length.Keeps again := by
  obtain ⟨value, unit⟩ := length
  obtain ⟨negative, magnitude, rfl⟩ := Binary64.exists_of_isFinite wellFormed.finite
  refine ⟨⟨Binary64.reread negative magnitude, unit⟩, parse_text wellFormed, rfl, ?_, ?_⟩
  · rw [text, text, Binary64.compact_reread]
  · rintro ⟨count, few, same⟩
    rw [Length.same, Binary64.reread_same negative magnitude few same]
    simp

end Length

end ThemeCss
