import ThemeCss.Proofs.Number.LastPlace
import ThemeCss.Proofs.Theme.Values

/-! # Lengths that are read, written and read again

The text of a length is read as a length with the same unit and the same text, whatever the unit is
and even where the number is too large to be written. Numbers that can be written in full move by
no more than what is lost in thousandths.
-/

namespace ThemeCss

namespace Length

/-- The unit of a length cannot be taken for a part of its number. -/
theorem WellFormed.start {length : Length} (wellFormed : length.WellFormed) :
    ∀ c ∈ length.unit.toList.head?, c.isDigit = false ∧ c ≠ '.' ∧ c ≠ '-' ∧ c ≠ '+' := by
  intro c first
  have other := wellFormed.apart c first
  simpa [isNumberChar, and_assoc] using other

/-- A length has a finite number and a unit that is told from it. Its text is read as a length with
the same unit and the same text, and a number below 2⁶³ moves by at most half a thousandth and half a
unit in the last place. -/
theorem parse_text_of_parse {source : String} {length : Length}
    (read : parse source = .ok length) :
    length.value.isFinite = true ∧
    (∀ c ∈ length.unit.toList.getLast?, isBlank c = false) ∧
    (∀ c ∈ length.unit.toList.head?, c.isDigit = false ∧ c ≠ '.' ∧ c ≠ '-' ∧ c ≠ '+') ∧
    ∃ again, parse length.text = .ok again ∧ again.unit = length.unit ∧ again.text = length.text ∧
      ∀ number, length.value.value? = some number → |number| < 2 ^ 63 →
        ∃ other, again.value.value? = some other ∧ |other - number| ≤
          1 / 2000 + min length.value.lastPlace again.value.lastPlace / 2 := by
  have wellFormed := wellFormed_of_parse read
  refine ⟨wellFormed.finite, wellFormed.trimmed, wellFormed.start, ?_⟩
  obtain ⟨value, unit⟩ := length
  obtain ⟨negative, magnitude, rfl⟩ := Binary64.exists_of_isFinite wellFormed.finite
  refine ⟨⟨Binary64.reread negative magnitude, unit⟩, parse_text wellFormed, rfl, ?_, ?_⟩
  · rw [text, text, Binary64.compact_reread]
  · intro number value below
    obtain rfl := Option.some.inj value
    have one := unitsPerOne_cast_pos
    have units : magnitude.units < 2 ^ 63 * unitsPerOne := by
      rw [abs_signed negative (div_unitsPerOne_nonneg _), div_lt_iff₀ one] at below
      exact_mod_cast below
    exact Binary64.exists_value?_reread negative units

/-- The number may be written in many ways, and the unit may look like anything. -/
theorem parse_text_of_parse_arrow :
    parse " +3.00→ em\n" = .ok ⟨.ofNat 3, "→ em"⟩ ∧ ∃ again,
      parse (text ⟨.ofNat 3, "→ em"⟩) = .ok again ∧ again.unit = "→ em" ∧
      again.text = text ⟨.ofNat 3, "→ em"⟩ ∧ ∃ other, again.value.value? = some other ∧
        |other - 3| ≤ 1 / 2000 + min (Binary64.ofNat 3).lastPlace again.value.lastPlace / 2 := by
  have read : parse " +3.00→ em\n" = .ok ⟨.ofNat 3, "→ em"⟩ := by decide +kernel
  have three : (Binary64.ofNat 3).value? = some (3 : ℚ) := Binary64.value?_ofNat (by decide)
  obtain ⟨-, -, -, again, reads, unit, text, near⟩ := parse_text_of_parse read
  dsimp only at near
  exact ⟨read, again, reads, unit, text, near 3 three (by norm_num)⟩

end Length

end ThemeCss
