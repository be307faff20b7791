import ThemeCss.Proofs.Sheet.ClassName
import ThemeCss.Proofs.Text.Characters

/-! # Texts of identifiers

In an identifier stand letters, digits, hyphens, underscores and characters that are not ASCII;
anything else has to be escaped. What is escaped for a selector is such a text. A text that is put
in as it is need not be: in front of it and behind it plain characters change nothing.
-/

namespace ThemeCss

/-- A character that stands for itself in an identifier. -/
def isIdentifierChar (c : Char) : Bool := isNameChar c || 0x80 ≤ c.toNat

/-- A character that ends a line of a sheet. -/
def isLineEnd (c : Char) : Bool := c == '\n' || c == '\r' || c == '\x0c'

/-- A backslash, and behind it a character that is no hexadecimal digit and does not end the line,
or up to six hexadecimal digits, which may be ended by one blank. -/
inductive IsEscape : List Char → Prop where
  | character {c : Char} (other : hexDigit? c = none) (line : isLineEnd c = false) :
      IsEscape ['\\', c]
  | code {digits blank : List Char} (nonempty : digits ≠ []) (few : digits.length ≤ 6)
      (hexadecimal : ∀ c ∈ digits, (hexDigit? c).isSome = true) (single : blank.length ≤ 1)
      (space : ∀ c ∈ blank, c = ' ' ∨ c = '\t' ∨ isLineEnd c = true) :
      IsEscape ('\\' :: (digits ++ blank))

/-- A text of identifier characters and escapes. -/
inductive IsIdentifierText : List Char → Prop where
  | nil : IsIdentifierText []
  | character {c : Char} {rest : List Char} (plain : isIdentifierChar c = true)
      (behind : IsIdentifierText rest) : IsIdentifierText (c :: rest)
  | escape {escaped rest : List Char} (escape : IsEscape escaped)
      (behind : IsIdentifierText rest) : IsIdentifierText (escaped ++ rest)

theorem isIdentifierChar_of_isNameChar {c : Char} (named : isNameChar c = true) :
    isIdentifierChar c = true := by
  simp [isIdentifierChar, named]

theorem IsEscape.head?_eq {escaped : List Char} (escape : IsEscape escaped) :
    escaped.head? = some '\\' := by
  cases escape <;> rfl

namespace IsIdentifierText

variable {c : Char} {first second rest : List Char}

theorem append (left : IsIdentifierText first) (right : IsIdentifierText second) :
    IsIdentifierText (first ++ second) := by
  induction left with
  | nil => exact right
  | character plain _ ih => exact .character plain ih
  | escape escape _ ih =>
    rw [List.append_assoc]
    exact .escape escape ih

/-- Only a backslash ties a character to those behind it. -/
theorem cons_iff (other : c ≠ '\\') :
    IsIdentifierText (c :: rest) ↔ isIdentifierChar c = true ∧ IsIdentifierText rest := by
  refine ⟨fun text => ?_, fun ⟨plain, behind⟩ => .character plain behind⟩
  generalize whole : c :: rest = letters at text
  cases text with
  | nil => cases whole
  | character plain behind =>
    obtain ⟨rfl, rfl⟩ := List.cons.inj whole
    exact ⟨plain, behind⟩
  | escape escape behind =>
    have front := congrArg List.head? whole
    rw [List.head?_append, escape.head?_eq] at front
    exact absurd (Option.some.inj front) other

theorem append_iff (plain : ∀ c ∈ first, isIdentifierChar c = true) :
    IsIdentifierText (first ++ second) ↔ IsIdentifierText second := by
  induction first with
  | nil => rfl
  | cons c rest ih =>
    obtain ⟨letter, others⟩ := List.forall_mem_cons.mp plain
    have other : c ≠ '\\' := by
      rintro rfl
      exact absurd letter (by decide)
    rw [List.cons_append, cons_iff other, ih others]
    exact and_iff_right letter

theorem of_plain (plain : ∀ c ∈ first, isIdentifierChar c = true) : IsIdentifierText first := by
  rw [← List.append_nil first, append_iff plain]
  exact .nil

end IsIdentifierText

theorem isIdentifierText_escapeNameChar {c : Char} (line : isLineEnd c = false) :
    IsIdentifierText (escapeNameChar c) := by
  unfold escapeNameChar
  split
  · next named => exact .character (isIdentifierChar_of_isNameChar named) .nil
  · next other =>
    have letter : hexDigit? c = none :=
      Option.not_isSome_iff_eq_none.mp fun digit => other (isNameChar_of_hexDigit? digit)
    exact .escape (.character letter line) .nil

theorem isIdentifierText_escapeFirstChar {c : Char} (line : isLineEnd c = false) :
    IsIdentifierText (escapeFirstChar c) := by
  unfold escapeFirstChar
  split
  · next digit =>
    have digits : ∀ d ∈ ['3', c], (hexDigit? d).isSome = true :=
      List.forall_mem_cons.mpr ⟨rfl, List.forall_mem_singleton.mpr
        (isSome_hexDigit?_of_isDigit digit)⟩
    have space : ∀ d ∈ [' '], d = ' ' ∨ d = '\t' ∨ isLineEnd d = true :=
      List.forall_mem_singleton.mpr (.inl rfl)
    have few : ['3', c].length ≤ 6 := by simp
    exact .escape (.code (List.cons_ne_nil _ _) few digits le_rfl space) .nil
  · exact isIdentifierText_escapeNameChar line

/-- An escaped name is the text of an identifier, unless it has an end of a line in it. -/
theorem isIdentifierText_escapeName {name : List Char} (lines : ∀ c ∈ name, isLineEnd c = false) :
    IsIdentifierText (escapeName name) := by
  cases name with
  | nil => exact .nil
  | cons c rest =>
    obtain ⟨line, others⟩ := List.forall_mem_cons.mp lines
    rw [escapeName_cons]
    refine (isIdentifierText_escapeFirstChar line).append ?_
    clear lines
    induction rest with
    | nil => exact .nil
    | cons d further ih =>
      obtain ⟨next, others⟩ := List.forall_mem_cons.mp others
      exact (isIdentifierText_escapeNameChar next).append (ih others)

end ThemeCss
