import ThemeCss.Proofs.Minified.Normal
import ThemeCss.Proofs.Minified.Squeezed
import ThemeCss.Proofs.Sheet.ClassName

/-! # Escaped names in minified text

The passes know nothing of escapes: to them a blank behind a backslash is a blank. What is around it
in a selector is never punctuation, since a backslash is in front of it and a backslash or a plain
character behind it. So a space is kept wherever something of the name follows, and any other blank
becomes a space. A blank at the end of the name is dropped in front of the brace, and its backslash
is left there.
-/

namespace ThemeCss

section Solid

variable {c : Char} (solid : isBlank c = false) (unmarked : isPunctuation c = false)

include solid unmarked

theorem settle_cons_of_unmarked (room : Bool) (rest : List Char) :
    settle room false (c :: rest) = c :: settle true false rest := by
  rw [settle_cons_of_not_due room rest solid, unmarked, Bool.not_false]

/-- Behind a character that is neither blank nor punctuation a text is settled on its own. -/
theorem exists_settle_append_cons (room due : Bool) (first second : List Char) :
    ∃ front, settle room due (first ++ c :: second) = front ++ c :: settle true false second := by
  induction first generalizing room due with
  | nil =>
    cases due with
    | true => exact ⟨[' '], settle_cons_of_due room second solid unmarked⟩
    | false => exact ⟨[], settle_cons_of_unmarked solid unmarked room second⟩
  | cons d rest ih =>
    rw [List.cons_append, settle]
    split
    · exact ih room room
    · obtain ⟨front, same⟩ := ih (!isPunctuation d) false
      rw [same]
      split
      · exact ⟨' ' :: d :: front, rfl⟩
      · exact ⟨d :: front, rfl⟩

theorem squeezed_suffix_append_cons (first second : List Char) :
    squeezed (c :: second) <:+ squeezed (first ++ c :: second) := by
  obtain ⟨front, whole⟩ := exists_settle_append_cons solid unmarked false false first second
  have other : c ≠ ';' := by
    rintro rfl
    contradiction
  have opened : (dropSemicolons (c :: settle true false second)).head? ≠ some '}' := by
    rw [dropSemicolons_cons_of_ne _ other]
    intro same
    obtain rfl := Option.some.inj same
    contradiction
  rw [squeezed, squeezed, settled, settled, whole, settle_cons_of_unmarked solid unmarked,
    dropSemicolons_append front opened]
  exact List.suffix_append _ _

/-- What stands between such a character and an opening brace is squeezed in front of the brace. -/
theorem squeezed_infix_append_cons (first second rest : List Char) :
    squeezed (c :: second) ++ ['{'] <:+:
      squeezed (first ++ c :: (second ++ ' ' :: '{' :: rest)) := by
  have space : IsBlankText [' '] := by simp
  have split : first ++ c :: (second ++ ' ' :: '{' :: rest) =
      ((first ++ c :: second) ++ [' ']) ++ '{' :: rest := by simp
  obtain ⟨front, same⟩ := squeezed_suffix_append_cons solid unmarked first second
  refine ⟨front, squeezed rest, ?_⟩
  rw [split, squeezed_append_cons _ rest rfl (by decide) (by decide), squeezed_append_blank _ space,
    ← same]
  simp

end Solid

section Plain

variable {c : Char} (named : isNameChar c = true)

include named

theorem toNat_of_isNameChar : 45 ≤ c.toNat ∧ c.toNat ≤ 122 := by
  simp only [isNameChar, Char.isAlphanum, Char.isAlpha, Char.isUpper, Char.isLower, Char.isDigit,
    Bool.or_eq_true, Bool.and_eq_true, decide_eq_true_eq, beq_iff_eq, ge_iff_le,
    UInt32.le_iff_toNat_le] at named
  simp only [Char.toNat]
  rcases named with ((((⟨low, high⟩ | ⟨low, high⟩) | ⟨low, high⟩) | rfl) | rfl)
  · exact ⟨le_trans (by decide) low, le_trans high (by decide)⟩
  · exact ⟨le_trans (by decide) low, le_trans high (by decide)⟩
  · exact ⟨le_trans (by decide) low, le_trans high (by decide)⟩
  · decide
  · decide

theorem not_isBlank_of_isNameChar : isBlank c = false := by
  obtain ⟨low, high⟩ := toNat_of_isNameChar named
  simp only [isBlank, Bool.or_eq_false_iff, Bool.and_eq_false_iff, decide_eq_false_iff_not,
    beq_eq_false_iff_ne]
  omega

theorem not_isPunctuation_of_isNameChar : isPunctuation c = false := by
  by_contra mark
  rcases isPunctuation_iff.mp (by simpa using mark) with rfl | rfl | rfl | rfl | rfl <;>
    exact absurd named (by decide)

end Plain

theorem not_isDigit_of_isBlank {c : Char} (blank : isBlank c = true) : c.isDigit = false := by
  by_contra digit
  have named : isNameChar c = true := by
    rw [Bool.not_eq_false] at digit
    simp [isNameChar, Char.isAlphanum, digit]
  rw [not_isBlank_of_isNameChar named] at blank
  contradiction

theorem escapeNameChar_of_isBlank {c : Char} (blank : isBlank c = true) :
    escapeNameChar c = ['\\', c] := by
  rw [escapeNameChar, if_neg]
  intro named
  rw [not_isBlank_of_isNameChar named] at blank
  contradiction

/-- An escaped character begins with itself or with a backslash. -/
theorem exists_escapeNameChar (c : Char) : ∃ first more, escapeNameChar c = first :: more ∧
    isBlank first = false ∧ isPunctuation first = false := by
  rw [escapeNameChar]
  split
  · next named =>
    exact ⟨c, [], rfl, not_isBlank_of_isNameChar named, not_isPunctuation_of_isNameChar named⟩
  · exact ⟨'\\', [c], rfl, rfl, rfl⟩

/-- The blanks of a name are spaces, and it does not end in one. -/
structure HasInnerSpaces (name : List Char) : Prop where
  spaces : ∀ c ∈ name, isBlank c = true → c = ' '
  stop : ∀ c ∈ name.getLast?, isBlank c = false

theorem HasInnerSpaces.of_solid {name : List Char} (solid : ∀ c ∈ name, isBlank c = false) :
    HasInnerSpaces name where
  spaces c member blank := absurd (solid c member) (by simp [blank])
  stop c last := solid c (List.mem_of_getLast? last)

section Escapes

variable {c : Char} {name rest : List Char}

theorem HasInnerSpaces.of_cons (inner : HasInnerSpaces (c :: rest)) : HasInnerSpaces rest where
  spaces d member := inner.spaces d (List.mem_cons_of_mem c member)
  stop d last := inner.stop d (by rw [List.getLast?_cons, Option.mem_def.mp last]; rfl)

theorem HasInnerSpaces.ne_nil (inner : HasInnerSpaces (c :: rest)) (blank : isBlank c = true) :
    rest ≠ [] := by
  rintro rfl
  have stop := inner.stop c rfl
  rw [blank] at stop
  contradiction

/-- In front of an escaped text a blank leaves its space, and punctuation leaves no room for one. -/
theorem settle_flatMap_escapeNameChar (rest : List Char) :
    settle false false (rest.flatMap escapeNameChar) =
        settle true false (rest.flatMap escapeNameChar) ∧
      (rest ≠ [] → settle true true (rest.flatMap escapeNameChar) =
        ' ' :: settle true false (rest.flatMap escapeNameChar)) := by
  cases rest with
  | nil => exact ⟨rfl, fun nonempty => absurd rfl nonempty⟩
  | cons c rest =>
    obtain ⟨first, more, letters, solid, unmarked⟩ := exists_escapeNameChar c
    rw [List.flatMap_cons, letters, List.cons_append, settle_cons_of_unmarked solid unmarked,
      settle_cons_of_unmarked solid unmarked, settle_cons_of_due true _ solid unmarked]
    exact ⟨rfl, fun _ => rfl⟩

/-- Escapes with inner spaces are settled. -/
theorem HasInnerSpaces.settle_flatMap (inner : HasInnerSpaces rest) :
    settle true false (rest.flatMap escapeNameChar) = rest.flatMap escapeNameChar := by
  induction rest with
  | nil => rfl
  | cons c rest ih =>
    have behind := ih inner.of_cons
    obtain ⟨tight, spaced⟩ := settle_flatMap_escapeNameChar rest
    rw [List.flatMap_cons, escapeNameChar]
    split
    · next named =>
      rw [List.singleton_append, settle_cons_of_unmarked (not_isBlank_of_isNameChar named)
        (not_isPunctuation_of_isNameChar named), behind]
    · rw [List.cons_append, List.singleton_append, settle_cons_of_unmarked rfl rfl]
      cases blank : isBlank c with
      | true =>
        rw [settle_cons_of_isBlank true false _ blank, spaced (inner.ne_nil blank), behind,
          inner.spaces c List.mem_cons_self blank]
      | false =>
        cases mark : isPunctuation c with
        | true =>
          rw [settle_cons_of_isPunctuation true false _ mark, settled, tight, behind]
        | false => rw [settle_cons_of_unmarked blank mark, behind]

/-- No semicolon of an escaped text is in front of a brace. -/
theorem dropSemicolons_flatMap_escapeNameChar (rest : List Char) :
    dropSemicolons (rest.flatMap escapeNameChar) = rest.flatMap escapeNameChar := by
  induction rest with
  | nil => rfl
  | cons c rest ih =>
    have opened : (dropSemicolons (rest.flatMap escapeNameChar)).head? ≠ some '}' := by
      rw [ih]
      cases rest with
      | nil => simp
      | cons d rest =>
        obtain ⟨first, more, letters, -, unmarked⟩ := exists_escapeNameChar d
        rw [List.flatMap_cons, letters]
        intro same
        obtain rfl := Option.some.inj same
        contradiction
    rw [List.flatMap_cons, dropSemicolons_append _ opened, ih, escapeNameChar]
    split
    · rfl
    · by_cases same : c = ';'
      · subst same
        rfl
      · rw [dropSemicolons_cons_of_ne _ (by decide), dropSemicolons_cons_of_ne _ same]
        rfl

/-- A selector of one class is kept if the blanks of its name are. The escape of a digit ends in a
space of its own, which needs something behind it. -/
theorem HasInnerSpaces.squeezed_selector (inner : HasInnerSpaces name)
    (several : ∀ c, name = [c] → c.isDigit = false) :
    squeezed ('.' :: escapeName name) = '.' :: escapeName name := by
  cases name with
  | nil => rfl
  | cons c rest =>
    rw [escapeName_cons, escapeFirstChar]
    cases digit : c.isDigit with
    | true =>
      have named : isNameChar c = true := by simp [isNameChar, Char.isAlphanum, digit]
      have further : rest ≠ [] := by
        rintro rfl
        rw [several c rfl] at digit
        contradiction
      have front : settled ('.' :: (['\\', '3', c, ' '] ++ rest.flatMap escapeNameChar)) =
          ['.', '\\', '3', c, ' '] ++ rest.flatMap escapeNameChar := by
        simp only [settled, List.cons_append, List.nil_append]
        rw [settle_cons_of_unmarked rfl rfl, settle_cons_of_unmarked rfl rfl,
          settle_cons_of_unmarked rfl rfl, settle_cons_of_unmarked (not_isBlank_of_isNameChar named)
            (not_isPunctuation_of_isNameChar named), settle_cons_of_isBlank true false _ rfl,
          (settle_flatMap_escapeNameChar rest).2 further, inner.of_cons.settle_flatMap]
      have absent : ';' ∉ ['.', '\\', '3', c, ' '] := by
        simp only [List.mem_cons, List.not_mem_nil, or_false, not_or]
        refine ⟨by decide, by decide, by decide, ?_, by decide⟩
        rintro rfl
        contradiction
      rw [if_pos rfl, squeezed, front, dropSemicolons_append_of_not_mem absent,
        dropSemicolons_flatMap_escapeNameChar]
      rfl
    | false =>
      rw [if_neg Bool.false_ne_true, ← List.flatMap_cons, squeezed, settled,
        settle_cons_of_unmarked rfl rfl, inner.settle_flatMap,
        dropSemicolons_cons_of_ne _ (by decide), dropSemicolons_flatMap_escapeNameChar]

/-- A blank at the end of a name is at the end of the escaped name. -/
theorem exists_escapeName_concat (blank : isBlank c = true) (front : List Char) :
    ∃ more, escapeName (front ++ [c]) = more ++ [c] := by
  have last : (front ++ [c]).flatMap escapeNameChar =
      (front.flatMap escapeNameChar ++ ['\\']) ++ [c] := by
    simp [escapeNameChar_of_isBlank blank]
  cases front with
  | nil =>
    refine ⟨['\\'], ?_⟩
    rw [List.nil_append, escapeName_cons, escapeFirstChar, not_isDigit_of_isBlank blank,
      if_neg Bool.false_ne_true, escapeNameChar_of_isBlank blank]
    rfl
  | cons d rest =>
    refine ⟨escapeFirstChar d ++ (rest.flatMap escapeNameChar ++ ['\\']), ?_⟩
    rw [List.cons_append, escapeName_cons, List.flatMap_append, List.flatMap_singleton,
      escapeNameChar_of_isBlank blank]
    simp

/-- In a normal text there are no other selectors in front of a brace. -/
theorem hasInnerSpaces_of_infix {text : List Char} (normal : IsNormal text)
    (inside : '.' :: escapeName name ++ ['{'] <:+: text) : HasInnerSpaces name where
  spaces c member blank := by
    have escaped := mem_escapeName member (not_isDigit_of_isBlank blank)
    exact normal.spaces c (inside.subset (by simp [escaped])) blank
  stop c last := by
    by_contra blank
    rw [Bool.not_eq_false] at blank
    obtain ⟨front, rfl⟩ := List.getLast?_eq_some_iff.mp (Option.mem_def.mp last)
    obtain ⟨more, same⟩ := exists_escapeName_concat blank front
    have pair : [c, '{'] <:+: '.' :: escapeName (front ++ [c]) ++ ['{'] :=
      ⟨'.' :: more, [], by simp [same]⟩
    have tight := normal.tight.infix (pair.trans inside)
    simp [isPunctuation, blank] at tight

end Escapes

/-- Where comments leave a selector of one class in front of a brace, minifying squeezes it. It is
kept as it is exactly if the blanks of the name are. -/
theorem selector_minifyText {text name before behind : List Char}
    (stripped : stripComments text = before ++ '.' :: (escapeName name ++ ' ' :: '{' :: behind))
    (several : ∀ c, name = [c] → c.isDigit = false) :
    squeezed ('.' :: escapeName name) ++ ['{'] <:+: minifyText text ∧
      ('.' :: escapeName name ++ ['{'] <:+: minifyText text ↔ HasInnerSpaces name) := by
  have reached : squeezed ('.' :: escapeName name) ++ ['{'] <:+: minifyText text := by
    rw [minifyText_eq_squeezed, stripped]
    exact squeezed_infix_append_cons rfl rfl before (escapeName name) behind
  refine ⟨reached, hasInnerSpaces_of_infix (isNormal_minifyText text), fun inner => ?_⟩
  rwa [inner.squeezed_selector several] at reached

end ThemeCss
