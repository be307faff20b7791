import ThemeCss.Proofs.Minified.Normal
import ThemeCss.Proofs.Minified.Shut

/-! # Minified text between quotation marks

The passes know nothing of quotation marks: to them a mark is a character that is neither blank nor
punctuation. So they treat what is on its two sides apart, and what stands between two marks is
shortened like any other text. It stays as it is only if there is nothing in it to shorten.
-/

namespace ThemeCss

/-- What the passes behind the comments make of a text between characters that they keep. -/
def shortened (text : List Char) : List Char := collapse (dropSemicolons (tighten text))

/-- A text in which those passes find nothing to do. -/
structure IsShort (text : List Char) : Prop where
  /-- No blank is next to punctuation. -/
  tight : text.IsChain fun a b =>
    ¬ (isBlank a = true ∧ isPunctuation b = true) ∧ ¬ (isPunctuation a = true ∧ isBlank b = true)
  /-- No semicolon is directly in front of a closing brace. -/
  unended : text.IsChain fun a b => ¬ (a = ';' ∧ b = '}')
  /-- Blanks are spaces, and no two of them are next to each other. -/
  spaces : ∀ c ∈ text, isBlank c = true → c = ' '
  single : text.IsChain fun a b => ¬ (isBlank a = true ∧ isBlank b = true)

theorem IsShort.shortened_eq {text : List Char} (short : IsShort text) : shortened text = text := by
  rw [shortened, tighten_of_tight short.tight, dropSemicolons_of_unended short.unended,
    collapse_of_single short.spaces short.single]

section Solid

variable {c : Char} (solid : isBlank c = false)

include solid

theorem dropWhile_isBlank_append_cons (first second : List Char) :
    (first ++ c :: second).dropWhile isBlank = first.dropWhile isBlank ++ c :: second := by
  induction first with
  | nil => exact List.dropWhile_cons_of_neg (by simp [solid])
  | cons d rest ih =>
    cases blank : isBlank d with
    | true =>
      rw [List.cons_append, List.dropWhile_cons_of_pos blank, List.dropWhile_cons_of_pos blank, ih]
    | false =>
      rw [List.cons_append, List.dropWhile_cons_of_neg (by simp [blank]),
        List.dropWhile_cons_of_neg (by simp [blank]), List.cons_append]

theorem trimRight_append_cons (first second : List Char) :
    trimRight (first ++ c :: second) = first ++ c :: trimRight second := by
  have whole : (first ++ c :: second).reverse = second.reverse ++ c :: first.reverse := by simp
  rw [trimRight, whole, dropWhile_isBlank_append_cons solid, trimRight]
  simp

theorem collapse_append_cons (first second : List Char) :
    collapse (first ++ c :: second) = collapse first ++ c :: collapse second := by
  induction first with
  | nil => exact collapse_cons_of_not_isBlank second solid
  | cons d rest ih =>
    rw [List.cons_append]
    cases blank : isBlank d with
    | true =>
      rw [collapse_cons_of_isBlank _ blank, collapse_cons_of_isBlank _ blank, ← dropWhile_collapse,
        ih, dropWhile_isBlank_append_cons solid, dropWhile_collapse, List.cons_append]
    | false =>
      rw [collapse_cons_of_not_isBlank _ blank, collapse_cons_of_not_isBlank _ blank, ih,
        List.cons_append]

variable (unmarked : isPunctuation c = false)

include unmarked

theorem tighten_append_cons (first second : List Char) :
    tighten (first ++ c :: second) = tighten first ++ c :: tighten second := by
  induction first with
  | nil => exact tighten_cons_of_not_isBlank second solid unmarked
  | cons d rest ih =>
    rw [List.cons_append]
    cases blank : isBlank d with
    | true =>
      have front : (tighten rest ++ c :: tighten second).head?.any isPunctuation =
          (tighten rest).head?.any isPunctuation := by
        cases tighten rest with
        | nil => exact unmarked
        | cons e more => rfl
      rw [tighten_cons_of_isBlank _ blank, tighten_cons_of_isBlank _ blank, ih, front]
      split <;> rfl
    | false =>
      cases mark : isPunctuation d with
      | true =>
        rw [tighten_cons_of_isPunctuation _ mark, tighten_cons_of_isPunctuation _ mark, ih,
          dropWhile_isBlank_append_cons solid, List.cons_append]
      | false =>
        rw [tighten_cons_of_not_isBlank _ blank mark, tighten_cons_of_not_isBlank _ blank mark, ih,
          List.cons_append]

/-- What is on the two sides of a character that is neither blank nor punctuation is shortened on
its own. -/
theorem shortened_append_cons (first second : List Char) :
    shortened (first ++ c :: second) = shortened first ++ c :: shortened second := by
  have other {mark : Char} (punctuation : isPunctuation mark = true) : c ≠ mark := by
    rintro rfl
    rw [unmarked] at punctuation
    contradiction
  have brace : isPunctuation '}' = true := rfl
  have kept : dropSemicolons (c :: tighten second) = c :: dropSemicolons (tighten second) :=
    dropSemicolons_cons_of_ne _ (other rfl)
  rw [shortened, tighten_append_cons solid unmarked, dropSemicolons_append, kept,
    collapse_append_cons solid, ← shortened, ← shortened]
  rw [kept]
  exact fun same => other brace (Option.some.inj same)

end Solid

/-- Between quotation marks that no comment takes out stands what is shortened. -/
theorem quoted_infix_minifyText {text before name behind : List Char}
    (stripped : stripComments text = before ++ '"' :: (name ++ '"' :: behind)) :
    '"' :: (shortened name ++ ['"']) <:+: minifyText text := by
  have solid : isBlank '"' = false := rfl
  refine ⟨(shortened before).dropWhile isBlank, trimRight (shortened behind), ?_⟩
  calc
    (shortened before).dropWhile isBlank ++ '"' :: (shortened name ++ ['"']) ++
        trimRight (shortened behind) =
        ((shortened before).dropWhile isBlank ++ '"' :: shortened name) ++
          '"' :: trimRight (shortened behind) := by simp
    _ = trimRight (((shortened before).dropWhile isBlank ++ '"' :: shortened name) ++
          '"' :: shortened behind) := (trimRight_append_cons solid _ _).symm
    _ = trimRight ((shortened before).dropWhile isBlank ++
          '"' :: (shortened name ++ '"' :: shortened behind)) := by simp
    _ = trim (shortened before ++ '"' :: (shortened name ++ '"' :: shortened behind)) := by
      rw [trim, dropWhile_isBlank_append_cons solid]
    _ = trim (shortened (before ++ '"' :: (name ++ '"' :: behind))) := by
      rw [shortened_append_cons solid rfl, shortened_append_cons solid rfl]
    _ = minifyText text := by rw [minifyText, stripped, shortened]

end ThemeCss
