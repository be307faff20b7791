import ThemeCss.Proofs.Minified.Squeezed

/-! # The size of a minified text

A space is written only where blanks have been read, so blanks in their shortest form take no more
bytes than before. Comments and semicolons are taken out and leave the rest as it is. A comment in
front is missing from the minified text with all of its bytes.
-/

namespace ThemeCss

open String (utf8Len utf8Len_cons utf8Len_le_of_sublist)

theorem length_le_utf8Len (text : List Char) : text.length ≤ utf8Len text := by
  induction text with
  | nil => exact Nat.le_refl _
  | cons c rest ih =>
    have solid := Char.utf8Size_pos c
    rw [List.length_cons, utf8Len_cons]
    omega

/-- A space that is due comes on top of the text. -/
theorem utf8Len_settle_le (room due : Bool) (text : List Char) :
    utf8Len (settle room due text) ≤ utf8Len text + due.toNat := by
  induction text generalizing room due with
  | nil => exact Nat.zero_le _
  | cons c rest ih =>
    have solid := Char.utf8Size_pos c
    have space : ' '.utf8Size = 1 := rfl
    cases blank : isBlank c with
    | true =>
      have behind := ih room room
      have few := Bool.toNat_le room
      rw [settle_cons_of_isBlank room due rest blank, utf8Len_cons]
      omega
    | false =>
      have behind : utf8Len (settle (!isPunctuation c) false rest) ≤ utf8Len rest :=
        ih (!isPunctuation c) false
      rw [settle, blank]
      simp only [Bool.false_eq_true, ↓reduceIte]
      split
      · next granted =>
        have owed : due = true := (Bool.and_eq_true_iff.mp granted).1
        rw [owed, utf8Len_cons, utf8Len_cons, utf8Len_cons, Bool.toNat_true]
        omega
      · rw [utf8Len_cons, utf8Len_cons]
        omega

theorem utf8Len_squeezed_le (text : List Char) : utf8Len (squeezed text) ≤ utf8Len text :=
  (utf8Len_le_of_sublist (dropSemicolons_sublist _)).trans (utf8Len_settle_le false false text)

theorem stripComments_sublist (text : List Char) :
    (stripComments text).Sublist (removeComments text) := by
  induction text using stripComments_induction with
  | commented text found ih =>
    rw [stripComments_of_hasComment found]
    exact ih.trans (removeComments_sublist _)
  | bare text bare =>
    rw [stripComments_of_not_hasComment bare, removeComments_of_not_hasComment bare]

/-- Minifying leaves out at least what one pass over the comments takes out. -/
theorem utf8Len_minifyText_le (text : List Char) :
    utf8Len (minifyText text) ≤ utf8Len (removeComments text) := by
  rw [minifyText_eq_squeezed]
  exact (utf8Len_squeezed_le _).trans (utf8Len_le_of_sublist (stripComments_sublist text))

/-- A comment in front leaves nothing. -/
theorem utf8Len_minifyText_comment_le {inside : List Char}
    (unclosed : ¬ ClosesComment (inside ++ ['*'])) (rest : List Char) :
    utf8Len (minifyText ('/' :: '*' :: (inside ++ '*' :: '/' :: rest))) ≤ utf8Len rest := by
  have less := utf8Len_minifyText_le ('/' :: '*' :: (inside ++ '*' :: '/' :: rest))
  rw [removeComments_comment unclosed] at less
  exact less.trans (utf8Len_le_of_sublist (removeComments_sublist rest))

end ThemeCss
