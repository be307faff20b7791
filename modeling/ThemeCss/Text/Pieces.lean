/-! # Matches in a text

A pattern is given by the length of its match at the front of a text. The text is cut from left
to right: where a match begins it is cut off as a whole, and the search goes on behind it; every
other character is a piece of its own. A match is kept with the character in front of it.
-/

namespace ThemeCss

/-- A pattern: one less than the number of characters it matches at the front of a text. -/
abbrev Pattern := List Char → Option Nat

/-- A character outside all matches, or a match and the character in front of it. -/
inductive Piece where
  | plain (c : Char)
  | hit (before : Option Char) (text : List Char)
deriving DecidableEq

namespace Piece

def text : Piece → List Char
  | plain c => [c]
  | hit _ text => text

end Piece

/-- Cuts a text that stands behind the character `before`; `done` are the pieces so far. -/
def cutPieces (pattern : Pattern) (done : List Piece) (before : Option Char) (text : List Char) :
    List Piece :=
  match text with
  | [] => done.reverse
  | c :: rest =>
    match pattern (c :: rest) with
    | none => cutPieces pattern (.plain c :: done) (some c) rest
    | some more =>
      cutPieces pattern (.hit before (c :: rest.take more) :: done)
        (some ((rest.take more).getLastD c)) (rest.drop more)
termination_by text.length
decreasing_by
  · simp
  · simp only [List.length_cons, List.length_drop]
    omega

/-- The pieces of a text behind the character `before`. -/
def piecesBehind (pattern : Pattern) (before : Option Char) (text : List Char) : List Piece :=
  cutPieces pattern [] before text

/-- The pieces of a whole text. -/
def pieces (pattern : Pattern) (text : List Char) : List Piece := piecesBehind pattern none text

theorem cutPieces_eq (pattern : Pattern) (done : List Piece) (before : Option Char)
    (text : List Char) :
    cutPieces pattern done before text = done.reverse ++ piecesBehind pattern before text := by
  induction length : text.length using Nat.strongRecOn generalizing done before text with
  | ind bound ih =>
    subst length
    rw [piecesBehind, cutPieces.eq_def, cutPieces.eq_def pattern [] before text]
    split
    · simp
    · next c rest =>
      split
      · rw [ih _ (by simp) (.plain c :: done) _ rest rfl, ih _ (by simp) [.plain c] _ rest rfl]
        simp
      · next more _ =>
        have shorter : (rest.drop more).length < (c :: rest).length := by
          simp only [List.length_cons, List.length_drop]
          omega
        rw [ih _ shorter (_ :: done) _ _ rfl, ih _ shorter [_] _ _ rfl]
        simp

theorem piecesBehind_nil (pattern : Pattern) (before : Option Char) :
    piecesBehind pattern before [] = [] := by
  rw [piecesBehind, cutPieces.eq_def]
  rfl

/-- Where nothing matches, one character is a piece. -/
theorem piecesBehind_cons_of_none {pattern : Pattern} {c : Char} {rest : List Char}
    (before : Option Char) (unmatched : pattern (c :: rest) = none) :
    piecesBehind pattern before (c :: rest) =
      .plain c :: piecesBehind pattern (some c) rest := by
  rw [piecesBehind, cutPieces.eq_def]
  simp only [unmatched]
  rw [cutPieces_eq]
  rfl

/-- A match is a piece, and the search goes on behind it. -/
theorem piecesBehind_cons_of_some {pattern : Pattern} {c : Char} {rest : List Char} {more : Nat}
    (before : Option Char) (matched : pattern (c :: rest) = some more) :
    piecesBehind pattern before (c :: rest) =
      .hit before (c :: rest.take more) ::
        piecesBehind pattern (some ((rest.take more).getLastD c)) (rest.drop more) := by
  rw [piecesBehind, cutPieces.eq_def]
  simp only [matched]
  rw [cutPieces_eq]
  rfl

/-- The pieces make up the text. -/
theorem flatMap_text_piecesBehind (pattern : Pattern) (before : Option Char) (text : List Char) :
    (piecesBehind pattern before text).flatMap Piece.text = text := by
  induction length : text.length using Nat.strongRecOn generalizing before text with
  | ind bound ih =>
    subst length
    cases text with
    | nil => rw [piecesBehind_nil]; rfl
    | cons c rest =>
      cases matched : pattern (c :: rest) with
      | none =>
        rw [piecesBehind_cons_of_none before matched, List.flatMap_cons,
          ih rest.length (by simp) _ rest rfl]
        rfl
      | some more =>
        have shorter : (rest.drop more).length < (c :: rest).length := by
          simp only [List.length_cons, List.length_drop]
          omega
        rw [piecesBehind_cons_of_some before matched, List.flatMap_cons,
          ih _ shorter _ _ rfl, Piece.text, List.cons_append, List.take_append_drop]

end ThemeCss
