import Mathlib
import ThemeCss.Sheet.Minified

/-! # What is left without comments

A comment reaches from an opening to the first end behind it. A text without a whole comment is what
the passes over comments stop at, and they leave such a text alone. An opening without an end is not
a comment, so a text may open one and still be left alone.
-/

namespace ThemeCss

/-- A text with the opening of a comment in it. -/
def OpensComment (text : List Char) : Prop := ['/', '*'] <:+: text

/-- A text with the end of a comment in it. -/
def ClosesComment (text : List Char) : Prop := ['*', '/'] <:+: text

instance (text : List Char) : Decidable (OpensComment text) :=
  inferInstanceAs (Decidable (['/', '*'] <:+: text))

instance (text : List Char) : Decidable (ClosesComment text) :=
  inferInstanceAs (Decidable (['*', '/'] <:+: text))

/-- A text with an opening and, behind its two characters, an end. -/
def HasComment (text : List Char) : Prop :=
  ∃ before inside after, text = before ++ '/' :: '*' :: (inside ++ '*' :: '/' :: after)

section Marks

variable {α : Type} {mark first second : List α} {c : α}

/-- A mark at the front reaches over no character that is not in it. -/
theorem prefix_append_cons_iff (absent : c ∉ mark) :
    mark <+: first ++ c :: second ↔ mark <+: first := by
  refine ⟨fun starts => ?_, fun starts => starts.trans (List.prefix_append _ _)⟩
  have whole : first ++ [c] <+: first ++ c :: second := ⟨second, by simp⟩
  rcases List.prefix_or_prefix_of_prefix starts whole with inside | further
  · rcases List.prefix_concat_iff.mp inside with rfl | inside
    · simp at absent
    · exact inside
  · exact absurd (further.subset (by simp)) absent

/-- A character that is not in a mark keeps what is on its two sides apart. -/
theorem infix_append_cons_iff (nonempty : mark ≠ []) (absent : c ∉ mark) :
    mark <:+: first ++ c :: second ↔ mark <:+: first ∨ mark <:+: second := by
  induction first with
  | nil =>
    have front : ¬ mark <+: [] ++ c :: second := by
      rwa [prefix_append_cons_iff absent, List.prefix_nil]
    have nothing : ¬ mark <:+: [] := by rwa [List.infix_nil]
    rw [List.nil_append] at front ⊢
    rw [List.infix_cons_iff, or_iff_right front, or_iff_right nothing]
  | cons d rest ih =>
    rw [List.cons_append, List.infix_cons_iff, ← List.cons_append, prefix_append_cons_iff absent,
      ih, List.infix_cons_iff, or_assoc]

end Marks

section Pairs

variable {a b c : Char} {first second text : List Char}

theorem pair_infix_cons_iff : [a, b] <:+: c :: text ↔
    (c = a ∧ text.head? = some b) ∨ [a, b] <:+: text := by
  rw [List.infix_cons_iff, List.cons_prefix_cons]
  refine or_congr (and_congr eq_comm ?_) Iff.rfl
  cases text with
  | nil => simp
  | cons d rest => simp [List.cons_prefix_cons, eq_comm]

/-- A third character keeps what is on its two sides apart. -/
theorem pair_infix_append_cons_iff (notFirst : c ≠ a) (notSecond : c ≠ b) :
    [a, b] <:+: first ++ c :: second ↔ [a, b] <:+: first ∨ [a, b] <:+: second :=
  infix_append_cons_iff (List.cons_ne_nil a [b]) (by simp [notFirst, notSecond])

/-- What is put behind a text without the second character makes no new pair. -/
theorem pair_infix_append_iff_of_not_mem (absent : b ∉ second) :
    [a, b] <:+: first ++ second ↔ [a, b] <:+: first := by
  induction first with
  | nil =>
    have absentPair : ¬ [a, b] <:+: second := fun inside => absent (inside.subset (by simp))
    simp [absentPair]
  | cons d rest ih =>
    rw [List.cons_append, pair_infix_cons_iff, pair_infix_cons_iff, ih]
    refine or_congr_left (and_congr_right fun _ => ?_)
    cases rest with
    | nil =>
      have other : second.head? ≠ some b := fun same => absent (List.mem_of_head? same)
      simp [other]
    | cons e rest => rfl

/-- What is put in front of a text without the first character makes no new pair. -/
theorem pair_infix_append_iff_of_first_not_mem (absent : a ∉ first) :
    [a, b] <:+: first ++ second ↔ [a, b] <:+: second := by
  induction first with
  | nil => rfl
  | cons c rest ih =>
    rw [List.mem_cons, not_or] at absent
    rw [List.cons_append, pair_infix_cons_iff, ih absent.2, or_iff_right]
    intro opened
    exact absent.1 opened.1.symm

end Pairs

section Comment

variable {c : Char} {text inside rest : List Char}

theorem commentLength?_cons (passed : Nat) (other : ¬ (c = '*' ∧ rest.head? = some '/')) :
    commentLength? passed (c :: rest) = commentLength? (passed + 1) rest := by
  rw [commentLength?.eq_def]
  split
  · next same =>
    obtain ⟨rfl, rfl⟩ := List.cons.inj same
    exact absurd ⟨rfl, rfl⟩ other
  · next same =>
    obtain ⟨rfl, rfl⟩ := List.cons.inj same
    rfl
  · contradiction

/-- No end is found exactly where none is. -/
theorem commentLength?_eq_none_iff (passed : Nat) :
    commentLength? passed text = none ↔ ¬ ClosesComment text := by
  induction text generalizing passed with
  | nil => simp [commentLength?, ClosesComment]
  | cons c rest ih =>
    rw [ClosesComment, pair_infix_cons_iff, ← ClosesComment]
    by_cases ends : c = '*' ∧ rest.head? = some '/'
    · obtain ⟨rfl, front⟩ := ends
      obtain ⟨after, rfl⟩ := List.head?_eq_some_iff.mp front
      simp [commentLength?]
    · rw [commentLength?_cons passed ends, ih, not_or]
      exact (and_iff_right ends).symm

/-- The end that is found is the first one. -/
theorem commentLength?_append (passed : Nat) (unclosed : ¬ ClosesComment (inside ++ ['*']))
    (rest : List Char) : commentLength? passed (inside ++ '*' :: '/' :: rest) =
      some (passed + inside.length + 2) := by
  induction inside generalizing passed with
  | nil => rfl
  | cons c more ih =>
    rw [List.cons_append, ClosesComment, pair_infix_cons_iff, not_or] at unclosed
    have other : ¬ (c = '*' ∧ (more ++ '*' :: '/' :: rest).head? = some '/') := by
      rintro ⟨first, second⟩
      apply unclosed.1
      cases more with
      | nil => simp at second
      | cons d more => exact ⟨first, second⟩
    rw [List.cons_append, commentLength?_cons passed other, ih (passed + 1) unclosed.2,
      List.length_cons]
    congr 1
    omega

theorem commentPattern_eq_none_iff : commentPattern (c :: rest) = none ↔
    ¬ (c = '/' ∧ ∃ more, rest = '*' :: more ∧ ClosesComment more) := by
  rw [commentPattern.eq_def]
  split
  · next more same =>
    obtain ⟨rfl, rfl⟩ := List.cons.inj same
    rw [commentLength?_eq_none_iff]
    simp
  · next other =>
    constructor
    · rintro - ⟨rfl, more, rfl, -⟩
      exact other more rfl
    · intro _
      rfl

end Comment

section Removal

variable {c : Char} {first inside rest text : List Char}

/-- What is left of a piece of a text when comments are taken out. -/
def Piece.outside : Piece → List Char
  | plain c => [c]
  | hit _ _ => []

theorem removeComments_eq (text : List Char) :
    removeComments text = (pieces commentPattern text).flatMap Piece.outside := rfl

/-- What stands in front of a text does not matter to its comments. -/
theorem flatMap_outside_piecesBehind (before : Option Char) (text : List Char) :
    (piecesBehind commentPattern before text).flatMap Piece.outside = removeComments text := by
  rw [removeComments_eq, pieces]
  cases text with
  | nil => rw [piecesBehind_nil, piecesBehind_nil]
  | cons c rest =>
    cases matched : commentPattern (c :: rest) with
    | none => rw [piecesBehind_cons_of_none _ matched, piecesBehind_cons_of_none _ matched]
    | some more =>
      rw [piecesBehind_cons_of_some _ matched, piecesBehind_cons_of_some _ matched]
      rfl

@[simp] theorem removeComments_nil : removeComments [] = [] := by
  rw [removeComments_eq, pieces, piecesBehind_nil, List.flatMap_nil]

theorem removeComments_cons_of_none (unmatched : commentPattern (c :: rest) = none) :
    removeComments (c :: rest) = c :: removeComments rest := by
  rw [removeComments_eq, pieces, piecesBehind_cons_of_none _ unmatched, List.flatMap_cons,
    flatMap_outside_piecesBehind]
  rfl

theorem removeComments_cons_of_some {more : Nat} (matched : commentPattern (c :: rest) = some more) :
    removeComments (c :: rest) = removeComments (rest.drop more) := by
  rw [removeComments_eq, pieces, piecesBehind_cons_of_some _ matched, List.flatMap_cons,
    flatMap_outside_piecesBehind]
  rfl

/-- A comment is taken out up to its first end. -/
theorem removeComments_comment (unclosed : ¬ ClosesComment (inside ++ ['*'])) (rest : List Char) :
    removeComments ('/' :: '*' :: (inside ++ '*' :: '/' :: rest)) = removeComments rest := by
  have matched : commentPattern ('/' :: '*' :: (inside ++ '*' :: '/' :: rest)) =
      some (1 + inside.length + 2) := commentLength?_append 1 unclosed rest
  rw [removeComments_cons_of_some matched]
  congr 1
  have split : '*' :: (inside ++ '*' :: '/' :: rest) = ('*' :: inside ++ ['*', '/']) ++ rest := by
    simp
  rw [split]
  exact List.drop_left' (by simp; omega)

/-- A text that opens no comment is kept in front of a character that opens none either. -/
theorem removeComments_append (unopened : ¬ OpensComment first) (notSlash : c ≠ '/')
    (notStar : c ≠ '*') (rest : List Char) :
    removeComments (first ++ c :: rest) = first ++ c :: removeComments rest := by
  induction first with
  | nil =>
    exact removeComments_cons_of_none (commentPattern_eq_none_iff.mpr fun opened =>
      notSlash opened.1)
  | cons d more ih =>
    rw [OpensComment, pair_infix_cons_iff, not_or] at unopened
    rw [List.cons_append, List.cons_append, removeComments_cons_of_none, ih unopened.2]
    rw [commentPattern_eq_none_iff]
    rintro ⟨slash, behind, same, -⟩
    apply unopened.1
    cases more with
    | nil => exact absurd (List.cons.inj same).1 notStar
    | cons e more => exact ⟨slash, congrArg List.head? same⟩

/-- The first character of a text can be the start of its comment or not. -/
theorem hasComment_cons_iff : HasComment (c :: rest) ↔
    commentPattern (c :: rest) ≠ none ∨ HasComment rest := by
  rw [ne_eq, commentPattern_eq_none_iff, not_not]
  constructor
  · rintro ⟨before, inside, after, same⟩
    cases before with
    | nil =>
      obtain ⟨rfl, rfl⟩ := List.cons.inj same
      exact .inl ⟨rfl, _, rfl, inside, after, by simp⟩
    | cons d before => exact .inr ⟨before, inside, after, (List.cons.inj same).2⟩
  · rintro (⟨rfl, more, rfl, inside, after, rfl⟩ | ⟨before, inside, after, rfl⟩)
    · exact ⟨[], inside, after, by simp⟩
    · exact ⟨c :: before, inside, after, rfl⟩

theorem removeComments_of_not_hasComment (bare : ¬ HasComment text) : removeComments text = text := by
  induction text with
  | nil => exact removeComments_nil
  | cons c rest ih =>
    rw [hasComment_cons_iff, not_or, not_not] at bare
    rw [removeComments_cons_of_none bare.1, ih bare.2]

theorem removeComments_sublist (text : List Char) : (removeComments text).Sublist text := by
  induction length : text.length using Nat.strongRecOn generalizing text with
  | ind bound ih =>
    subst length
    cases text with
    | nil => simp
    | cons c rest =>
      cases matched : commentPattern (c :: rest) with
      | none =>
        rw [removeComments_cons_of_none matched]
        exact (ih rest.length (by simp) rest rfl).cons_cons c
      | some more =>
        rw [removeComments_cons_of_some matched]
        have shorter : (rest.drop more).length < (c :: rest).length := by
          simp only [List.length_cons, List.length_drop]
          omega
        exact (ih _ shorter _ rfl).trans ((List.drop_sublist more rest).cons c)

theorem length_removeComments_lt (commented : HasComment text) :
    (removeComments text).length < text.length := by
  induction text with
  | nil =>
    obtain ⟨before, inside, after, same⟩ := commented
    simp at same
  | cons c rest ih =>
    cases matched : commentPattern (c :: rest) with
    | none =>
      have further : HasComment rest :=
        (hasComment_cons_iff.mp commented).resolve_left (not_not.mpr matched)
      rw [removeComments_cons_of_none matched, List.length_cons, List.length_cons]
      exact Nat.succ_lt_succ (ih further)
    | some more =>
      rw [removeComments_cons_of_some matched, List.length_cons]
      have shorter := (removeComments_sublist (rest.drop more)).length_le
      rw [List.length_drop] at shorter
      omega

end Removal

section Stripping

variable {text : List Char}

theorem not_hasComment_of_not_opensComment (unopened : ¬ OpensComment text) :
    ¬ HasComment text := by
  rintro ⟨before, inside, after, rfl⟩
  exact unopened ⟨before, inside ++ '*' :: '/' :: after, by simp⟩

theorem stripComments_of_hasComment (commented : HasComment text) :
    stripComments text = stripComments (removeComments text) := by
  rw [stripComments, if_pos (length_removeComments_lt commented)]

theorem stripComments_of_not_hasComment (bare : ¬ HasComment text) : stripComments text = text := by
  rw [stripComments]
  simp [removeComments_of_not_hasComment bare]

/-- The passes go on as long as there is a comment. -/
@[elab_as_elim]
theorem stripComments_induction {motive : List Char → Prop}
    (commented : ∀ text, HasComment text → motive (removeComments text) → motive text)
    (bare : ∀ text, ¬ HasComment text → motive text) (text : List Char) : motive text := by
  by_cases found : HasComment text
  · have shorter := length_removeComments_lt found
    exact commented text found (stripComments_induction commented bare (removeComments text))
  · exact bare text found
termination_by text.length

/-- The passes stop at a text without comments. -/
theorem not_hasComment_stripComments (text : List Char) : ¬ HasComment (stripComments text) := by
  induction text using stripComments_induction with
  | commented text found ih =>
    rw [stripComments_of_hasComment found]
    exact ih
  | bare text bare =>
    rw [stripComments_of_not_hasComment bare]
    exact bare

/-- One pass is enough if it leaves no comment. -/
theorem stripComments_eq_removeComments (bare : ¬ HasComment (removeComments text)) :
    stripComments text = removeComments text := by
  rw [stripComments]
  split
  · exact stripComments_of_not_hasComment bare
  · rfl

end Stripping

end ThemeCss
