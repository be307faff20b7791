import ThemeCss.Proofs.Minified.Comments

/-! # What keeps the openings of comments apart

A comment opens where a slash and a star meet. So openings can be looked for in the parts of a text
if each part ends with another character, or is shut in another way. Taking comments out can bring
new openings forth, but only where a slash stands in front of an opening that was there before.
-/

namespace ThemeCss

/-- A mark of slashes and stars that begins with a slash, as the opening of a comment. -/
class IsCommentMark (mark : List Char) : Prop where
  slash : mark.head? = some '/'
  letters : ∀ c ∈ mark, c = '/' ∨ c = '*'

instance : IsCommentMark ['/', '*'] := ⟨rfl, by simp⟩

instance : IsCommentMark ['/', '/', '*'] := ⟨rfl, by simp⟩

/-- A text with an opening right behind a slash. -/
def OpensBehindSlash (text : List Char) : Prop := ['/', '/', '*'] <:+: text

instance (text : List Char) : Decidable (OpensBehindSlash text) :=
  inferInstanceAs (Decidable (['/', '/', '*'] <:+: text))

theorem opening_infix_slashed : ['/', '*'] <:+: ['/', '/', '*'] :=
  (List.suffix_cons '/' ['/', '*']).isInfix

section CommentMarks

variable {mark : List Char} [IsCommentMark mark] {c : Char}

theorem IsCommentMark.nonempty : mark ≠ [] := by
  rintro rfl
  have slash : ([] : List Char).head? = some '/' := IsCommentMark.slash
  contradiction

theorem IsCommentMark.not_mem (notSlash : c ≠ '/') (notStar : c ≠ '*') : c ∉ mark := by
  intro member
  rcases IsCommentMark.letters c member with slash | star
  · exact notSlash slash
  · exact notStar star

/-- Behind a text other characters bring no mark forth. -/
theorem IsCommentMark.not_infix_append {first second : List Char} (unmarked : ¬ mark <:+: first)
    (noSlash : '/' ∉ second) (noStar : '*' ∉ second) : ¬ mark <:+: first ++ second := by
  cases second with
  | nil => rwa [List.append_nil]
  | cons c rest =>
    rw [List.mem_cons, not_or] at noSlash noStar
    rw [infix_append_cons_iff nonempty (not_mem (Ne.symm noSlash.1) (Ne.symm noStar.1)), not_or]
    refine ⟨unmarked, fun inside => ?_⟩
    exact noSlash.2 (inside.subset (List.mem_of_head? slash))

theorem IsCommentMark.eq_slash {rest : List Char} (starts : mark <+: c :: rest) : c = '/' := by
  have slash : mark.head? = some '/' := IsCommentMark.slash
  obtain ⟨tail, rfl⟩ := List.head?_eq_some_iff.mp slash
  exact (List.cons_prefix_cons.mp starts).1.symm

end CommentMarks

/-- The mark is not in the text, and does not begin in it whatever is put behind it. -/
def IsShut (mark text : List Char) : Prop := ∀ rest, ¬ mark <:+: rest → ¬ mark <:+: text ++ rest

namespace IsShut

variable {mark first second text : List Char} {c : Char}

theorem nil : IsShut mark [] := fun _ unmarked => unmarked

theorem append (left : IsShut mark first) (right : IsShut mark second) :
    IsShut mark (first ++ second) := by
  intro rest unmarked
  rw [List.append_assoc]
  exact left _ (right rest unmarked)

theorem flatMap {α : Type} {items : List α} {written : α → List Char}
    (each : ∀ item ∈ items, IsShut mark (written item)) : IsShut mark (items.flatMap written) := by
  induction items with
  | nil => exact nil
  | cons item rest ih =>
    obtain ⟨single, others⟩ := List.forall_mem_cons.mp each
    exact single.append (ih others)

variable [IsCommentMark mark]

theorem unmarked (shut : IsShut mark text) : ¬ mark <:+: text := by
  have alone := shut [] (by rw [List.infix_nil]; exact IsCommentMark.nonempty)
  rwa [List.append_nil] at alone

theorem of_not_mem (absent : '/' ∉ text) : IsShut mark text := by
  intro rest unmarked
  induction text with
  | nil => exact unmarked
  | cons c more ih =>
    rw [List.mem_cons, not_or] at absent
    rw [List.cons_append, List.infix_cons_iff, not_or]
    exact ⟨fun starts => absent.1 (IsCommentMark.eq_slash starts).symm, ih absent.2⟩

/-- A character of no mark shuts a text. -/
theorem concat (unmarked : ¬ mark <:+: text) (notSlash : c ≠ '/') (notStar : c ≠ '*') :
    IsShut mark (text ++ [c]) := by
  intro rest behind
  rw [List.append_assoc, List.singleton_append, infix_append_cons_iff IsCommentMark.nonempty
    (IsCommentMark.not_mem notSlash notStar), not_or]
  exact ⟨unmarked, behind⟩

end IsShut

theorem not_opensComment_of_not_mem {text : List Char} (absent : '/' ∉ text) :
    ¬ OpensComment text :=
  IsShut.unmarked (.of_not_mem absent)

section Removal

variable {c : Char} {front inside text : List Char}

/-- The first end of a comment is found. -/
theorem ClosesComment.exists_first (closed : ClosesComment text) :
    ∃ body rest, text = body ++ '*' :: '/' :: rest ∧ ¬ ClosesComment (body ++ ['*']) := by
  induction text with
  | nil => simp [ClosesComment] at closed
  | cons c more ih =>
    by_cases ends : c = '*' ∧ more.head? = some '/'
    · obtain ⟨rfl, slash⟩ := ends
      obtain ⟨rest, rfl⟩ := List.head?_eq_some_iff.mp slash
      exact ⟨[], rest, rfl, by decide⟩
    · rw [ClosesComment, pair_infix_cons_iff, or_iff_right ends] at closed
      obtain ⟨body, rest, rfl, unclosed⟩ := ih closed
      refine ⟨c :: body, rest, rfl, ?_⟩
      rw [ClosesComment, List.cons_append, pair_infix_cons_iff, not_or]
      refine ⟨fun opened => ends ⟨opened.1, ?_⟩, unclosed⟩
      cases body with
      | nil => exact absurd opened.2 (by simp)
      | cons d body => exact opened.2

/-- A whole comment that has its end nowhere but at its end. -/
def IsComment (text : List Char) : Prop :=
  ∃ inside, text = '/' :: '*' :: (inside ++ ['*', '/']) ∧ ¬ ClosesComment ('*' :: (inside ++ ['*']))

/-- Taking comments out leaves `bare` of a text that stands in front of a comment, behind which it
begins anew. What is left opens no comment, and begins with a star only if the text does so, or is
what is left behind a comment. -/
structure IsCleared (comment : List Char) (c : Char) (front bare : List Char) : Prop where
  unopened : ¬ OpensComment bare
  starred : bare.head? = some '*' → front.head? = some '*' ∨ ['/', '*'] <+: front
  removed : ∀ rest, removeComments (front ++ c :: (comment ++ rest)) = bare ++ removeComments rest

namespace IsCleared

variable {comment bare more : List Char} {d : Char}

section Separator

variable (notSlash : c ≠ '/') (notStar : c ≠ '*')

include notSlash notStar

theorem nil (whole : IsComment comment) : IsCleared comment c [] [c] where
  unopened := by simp [OpensComment, pair_infix_cons_iff]
  starred star := absurd (Option.some.inj star) notStar
  removed rest := by
    obtain ⟨inside, rfl, unclosed⟩ := whole
    have own : ¬ ClosesComment (inside ++ ['*']) := fun closed => unclosed (List.infix_cons closed)
    have kept (text : List Char) : removeComments (c :: text) = c :: removeComments text :=
      removeComments_cons_of_none (commentPattern_eq_none_iff.mpr fun opened => notSlash opened.1)
    rw [List.nil_append, kept]
    simpa using removeComments_comment own rest

/-- A comment that is open when the other one begins ends with it. -/
theorem joined (whole : IsComment comment) (unclosedFront : ¬ ClosesComment more) :
    IsCleared comment c ('/' :: '*' :: more) [] where
  unopened := by simp [OpensComment]
  starred _ := .inr ⟨more, rfl⟩
  removed rest := by
    obtain ⟨inside, rfl, unclosed⟩ := whole
    have same : (more ++ c :: '/' :: '*' :: inside) ++ ['*'] =
        more ++ c :: '/' :: '*' :: (inside ++ ['*']) := by simp
    have unclosedWhole : ¬ ClosesComment ((more ++ c :: '/' :: '*' :: inside) ++ ['*']) := by
      rw [ClosesComment, same, pair_infix_append_cons_iff notStar notSlash, pair_infix_cons_iff,
        not_or, not_or]
      exact ⟨unclosedFront, by simp, unclosed⟩
    simpa using removeComments_comment unclosedWhole rest

omit notSlash

theorem cons (cleared : IsCleared comment c more bare) (unslashed : ¬ OpensBehindSlash (d :: more))
    (unopened : ¬ (d = '/' ∧ more.head? = some '*')) :
    IsCleared comment c (d :: more) (d :: bare) where
  unopened := by
    rw [OpensComment, pair_infix_cons_iff, not_or]
    refine ⟨?_, cleared.unopened⟩
    rintro ⟨rfl, star⟩
    rcases cleared.starred star with same | opening
    · exact unopened ⟨rfl, same⟩
    · exact unslashed (List.cons_prefix_cons.mpr ⟨rfl, opening⟩).isInfix
  starred star := .inl star
  removed rest := by
    rw [List.cons_append, removeComments_cons_of_none, cleared.removed, List.cons_append]
    rw [commentPattern_eq_none_iff]
    rintro ⟨slash, behind, same, -⟩
    refine unopened ⟨slash, ?_⟩
    cases more with
    | nil => exact absurd (List.cons.inj same).1 notStar
    | cons e more => exact congrArg List.head? same

end Separator

theorem behind (cleared : IsCleared comment c more bare)
    (unclosed : ¬ ClosesComment (inside ++ ['*'])) :
    IsCleared comment c ('/' :: '*' :: (inside ++ '*' :: '/' :: more)) bare where
  unopened := cleared.unopened
  starred _ := .inr ⟨_, rfl⟩
  removed rest := by
    rw [← cleared.removed]
    simpa using removeComments_comment unclosed (more ++ c :: (comment ++ rest))

end IsCleared

/-- A comment ends whatever comment is open in front of it, so what is in front of it is treated on
its own. No opening comes forth in what is left, unless one stood right behind a slash. -/
theorem exists_isCleared {comment : List Char} (whole : IsComment comment) (notSlash : c ≠ '/')
    (notStar : c ≠ '*') (unslashed : ¬ OpensBehindSlash front) :
    ∃ bare, IsCleared comment c front bare := by
  induction length : front.length using Nat.strongRecOn generalizing front with
  | ind bound ih =>
    subst length
    cases front with
    | nil => exact ⟨_, .nil notSlash notStar whole⟩
    | cons d more =>
      by_cases opened : d = '/' ∧ more.head? = some '*'
      · obtain ⟨rfl, star⟩ := opened
        obtain ⟨more, rfl⟩ := List.head?_eq_some_iff.mp star
        by_cases closed : ClosesComment more
        · obtain ⟨body, tail, rfl, first⟩ := closed.exists_first
          have further : ¬ OpensBehindSlash tail := fun slashed =>
            unslashed (slashed.trans ⟨'/' :: '*' :: (body ++ ['*', '/']), [], by simp⟩)
          obtain ⟨bare, cleared⟩ := ih tail.length (by simp; omega) further rfl
          exact ⟨bare, cleared.behind first⟩
        · exact ⟨[], .joined notSlash notStar whole closed⟩
      · have further : ¬ OpensBehindSlash more := fun slashed =>
          unslashed (List.infix_cons slashed)
        obtain ⟨bare, cleared⟩ := ih more.length (by simp) further rfl
        exact ⟨d :: bare, cleared.cons notStar unslashed opened⟩

end Removal

section Stripping

variable {c : Char} {first text : List Char}

theorem stripComments_removeComments (text : List Char) :
    stripComments (removeComments text) = stripComments text := by
  by_cases commented : HasComment text
  · exact (stripComments_of_hasComment commented).symm
  · rw [removeComments_of_not_hasComment commented]

/-- All passes keep a text that opens no comment in front of a character that opens none either. -/
theorem stripComments_append (unopened : ¬ OpensComment first) (notSlash : c ≠ '/')
    (notStar : c ≠ '*') (rest : List Char) :
    stripComments (first ++ c :: rest) = first ++ c :: stripComments rest := by
  have removed := removeComments_append unopened notSlash notStar
  -- The induction is on the passes over the rest: the first part is the same in front of each.
  induction rest using stripComments_induction with
  | commented rest found ih =>
    rw [← stripComments_removeComments, removed, ih, stripComments_removeComments]
  | bare rest bare =>
    have whole : ¬ HasComment (first ++ c :: rest) := by
      intro commented
      have shorter := length_removeComments_lt commented
      rw [removed, removeComments_of_not_hasComment bare] at shorter
      exact lt_irrefl _ shorter
    rw [stripComments_of_not_hasComment whole, stripComments_of_not_hasComment bare]

/-- Behind a comment, and whatever stands in front of that, a text that opens no comment is kept in
front of a character that opens none either. -/
theorem IsCleared.stripComments_eq {comment front bare : List Char}
    (cleared : IsCleared comment '\n' front bare) (unopened : ¬ OpensComment first)
    (notSlash : c ≠ '/') (notStar : c ≠ '*') (rest : List Char) :
    stripComments (front ++ '\n' :: (comment ++ '\n' :: (first ++ c :: rest))) =
      bare ++ '\n' :: (first ++ c :: stripComments rest) := by
  have line : IsShut ['/', '*'] (bare ++ ['\n']) :=
    .concat cleared.unopened (by decide) (by decide)
  have own : ¬ OpensComment ('\n' :: first) := by
    rw [OpensComment, pair_infix_cons_iff, not_or]
    exact ⟨by simp, unopened⟩
  have whole : ¬ OpensComment (bare ++ '\n' :: first) := by
    have marked := line first unopened
    rwa [List.append_assoc] at marked
  have split : '\n' :: (first ++ c :: rest) = '\n' :: first ++ c :: rest := rfl
  rw [← stripComments_removeComments, cleared.removed, split,
    removeComments_append own notSlash notStar, ← List.append_assoc,
    stripComments_append whole notSlash notStar, stripComments_removeComments]
  simp

end Stripping

end ThemeCss
