import ThemeCss.Proofs.Minified.Shut
import ThemeCss.Proofs.Minified.Squeezed

/-! # Blanks put in or exchanged

Where blanks stand in a text, how many and which ones does not matter to its minified form, and
around punctuation it does not matter whether there are any. The passes over comments cannot tell one
gap between two texts from another, as no comment begins or ends in a gap: either the gap goes away
with a comment around it, or it stays between what is left of the two texts. This holds of every pass
over the comments, whatever the passes before it have put together, and so of all of them.
-/

namespace ThemeCss

/-- A text in which no comment begins or ends, whatever stands next to it. -/
structure IsGap (gap : List Char) : Prop where
  nonempty : gap ≠ []
  noSlash : '/' ∉ gap
  noStar : '*' ∉ gap

namespace IsGap

variable {gap first second : List Char}

theorem of_isBlankText (nonempty : gap ≠ []) (blank : IsBlankText gap) : IsGap gap where
  nonempty := nonempty
  noSlash := blank.not_mem rfl
  noStar := blank.not_mem rfl

/-- Punctuation makes a gap, also among blanks. -/
theorem of_isPunctuation {mark : Char} (punctuation : isPunctuation mark = true)
    {before behind : List Char} (left : IsBlankText before) (right : IsBlankText behind) :
    IsGap (before ++ mark :: behind) := by
  have other {c : Char} (solid : isBlank c = false) (unmarked : isPunctuation c = false) :
      c ∉ before ++ mark :: behind := by
    rw [List.mem_append, List.mem_cons, not_or, not_or]
    refine ⟨left.not_mem solid, ?_, right.not_mem solid⟩
    rintro rfl
    rw [unmarked] at punctuation
    contradiction
  constructor
  · simp
  · exact other rfl rfl
  · exact other rfl rfl

theorem exists_eq_cons (apart : IsGap gap) :
    ∃ c rest, gap = c :: rest ∧ c ≠ '/' ∧ c ≠ '*' ∧ '*' ∉ rest := by
  obtain ⟨nonempty, noSlash, noStar⟩ := apart
  obtain ⟨c, rest, rfl⟩ := List.exists_cons_of_ne_nil nonempty
  rw [List.mem_cons, not_or] at noSlash noStar
  exact ⟨c, rest, rfl, Ne.symm noSlash.1, Ne.symm noStar.1, noStar.2⟩

/-- An end of a comment is on one side of a gap. -/
theorem closesComment_iff (apart : IsGap gap) :
    ClosesComment (first ++ (gap ++ second)) ↔ ClosesComment first ∨ ClosesComment second := by
  obtain ⟨c, rest, rfl, notSlash, notStar, noStar⟩ := apart.exists_eq_cons
  rw [List.cons_append, ClosesComment, pair_infix_append_cons_iff notStar notSlash,
    pair_infix_append_iff_of_first_not_mem noStar]
  exact Iff.rfl

/-- In front of a gap a comment begins whatever the gap: its end is in front of the gap or behind
it. -/
theorem commentPattern_eq_none_iff (apart : IsGap gap) {c : Char} :
    commentPattern (c :: (first ++ (gap ++ second))) = none ↔
      ¬ (c = '/' ∧ ∃ inside, first = '*' :: inside ∧
        (ClosesComment inside ∨ ClosesComment second)) := by
  rw [ThemeCss.commentPattern_eq_none_iff, not_iff_not]
  refine and_congr_right fun _ => ?_
  constructor
  · rintro ⟨more, whole, closed⟩
    cases first with
    | nil =>
      obtain ⟨d, rest, rfl, -, notStar, -⟩ := apart.exists_eq_cons
      exact absurd (List.cons.inj whole).1 notStar
    | cons d inside =>
      obtain ⟨rfl, rfl⟩ := List.cons.inj whole
      exact ⟨inside, rfl, apart.closesComment_iff.mp closed⟩
  · rintro ⟨inside, rfl, closed⟩
    exact ⟨_, rfl, apart.closesComment_iff.mpr closed⟩

end IsGap

theorem removeComments_append_of_not_mem {first : List Char} (absent : '/' ∉ first)
    (second : List Char) : removeComments (first ++ second) = first ++ removeComments second := by
  induction first with
  | nil => rfl
  | cons c rest ih =>
    rw [List.mem_cons, not_or] at absent
    rw [List.cons_append, removeComments_cons_of_none, ih absent.2, List.cons_append]
    exact commentPattern_eq_none_iff.mpr fun opened => absent.1 opened.1.symm

/-- A pass treats all gaps between two texts alike: they stay, between what is left of the texts, or
they go away. -/
inductive TreatsGapsAlike (pass : List Char → List Char) (first second : List Char) : Prop where
  | kept (left right : List Char)
      (same : ∀ gap, IsGap gap → pass (first ++ (gap ++ second)) = left ++ (gap ++ right))
  | dropped (rest : List Char)
      (same : ∀ gap, IsGap gap → pass (first ++ (gap ++ second)) = rest)

namespace TreatsGapsAlike

variable {first second more inside : List Char} {c : Char}

/-- A character at which no comment begins stays in front. -/
theorem cons (alike : TreatsGapsAlike removeComments first second)
    (unmatched : ∀ gap, IsGap gap → commentPattern (c :: (first ++ (gap ++ second))) = none) :
    TreatsGapsAlike removeComments (c :: first) second := by
  have front (gap : List Char) (apart : IsGap gap) :
      removeComments (c :: first ++ (gap ++ second)) =
        c :: removeComments (first ++ (gap ++ second)) :=
    removeComments_cons_of_none (unmatched gap apart)
  cases alike with
  | kept left right same =>
    refine .kept (c :: left) right fun gap apart => ?_
    rw [front gap apart, same gap apart, List.cons_append]
  | dropped rest same =>
    refine .dropped (c :: rest) fun gap apart => ?_
    rw [front gap apart, same gap apart]

/-- A comment that ends in front of a gap is taken out whatever the gap. -/
theorem behind (alike : TreatsGapsAlike removeComments more second)
    (unclosed : ¬ ClosesComment (inside ++ ['*'])) :
    TreatsGapsAlike removeComments ('/' :: '*' :: (inside ++ '*' :: '/' :: more)) second := by
  have shorter (gap : List Char) :
      removeComments ('/' :: '*' :: (inside ++ '*' :: '/' :: more) ++ (gap ++ second)) =
        removeComments (more ++ (gap ++ second)) := by
    simpa using removeComments_comment unclosed (more ++ (gap ++ second))
  cases alike with
  | kept left right same => exact .kept left right fun gap apart => by rw [shorter, same gap apart]
  | dropped rest same => exact .dropped rest fun gap apart => by rw [shorter, same gap apart]

/-- A comment that reaches over a gap takes it away. -/
theorem across (unclosed : ¬ ClosesComment inside) (closed : ClosesComment second) :
    TreatsGapsAlike removeComments ('/' :: '*' :: inside) second := by
  obtain ⟨body, rest, rfl, first⟩ := closed.exists_first
  refine .dropped (removeComments rest) fun gap apart => ?_
  have unclosedAcross : ¬ ClosesComment (inside ++ (gap ++ (body ++ ['*']))) := by
    rw [apart.closesComment_iff, not_or]
    exact ⟨unclosed, first⟩
  have whole : ¬ ClosesComment ((inside ++ (gap ++ body)) ++ ['*']) := by simpa using unclosedAcross
  simpa using removeComments_comment whole rest

end TreatsGapsAlike

/-- One pass over the comments cannot tell gaps from each other. -/
theorem treatsGapsAlike_removeComments (first second : List Char) :
    TreatsGapsAlike removeComments first second := by
  -- A comment in front may reach far into the first text, so the induction is on its length.
  induction length : first.length using Nat.strongRecOn generalizing first with
  | ind bound ih =>
    subst length
    cases first with
    | nil =>
      exact .kept [] (removeComments second) fun gap apart =>
        removeComments_append_of_not_mem apart.noSlash second
    | cons c more =>
      by_cases begins : c = '/' ∧ ∃ inside, more = '*' :: inside ∧
          (ClosesComment inside ∨ ClosesComment second)
      · obtain ⟨rfl, inside, rfl, ends⟩ := begins
        by_cases closed : ClosesComment inside
        · obtain ⟨body, rest, rfl, unclosed⟩ := closed.exists_first
          have shorter : rest.length < ('/' :: '*' :: (body ++ '*' :: '/' :: rest)).length := by
            simp only [List.length_cons, List.length_append]
            omega
          exact (ih rest.length shorter rest rfl).behind unclosed
        · exact .across closed (ends.resolve_left closed)
      · apply (ih more.length (Nat.lt_succ_self _) more rfl).cons
        intro gap apart
        exact apart.commentPattern_eq_none_iff.mpr begins

/-- All passes together cannot tell gaps from each other either. -/
theorem treatsGapsAlike_stripComments (first second : List Char) :
    TreatsGapsAlike stripComments first second := by
  -- A pass that leaves a gap and finds a comment leaves less of the two texts around the gap.
  induction length : first.length + second.length using Nat.strongRecOn
    generalizing first second with
  | ind bound ih =>
    subst length
    cases treatsGapsAlike_removeComments first second with
    | dropped rest removed =>
      refine .dropped (stripComments rest) fun gap apart => ?_
      rw [← stripComments_removeComments, removed gap apart]
    | kept left right removed =>
      by_cases shorter : left.length + right.length < first.length + second.length
      · cases ih _ shorter left right rfl with
        | kept start stop further =>
          refine .kept start stop fun gap apart => ?_
          rw [← stripComments_removeComments, removed gap apart, further gap apart]
        | dropped rest further =>
          refine .dropped rest fun gap apart => ?_
          rw [← stripComments_removeComments, removed gap apart, further gap apart]
      · refine .kept first second fun gap apart => ?_
        apply stripComments_of_not_hasComment
        intro commented
        have fewer := length_removeComments_lt commented
        rw [removed gap apart] at fewer
        simp only [List.length_append] at fewer
        omega

/-- Gaps that are the same to the passes behind the comments are the same to all passes. -/
theorem minifyText_congr_gap {gap other : List Char} (apart : IsGap gap) (further : IsGap other)
    (same : ∀ left right, squeezed (left ++ (gap ++ right)) = squeezed (left ++ (other ++ right)))
    (first second : List Char) :
    minifyText (first ++ (gap ++ second)) = minifyText (first ++ (other ++ second)) := by
  rw [minifyText_eq_squeezed, minifyText_eq_squeezed]
  cases treatsGapsAlike_stripComments first second with
  | kept left right stripped => rw [stripped gap apart, stripped other further, same]
  | dropped rest stripped => rw [stripped gap apart, stripped other further]

section Settled

variable {gap other : List Char}

theorem settle_blank_append (blank : IsBlankText gap) (room : Bool) (second : List Char) :
    settle room room (gap ++ second) = settle room room second := by
  induction gap with
  | nil => rfl
  | cons c rest ih =>
    obtain ⟨first, others⟩ := IsBlankText.cons_iff.mp blank
    rw [List.cons_append, settle_cons_of_isBlank room room _ first, ih others]

/-- Blanks make a space due, whichever they are. -/
theorem settle_gap (nonempty : gap ≠ []) (blank : IsBlankText gap) (room due : Bool)
    (second : List Char) : settle room due (gap ++ second) = settle room room second := by
  obtain ⟨c, rest, rfl⟩ := List.exists_cons_of_ne_nil nonempty
  obtain ⟨first, others⟩ := IsBlankText.cons_iff.mp blank
  rw [List.cons_append, settle_cons_of_isBlank room due _ first, settle_blank_append others]

theorem settle_congr (same : ∀ room due, settle room due gap = settle room due other)
    (first : List Char) (room due : Bool) :
    settle room due (first ++ gap) = settle room due (first ++ other) := by
  induction first generalizing room due with
  | nil => exact same room due
  | cons c rest ih => simp only [List.cons_append, settle, ih]

theorem squeezed_respaced (nonempty : gap ≠ []) (blank : IsBlankText gap) (further : other ≠ [])
    (spaces : IsBlankText other) (first second : List Char) :
    squeezed (first ++ (gap ++ second)) = squeezed (first ++ (other ++ second)) := by
  have same (room due : Bool) :
      settle room due (gap ++ second) = settle room due (other ++ second) := by
    rw [settle_gap nonempty blank, settle_gap further spaces]
  rw [squeezed, squeezed, settled, settled, settle_congr same]

/-- Blanks around punctuation go away. -/
theorem squeezed_padded {mark : Char} (punctuation : isPunctuation mark = true)
    (blank : IsBlankText gap) (spaces : IsBlankText other) (first second : List Char) :
    squeezed (first ++ ((gap ++ mark :: other) ++ second)) =
      squeezed (first ++ ([mark] ++ second)) := by
  have whole : first ++ ((gap ++ mark :: other) ++ second) =
      (first ++ gap) ++ mark :: (other ++ second) := by simp
  have left : settled (first ++ gap) = settled first := settle_append_blank false false first blank
  have right : settled (other ++ second) = settled second := settle_blank_append spaces false second
  rw [squeezed, squeezed, whole, settled_append_cons _ _ punctuation, left, right,
    List.singleton_append, settled_append_cons _ _ punctuation]

end Settled

/-- Blanks can be exchanged for others anywhere, and put in or taken out next to punctuation: the
minified text stays the same. This holds inside comments, around them and between the parts of what
becomes a comment only when others are taken out. -/
theorem minified_respaced (first second : String) :
    (∀ gap other : String, gap ≠ "" → other ≠ "" → IsBlankText gap.toList →
        IsBlankText other.toList →
        minified (first ++ gap ++ second) = minified (first ++ other ++ second)) ∧
      ∀ (before behind : String) (mark : Char), IsBlankText before.toList →
        IsBlankText behind.toList → isPunctuation mark = true →
        minified (first ++ before ++ String.singleton mark ++ behind ++ second) =
          minified (first ++ String.singleton mark ++ second) := by
  constructor
  · intro gap other nonempty further blank spaces
    have left : gap.toList ≠ [] := fun empty => nonempty (String.toList_eq_nil_iff.mp empty)
    have right : other.toList ≠ [] := fun empty => further (String.toList_eq_nil_iff.mp empty)
    have same := minifyText_congr_gap (.of_isBlankText left blank) (.of_isBlankText right spaces)
      (squeezed_respaced left blank right spaces) first.toList second.toList
    rw [minified, minified, String.ofList_inj]
    simpa using same
  · intro before behind mark blank spaces punctuation
    have alone : IsGap [mark] := .of_isPunctuation punctuation .nil .nil
    have same := minifyText_congr_gap (.of_isPunctuation punctuation blank spaces) alone
      (squeezed_padded punctuation blank spaces) first.toList second.toList
    rw [minified, minified, String.ofList_inj]
    simpa using same

/-- Blanks inside a comment that comes forth when another one is taken out, and around a colon behind
it. -/
theorem minified_respaced_residue :
    (" " ≠ "" ∧ "\n\t" ≠ "" ∧ IsBlankText " ".toList ∧ IsBlankText "\n\t".toList ∧
        isPunctuation ':' = true) ∧
      minified ("a//**/* x" ++ " " ++ "*/b c") = minified ("a//**/* x" ++ "\n\t" ++ "*/b c") ∧
      minified ("a//**/* x */b" ++ " " ++ String.singleton ':' ++ "\n\t" ++ "c") =
        minified ("a//**/* x */b" ++ String.singleton ':' ++ "c") := by
  have space : IsBlankText " ".toList := by simp
  have newline : IsBlankText "\n\t".toList := by simp [isBlank]
  refine ⟨⟨by decide, by decide, space, newline, rfl⟩, ?_, ?_⟩
  · exact (minified_respaced _ _).1 " " "\n\t" (by decide) (by decide) space newline
  · exact (minified_respaced _ _).2 " " "\n\t" ':' space newline rfl

example : minified "a//**/* x\n\t*/b \t c :\nd" = "ab c:d" := by decide +kernel

end ThemeCss
