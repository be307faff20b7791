import ThemeCss.Proofs.Text.Characters
import ThemeCss.Sheet.Minified

/-! # Blanks in one pass

The passes over blanks read a text from its end: one drops the blanks around punctuation, one turns
what is left into single spaces, and the ends are trimmed last. `settle` does all of it at once from
the front. A blank leaves a space only where the next character comes and neither side is
punctuation, so the state of the pass is whether there is room for a space behind the last character
and whether one is due. Semicolons in front of braces can be dropped before or after.
-/

namespace ThemeCss

/-- Writes a text without needless blanks: `room` tells that a blank here may count, `due` that one
has been read. -/
def settle (room due : Bool) : List Char → List Char
  | [] => []
  | c :: rest =>
    if isBlank c then settle room room rest
    else if due && !isPunctuation c then ' ' :: c :: settle (!isPunctuation c) false rest
    else c :: settle (!isPunctuation c) false rest

/-- A whole text written without needless blanks. -/
def settled (text : List Char) : List Char := settle false false text

theorem isPunctuation_iff {c : Char} : isPunctuation c = true ↔
    c = '{' ∨ c = '}' ∨ c = ':' ∨ c = ';' ∨ c = ',' := by
  simp [isPunctuation, or_assoc]

theorem not_isBlank_of_isPunctuation {c : Char} (mark : isPunctuation c = true) :
    isBlank c = false := by
  rcases isPunctuation_iff.mp mark with rfl | rfl | rfl | rfl | rfl <;> rfl

theorem not_isPunctuation_of_isBlank {c : Char} (blank : isBlank c = true) :
    isPunctuation c = false := by
  by_contra mark
  rw [not_isBlank_of_isPunctuation (by simpa using mark)] at blank
  contradiction

section Settle

variable {c : Char}

@[simp] theorem settle_nil (room due : Bool) : settle room due [] = [] := rfl

theorem settle_cons_of_isBlank (room due : Bool) (rest : List Char) (blank : isBlank c = true) :
    settle room due (c :: rest) = settle room room rest := by
  simp only [settle, blank, ↓reduceIte]

theorem settle_cons_of_isPunctuation (room due : Bool) (rest : List Char)
    (mark : isPunctuation c = true) : settle room due (c :: rest) = c :: settled rest := by
  simp only [settle, not_isBlank_of_isPunctuation mark, mark, Bool.not_true, Bool.and_false,
    Bool.false_eq_true, ↓reduceIte, settled]

theorem settle_cons_of_due (room : Bool) (rest : List Char) (solid : isBlank c = false)
    (unmarked : isPunctuation c = false) :
    settle room true (c :: rest) = ' ' :: c :: settle true false rest := by
  simp only [settle, solid, unmarked, Bool.not_false, Bool.and_true, Bool.false_eq_true,
    ↓reduceIte]

theorem settle_cons_of_not_due (room : Bool) (rest : List Char) (solid : isBlank c = false) :
    settle room false (c :: rest) = c :: settle (!isPunctuation c) false rest := by
  simp only [settle, solid, Bool.false_and, Bool.false_eq_true, ↓reduceIte]

end Settle

section Passes

variable {b c : Char}

theorem tighten_cons_of_isPunctuation (text : List Char) (mark : isPunctuation c = true) :
    tighten (c :: text) = c :: (tighten text).dropWhile isBlank := by
  rw [tighten, List.foldr_cons, ← tighten, tightenStep.eq_def, if_pos mark]

theorem tighten_cons_of_not_isBlank (text : List Char) (solid : isBlank c = false)
    (unmarked : isPunctuation c = false) : tighten (c :: text) = c :: tighten text := by
  rw [tighten, List.foldr_cons, ← tighten, tightenStep.eq_def, if_neg (by simp [unmarked]),
    if_neg (by simp [solid])]

/-- A blank goes away in front of punctuation and stays otherwise. -/
theorem tighten_cons_of_isBlank (text : List Char) (blank : isBlank c = true) :
    tighten (c :: text) = if (tighten text).head?.any isPunctuation then tighten text
      else c :: tighten text := by
  rw [tighten, List.foldr_cons, ← tighten, tightenStep.eq_def,
    if_neg (by simp [not_isPunctuation_of_isBlank blank]), if_pos blank]
  cases tighten text with
  | nil => rfl
  | cons d rest => rfl

theorem collapse_cons_of_not_isBlank (text : List Char) (solid : isBlank c = false) :
    collapse (c :: text) = c :: collapse text := by
  rw [collapse, List.foldr_cons, ← collapse, collapseStep.eq_def, if_neg (by simp [solid])]

/-- Blanks at the front become one space. -/
theorem collapse_cons_of_isBlank (text : List Char) (blank : isBlank c = true) :
    collapse (c :: text) = ' ' :: collapse (text.dropWhile isBlank) := by
  induction text generalizing c with
  | nil =>
    rw [collapse, List.foldr_cons, ← collapse, collapseStep.eq_def, if_pos blank]
    rfl
  | cons d rest ih =>
    rw [collapse, List.foldr_cons, ← collapse, collapseStep.eq_def, if_pos blank]
    cases again : isBlank d with
    | true =>
      rw [ih again, List.dropWhile_cons_of_pos again]
      rfl
    | false =>
      rw [collapse_cons_of_not_isBlank rest again, List.dropWhile_cons_of_neg (by simp [again]),
        collapse_cons_of_not_isBlank rest again]
      split
      · next same =>
        obtain ⟨rfl, -⟩ := List.cons.inj same
        simp at again
      · rfl

/-- Blanks at the front can be dropped before or after they become a space. -/
theorem dropWhile_collapse (text : List Char) :
    (collapse text).dropWhile isBlank = collapse (text.dropWhile isBlank) := by
  induction text with
  | nil => rfl
  | cons c rest ih =>
    cases blank : isBlank c with
    | false => simp [collapse_cons_of_not_isBlank, blank]
    | true =>
      rw [collapse_cons_of_isBlank rest blank, List.dropWhile_cons_of_pos blank, ← ih,
        List.dropWhile_cons_of_pos isBlank_space, List.dropWhile_idempotent]

/-- Of two blanks the first does not matter. -/
theorem collapse_tighten_cons_cons (text : List Char) (first : isBlank b = true)
    (second : isBlank c = true) :
    collapse (tighten (b :: c :: text)) = collapse (tighten (c :: text)) := by
  rw [tighten_cons_of_isBlank (c :: text) first, tighten_cons_of_isBlank text second]
  cases before : (tighten text).head?.any isPunctuation with
  | true => simp [before]
  | false =>
    simp only [Bool.false_eq_true, ↓reduceIte, List.head?_cons, Option.any_some,
      not_isPunctuation_of_isBlank second]
    rw [collapse_cons_of_isBlank _ first, collapse_cons_of_isBlank _ second,
      List.dropWhile_cons_of_pos second]

/-- The passes over blanks agree with `settle` at the start of a text, behind a character that
leaves room, and behind such a character and a blank. -/
theorem passes_eq_settle (text : List Char) :
    trim (collapse (tighten text)) = settle false false text ∧
      trimRight (collapse (tighten text)) = settle true false text ∧
      ∀ b, isBlank b = true →
        trimRight (collapse (tighten (b :: text))) = settle true true text := by
  induction text with
  | nil =>
    refine ⟨rfl, rfl, ?_⟩
    intro b blank
    rw [tighten_cons_of_isBlank [] blank, if_neg (by simp [tighten]),
      collapse_cons_of_isBlank _ blank]
    exact trimRight_cons_of_isBlank isBlank_space rfl
  | cons c rest ih =>
    obtain ⟨atStart, behind, behindBlank⟩ := ih
    cases blank : isBlank c with
    | true =>
      refine ⟨?_, ?_, ?_⟩
      · rw [settle_cons_of_isBlank false false rest blank, ← atStart,
          tighten_cons_of_isBlank rest blank]
        split
        · rfl
        · rw [trim, dropWhile_collapse, List.dropWhile_cons_of_pos blank, ← dropWhile_collapse, trim]
      · rw [settle_cons_of_isBlank true false rest blank]
        exact behindBlank c blank
      · intro b before
        rw [settle_cons_of_isBlank true true rest blank,
          collapse_tighten_cons_cons rest before blank]
        exact behindBlank c blank
    | false =>
      cases mark : isPunctuation c with
      | true =>
        have tight : collapse (tighten (c :: rest)) =
            c :: (collapse (tighten rest)).dropWhile isBlank := by
          rw [tighten_cons_of_isPunctuation rest mark, collapse_cons_of_not_isBlank _ blank,
            dropWhile_collapse]
        have trimmedRight : trimRight (collapse (tighten (c :: rest))) = c :: settled rest := by
          rw [tight, trimRight_cons_of_not_isBlank _ blank, ← trim, atStart, settled]
        refine ⟨?_, ?_, ?_⟩
        · rw [settle_cons_of_isPunctuation false false rest mark, tight,
            trim_cons_of_not_isBlank _ blank, ← trim, atStart, settled]
        · rw [settle_cons_of_isPunctuation true false rest mark, trimmedRight]
        · intro b before
          rw [settle_cons_of_isPunctuation true true rest mark,
            tighten_cons_of_isBlank _ before, tighten_cons_of_isPunctuation rest mark, if_pos (by simp [mark]),
            ← tighten_cons_of_isPunctuation rest mark, trimmedRight]
      | false =>
        have kept : tighten (c :: rest) = c :: tighten rest :=
          tighten_cons_of_not_isBlank rest blank mark
        have next : ∀ room, settle room false (c :: rest) = c :: settle true false rest := by
          intro room
          rw [settle_cons_of_not_due room rest blank, mark, Bool.not_false]
        refine ⟨?_, ?_, ?_⟩
        · rw [next, kept, collapse_cons_of_not_isBlank _ blank, trim_cons_of_not_isBlank _ blank,
            behind]
        · rw [next, kept, collapse_cons_of_not_isBlank _ blank,
            trimRight_cons_of_not_isBlank _ blank, behind]
        · intro b before
          have spaced : trimRight (c :: collapse (tighten rest)) = c :: settle true false rest := by
            rw [trimRight_cons_of_not_isBlank _ blank, behind]
          rw [settle_cons_of_due true rest blank mark, tighten_cons_of_isBlank _ before, kept,
            if_neg (by simp [mark]), collapse_cons_of_isBlank _ before,
            List.dropWhile_cons_of_neg (by simp [blank]), collapse_cons_of_not_isBlank _ blank,
            trimRight_cons_of_ne_nil _ (by simp [spaced]), spaced]

theorem trim_collapse_tighten (text : List Char) :
    trim (collapse (tighten text)) = settled text := (passes_eq_settle text).1

end Passes

section Semicolons

variable {c : Char} {text : List Char}

theorem dropSemicolons_cons_of_ne (text : List Char) (other : c ≠ ';') :
    dropSemicolons (c :: text) = c :: dropSemicolons text := by
  rw [dropSemicolons, List.foldr_cons, ← dropSemicolons, dropSemicolonStep.eq_def]
  split
  · next same => rw [if_neg other, same]
  · rfl

theorem dropSemicolons_cons_of_brace (closed : (dropSemicolons text).head? = some '}') :
    dropSemicolons (';' :: text) = dropSemicolons text := by
  rw [dropSemicolons, List.foldr_cons, ← dropSemicolons, dropSemicolonStep.eq_def]
  obtain ⟨rest, same⟩ := List.head?_eq_some_iff.mp closed
  rw [same]
  rfl

theorem dropSemicolons_cons_of_not_brace (opened : (dropSemicolons text).head? ≠ some '}') :
    dropSemicolons (';' :: text) = ';' :: dropSemicolons text := by
  rw [dropSemicolons, List.foldr_cons, ← dropSemicolons, dropSemicolonStep.eq_def]
  split
  · next same => simp [same] at opened
  · rfl

/-- A text without semicolons is kept in front of any text. -/
theorem dropSemicolons_append_of_not_mem {first : List Char} (absent : ';' ∉ first)
    (second : List Char) : dropSemicolons (first ++ second) = first ++ dropSemicolons second := by
  induction first with
  | nil => rfl
  | cons c rest ih =>
    rw [List.mem_cons, not_or] at absent
    rw [List.cons_append, dropSemicolons_cons_of_ne _ (Ne.symm absent.1), ih absent.2,
      List.cons_append]

/-- Nothing is dropped at the end of a text if no brace follows. -/
theorem dropSemicolons_append (first : List Char) {second : List Char}
    (opened : (dropSemicolons second).head? ≠ some '}') :
    dropSemicolons (first ++ second) = dropSemicolons first ++ dropSemicolons second := by
  induction first with
  | nil => rfl
  | cons c rest ih =>
    by_cases same : c = ';'
    · subst same
      have front : (dropSemicolons (rest ++ second)).head? = some '}' ↔
          (dropSemicolons rest).head? = some '}' := by
        rw [ih, List.head?_append]
        cases kept : (dropSemicolons rest).head? with
        | none => simpa using opened
        | some d => simp
      rw [List.cons_append]
      by_cases closed : (dropSemicolons rest).head? = some '}'
      · rw [dropSemicolons_cons_of_brace (front.mpr closed), dropSemicolons_cons_of_brace closed, ih]
      · rw [dropSemicolons_cons_of_not_brace (mt front.mp closed),
          dropSemicolons_cons_of_not_brace closed, ih, List.cons_append]
    · rw [List.cons_append, dropSemicolons_cons_of_ne _ same, dropSemicolons_cons_of_ne _ same, ih,
        List.cons_append]

theorem dropSemicolons_sublist (text : List Char) : (dropSemicolons text).Sublist text := by
  induction text with
  | nil => exact List.Sublist.refl _
  | cons c rest ih =>
    by_cases same : c = ';'
    · subst same
      by_cases closed : (dropSemicolons rest).head? = some '}'
      · rw [dropSemicolons_cons_of_brace closed]
        exact ih.cons _
      · rw [dropSemicolons_cons_of_not_brace closed]
        exact ih.cons_cons _
    · rw [dropSemicolons_cons_of_ne _ same]
      exact ih.cons_cons _

theorem dropSemicolons_ne_nil (shown : text ≠ []) : dropSemicolons text ≠ [] := by
  cases text with
  | nil => contradiction
  | cons c rest =>
    by_cases same : c = ';'
    · subst same
      by_cases closed : (dropSemicolons rest).head? = some '}'
      · rw [dropSemicolons_cons_of_brace closed]
        rintro empty
        simp [empty] at closed
      · simp [dropSemicolons_cons_of_not_brace closed]
    · simp [dropSemicolons_cons_of_ne _ same]

theorem ne_semicolon_of_isBlank (blank : isBlank c = true) : c ≠ ';' := by
  rintro rfl
  contradiction

/-- The first character that is not blank is found before or after semicolons are dropped. -/
theorem dropWhile_dropSemicolons (text : List Char) :
    (dropSemicolons text).dropWhile isBlank = dropSemicolons (text.dropWhile isBlank) := by
  induction text with
  | nil => rfl
  | cons c rest ih =>
    cases blank : isBlank c with
    | true =>
      rw [dropSemicolons_cons_of_ne rest (ne_semicolon_of_isBlank blank),
        List.dropWhile_cons_of_pos blank, List.dropWhile_cons_of_pos blank, ih]
    | false =>
      rw [List.dropWhile_cons_of_neg (l := rest) (by simp [blank])]
      by_cases same : c = ';'
      · subst same
        by_cases closed : (dropSemicolons rest).head? = some '}'
        · obtain ⟨kept, start⟩ := List.head?_eq_some_iff.mp closed
          rw [dropSemicolons_cons_of_brace closed, start]
          rfl
        · rw [dropSemicolons_cons_of_not_brace closed]
          rfl
      · rw [dropSemicolons_cons_of_ne _ same, List.dropWhile_cons_of_neg (by simp [blank])]

theorem head?_collapse_eq_brace : (collapse text).head? = some '}' ↔ text.head? = some '}' := by
  cases text with
  | nil => rfl
  | cons c rest =>
    cases blank : isBlank c with
    | true =>
      rw [collapse_cons_of_isBlank rest blank]
      constructor
      · intro same
        simp at same
      · intro same
        obtain rfl := Option.some.inj same
        contradiction
    | false => rw [collapse_cons_of_not_isBlank rest blank, List.head?_cons, List.head?_cons]

theorem collapse_dropSemicolons (text : List Char) :
    collapse (dropSemicolons text) = dropSemicolons (collapse text) := by
  induction text with
  | nil => rfl
  | cons c rest ih =>
    cases blank : isBlank c with
    | true =>
      rw [dropSemicolons_cons_of_ne rest (ne_semicolon_of_isBlank blank),
        collapse_cons_of_isBlank _ blank, collapse_cons_of_isBlank _ blank,
        dropSemicolons_cons_of_ne _ (by decide), ← dropWhile_collapse, ← dropWhile_collapse, ih,
        dropWhile_dropSemicolons]
    | false =>
      rw [collapse_cons_of_not_isBlank rest blank]
      by_cases same : c = ';'
      · subst same
        by_cases closed : (dropSemicolons rest).head? = some '}'
        · rw [dropSemicolons_cons_of_brace closed, dropSemicolons_cons_of_brace, ih]
          rw [← ih]
          exact head?_collapse_eq_brace.mpr closed
        · rw [dropSemicolons_cons_of_not_brace closed, collapse_cons_of_not_isBlank _ blank,
            dropSemicolons_cons_of_not_brace, ih]
          rw [← ih]
          exact mt head?_collapse_eq_brace.mp closed
      · rw [dropSemicolons_cons_of_ne _ same, dropSemicolons_cons_of_ne _ same,
          collapse_cons_of_not_isBlank _ blank, ih]

theorem trimRight_dropSemicolons (text : List Char) :
    trimRight (dropSemicolons text) = dropSemicolons (trimRight text) := by
  induction text with
  | nil => rfl
  | cons c rest ih =>
    cases blank : isBlank c with
    | true =>
      have other := ne_semicolon_of_isBlank blank
      rw [dropSemicolons_cons_of_ne rest other]
      by_cases empty : trimRight rest = []
      · rw [trimRight_cons_of_isBlank blank empty,
          trimRight_cons_of_isBlank blank (by rw [ih, empty]; rfl)]
        rfl
      · have kept : trimRight (dropSemicolons rest) ≠ [] := by
          rw [ih]
          exact dropSemicolons_ne_nil empty
        rw [trimRight_cons_of_ne_nil c empty, trimRight_cons_of_ne_nil c kept, ih,
          dropSemicolons_cons_of_ne _ other]
    | false =>
      rw [trimRight_cons_of_not_isBlank rest blank]
      by_cases same : c = ';'
      · subst same
        have front : (dropSemicolons (trimRight rest)).head? = some '}' ↔
            (dropSemicolons rest).head? = some '}' := by
          rw [← ih]
          exact head?_trimRight _ rfl
        by_cases closed : (dropSemicolons rest).head? = some '}'
        · rw [dropSemicolons_cons_of_brace closed, dropSemicolons_cons_of_brace (front.mpr closed),
            ih]
        · rw [dropSemicolons_cons_of_not_brace closed,
            dropSemicolons_cons_of_not_brace (mt front.mp closed),
            trimRight_cons_of_not_isBlank _ blank, ih]
      · rw [dropSemicolons_cons_of_ne _ same, dropSemicolons_cons_of_ne _ same,
          trimRight_cons_of_not_isBlank _ blank, ih]

end Semicolons

/-- A text without comments in its shortest form. -/
def squeezed (text : List Char) : List Char := dropSemicolons (settled text)

/-- After the comments one pass over the blanks and one over the semicolons do all the work. -/
theorem minifyText_eq_squeezed (text : List Char) :
    minifyText text = squeezed (stripComments text) := by
  generalize bare : stripComments text = rest
  have trimmed : trim (dropSemicolons (collapse (tighten rest))) =
      dropSemicolons (trim (collapse (tighten rest))) := by
    rw [trim, dropWhile_dropSemicolons, trimRight_dropSemicolons, trim]
  rw [minifyText, bare, collapse_dropSemicolons, trimmed, trim_collapse_tighten, squeezed]

end ThemeCss
