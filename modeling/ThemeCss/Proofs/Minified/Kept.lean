import ThemeCss.Proofs.Minified.Settled

/-! # Which characters minifying keeps

Behind the comments a text loses its blanks and the semicolons at the end of a block, and nothing
else. The characters that are kept stay in order, and between two that follow each other there is a
space exactly where there was a blank and neither of them is punctuation. Both are said by places in
the text that is minified, not by the passes.
-/

namespace ThemeCss

/-- Whether a block is closed behind semicolons and blanks. -/
def closesBlock (text : List Char) : Bool :=
  (text.dropWhile fun c => c == ';' || isBlank c).head? == some '}'

/-- Whether the first character is kept: it is no blank, and no semicolon at the end of a block. -/
def keepsFirst : List Char → Bool
  | [] => false
  | c :: rest => !isBlank c && !(c == ';' && closesBlock rest)

/-- The places whose characters are kept. -/
def keptPlaces (text : List Char) : List Nat :=
  (List.range text.length).filter fun place => keepsFirst (text.drop place)

/-- Whether a blank is between two places and neither of them has punctuation. -/
def isSpaced (text : List Char) (first second : Nat) : Bool :=
  ((text.take second).drop (first + 1)).any isBlank &&
    !text[first]?.any isPunctuation && !text[second]?.any isPunctuation

/-- The characters at some places, with a space between those that are spaced. -/
def spacedOut (text : List Char) : List Nat → List Char
  | [] => []
  | [place] => text[place]?.toList
  | first :: second :: places =>
    text[first]?.toList ++ (if isSpaced text first second then [' '] else []) ++
      spacedOut text (second :: places)

section Places

variable {c : Char} {rest : List Char}

theorem keptPlaces_cons_of_keepsFirst (kept : keepsFirst (c :: rest) = true) :
    keptPlaces (c :: rest) = 0 :: (keptPlaces rest).map (· + 1) := by
  rw [keptPlaces, List.length_cons, List.range_succ_eq_map, List.filter_cons_of_pos (by exact kept),
    List.filter_map]
  rfl

theorem keptPlaces_cons_of_not_keepsFirst (dropped : keepsFirst (c :: rest) = false) :
    keptPlaces (c :: rest) = (keptPlaces rest).map (· + 1) := by
  rw [keptPlaces, List.length_cons, List.range_succ_eq_map,
    List.filter_cons_of_neg (by simp [dropped]), List.filter_map]
  rfl

theorem keepsFirst_cons_of_ne (solid : isBlank c = false) (other : c ≠ ';') :
    keepsFirst (c :: rest) = true := by
  simp [keepsFirst, solid, other]

theorem keepsFirst_cons_of_isBlank (blank : isBlank c = true) : keepsFirst (c :: rest) = false := by
  simp [keepsFirst, blank]

theorem keepsFirst_semicolon : keepsFirst (';' :: rest) = !closesBlock rest := rfl

/-- The characters behind a first one are spaced as they are without it. -/
theorem spacedOut_map_succ (c : Char) (rest : List Char) (places : List Nat) :
    spacedOut (c :: rest) (places.map (· + 1)) = spacedOut rest places := by
  induction places with
  | nil => rfl
  | cons first places ih =>
    cases places with
    | nil => rfl
    | cons second places =>
      rw [List.map_cons, List.map_cons, spacedOut, spacedOut, ← List.map_cons (f := (· + 1)), ih]
      rfl

/-- The kept characters of a text as they are written. -/
def written (text : List Char) : List Char := spacedOut text (keptPlaces text)

/-- The space in front of the first kept character: `due` tells that a blank is in front of the
text, `room` that one in the text counts. -/
def leadingSpace (room due : Bool) (text : List Char) : List Char :=
  match keptPlaces text with
  | [] => []
  | place :: _ =>
    if (due || room && (text.take place).any isBlank) && !text[place]?.any isPunctuation then [' ']
    else []

theorem leadingSpace_eq_nil (text : List Char) : leadingSpace false false text = [] := by
  rw [leadingSpace]
  split <;> rfl

theorem written_cons_of_keepsFirst (kept : keepsFirst (c :: rest) = true) :
    written (c :: rest) = c :: (leadingSpace (!isPunctuation c) false rest ++ written rest) := by
  rw [written, written, keptPlaces_cons_of_keepsFirst kept, ← spacedOut_map_succ c rest,
    leadingSpace]
  cases keptPlaces rest with
  | nil => rfl
  | cons place places =>
    have spaced : isSpaced (c :: rest) 0 (place + 1) =
        ((false || !isPunctuation c && (rest.take place).any isBlank) &&
          !rest[place]?.any isPunctuation) := by
      simp [isSpaced, Bool.and_comm]
    rw [List.map_cons, spacedOut, spaced]
    rfl

theorem written_cons_of_not_keepsFirst (dropped : keepsFirst (c :: rest) = false) :
    written (c :: rest) = written rest := by
  rw [written, written, keptPlaces_cons_of_not_keepsFirst dropped, spacedOut_map_succ]

theorem leadingSpace_cons_of_keepsFirst (room due : Bool) (kept : keepsFirst (c :: rest) = true) :
    leadingSpace room due (c :: rest) = if due && !isPunctuation c then [' '] else [] := by
  rw [leadingSpace, keptPlaces_cons_of_keepsFirst kept]
  simp

/-- A blank in front makes a space due if there is room for it. -/
theorem leadingSpace_cons_of_isBlank {room due : Bool} (granted : due = true → room = true)
    (blank : isBlank c = true) :
    leadingSpace room due (c :: rest) = leadingSpace room room rest := by
  rw [leadingSpace, leadingSpace,
    keptPlaces_cons_of_not_keepsFirst (keepsFirst_cons_of_isBlank blank)]
  cases keptPlaces rest with
  | nil => rfl
  | cons place places =>
    cases room <;> cases due <;> simp_all

theorem closesBlock_cons_of_isBlank (blank : isBlank c = true) :
    closesBlock (c :: rest) = closesBlock rest := by
  simp [closesBlock, blank]

theorem closesBlock_semicolon : closesBlock (';' :: rest) = closesBlock rest := rfl

theorem closesBlock_cons_of_ne (solid : isBlank c = false) (other : c ≠ ';') :
    closesBlock (c :: rest) = (c == '}') := by
  simp [closesBlock, solid, other]

/-- A block is closed behind semicolons and blanks exactly where a brace is the first character that
is kept. -/
theorem head?_written_eq_brace (text : List Char) :
    (written text).head? = some '}' ↔ closesBlock text = true := by
  induction text with
  | nil => simp [written, keptPlaces, spacedOut, closesBlock]
  | cons c rest ih =>
    cases blank : isBlank c with
    | true =>
      rw [written_cons_of_not_keepsFirst (keepsFirst_cons_of_isBlank blank), ih,
        closesBlock_cons_of_isBlank blank]
    | false =>
      by_cases same : c = ';'
      · subst same
        rw [closesBlock_semicolon]
        cases closed : closesBlock rest with
        | true =>
          have dropped : keepsFirst (';' :: rest) = false := by simp [keepsFirst_semicolon, closed]
          rw [written_cons_of_not_keepsFirst dropped, ih, closed]
        | false =>
          have kept : keepsFirst (';' :: rest) = true := by simp [keepsFirst_semicolon, closed]
          rw [written_cons_of_keepsFirst kept]
          simp
      · rw [written_cons_of_keepsFirst (keepsFirst_cons_of_ne blank same),
          closesBlock_cons_of_ne blank same]
        simp

/-- What is written begins with the character at the first place. -/
theorem getElem?_of_keptPlaces_eq_cons {text : List Char} {place : Nat} {places : List Nat}
    (first : keptPlaces text = place :: places) : text[place]? = (written text).head? := by
  have member : place ∈ keptPlaces text := first ▸ List.mem_cons_self
  have inside : place < text.length := List.mem_range.mp (List.mem_filter.mp member).1
  rw [written, first, List.getElem?_eq_getElem inside]
  cases places <;> simp [spacedOut, inside]

/-- There is no space in front of a closing brace. -/
theorem leadingSpace_of_closesBlock (room due : Bool) {text : List Char}
    (closed : closesBlock text = true) : leadingSpace room due text = [] := by
  rw [leadingSpace]
  split
  · rfl
  · next place places first =>
    rw [getElem?_of_keptPlaces_eq_cons first, (head?_written_eq_brace text).mpr closed]
    simp [isPunctuation]

end Places

/-- A semicolon in front of a settled text is dropped exactly where it is not kept. -/
theorem dropSemicolons_semicolon (room due : Bool) {rest : List Char}
    (behind : dropSemicolons (settled rest) = written rest) :
    dropSemicolons (';' :: settled rest) =
      leadingSpace room due (';' :: rest) ++ written (';' :: rest) := by
  cases closed : closesBlock rest with
  | true =>
    have dropped : keepsFirst (';' :: rest) = false := by simp [keepsFirst_semicolon, closed]
    have ends : closesBlock (';' :: rest) = true := closed
    have brace := (head?_written_eq_brace rest).mpr closed
    rw [dropSemicolons_cons_of_brace (behind ▸ brace), behind,
      leadingSpace_of_closesBlock room due ends, written_cons_of_not_keepsFirst dropped,
      List.nil_append]
  | false =>
    have kept : keepsFirst (';' :: rest) = true := by simp [keepsFirst_semicolon, closed]
    have unended : (written rest).head? ≠ some '}' := by
      rw [ne_eq, head?_written_eq_brace, closed]
      exact Bool.false_ne_true
    rw [dropSemicolons_cons_of_not_brace (behind ▸ unended), behind,
      leadingSpace_cons_of_keepsFirst room due kept, written_cons_of_keepsFirst kept]
    simp [isPunctuation, leadingSpace_eq_nil]

/-- Settling a text and dropping its semicolons writes the kept characters, behind a space if one is
due in front of the first of them. -/
theorem dropSemicolons_settle {room due : Bool} (granted : due = true → room = true)
    (text : List Char) :
    dropSemicolons (settle room due text) = leadingSpace room due text ++ written text := by
  -- A space is written only at the next character that is kept, so what is due is carried on.
  induction text generalizing room due with
  | nil => rfl
  | cons c rest ih =>
    cases blank : isBlank c with
    | true =>
      rw [settle_cons_of_isBlank room due rest blank, ih id,
        leadingSpace_cons_of_isBlank granted blank,
        written_cons_of_not_keepsFirst (keepsFirst_cons_of_isBlank blank)]
    | false =>
      by_cases same : c = ';'
      · subst same
        have behind : dropSemicolons (settled rest) = written rest := by
          rw [settled, ih id, leadingSpace_eq_nil, List.nil_append]
        rw [settle_cons_of_isPunctuation room due rest rfl]
        exact dropSemicolons_semicolon room due behind
      · have kept : keepsFirst (c :: rest) = true := keepsFirst_cons_of_ne blank same
        have behind : dropSemicolons (c :: settle (!isPunctuation c) false rest) =
            written (c :: rest) := by
          rw [dropSemicolons_cons_of_ne _ same, ih (by simp), written_cons_of_keepsFirst kept]
        rw [leadingSpace_cons_of_keepsFirst room due kept, ← behind, settle, blank]
        cases due && !isPunctuation c with
        | true => exact dropSemicolons_cons_of_ne _ (by decide)
        | false => rfl

theorem squeezed_eq_written (text : List Char) : squeezed text = written text := by
  rw [squeezed, settled, dropSemicolons_settle id, leadingSpace_eq_nil, List.nil_append]

theorem isBlankText_leadingSpace (room due : Bool) (text : List Char) :
    IsBlankText (leadingSpace room due text) := by
  rw [leadingSpace]
  split
  · exact .nil
  · split
    · exact List.forall_mem_singleton.mpr isBlank_space
    · exact .nil

/-- What is written apart from spaces are the characters at the kept places. -/
theorem filter_written (text : List Char) :
    (written text).filter (fun c => !isBlank c) = (keptPlaces text).filterMap (text[·]?) := by
  induction text with
  | nil => rfl
  | cons c rest ih =>
    have behind : ((keptPlaces rest).map (· + 1)).filterMap ((c :: rest)[·]?) =
        (keptPlaces rest).filterMap (rest[·]?) := by
      rw [List.filterMap_map]
      rfl
    cases kept : keepsFirst (c :: rest) with
    | true =>
      have solid : isBlank c = false := by
        by_contra blank
        rw [keepsFirst_cons_of_isBlank (by simpa using blank)] at kept
        contradiction
      have front (places : List Nat) : (0 :: places).filterMap ((c :: rest)[·]?) =
          c :: places.filterMap ((c :: rest)[·]?) := rfl
      have space : (leadingSpace (!isPunctuation c) false rest).filter (fun c => !isBlank c) = [] :=
        List.filter_eq_nil_iff.mpr fun d member => by
          simp [isBlankText_leadingSpace _ _ _ d member]
      rw [written_cons_of_keepsFirst kept, List.filter_cons_of_pos (by simp [solid]),
        List.filter_append, space, ih, keptPlaces_cons_of_keepsFirst kept, front, behind]
      rfl
    | false =>
      rw [written_cons_of_not_keepsFirst kept, keptPlaces_cons_of_not_keepsFirst kept, ih, behind]

/-- Behind its comments a text keeps all characters but blanks and the semicolons at the end of a
block, in order. Two that follow each other have one space between them if they are spaced, and
nothing else. -/
theorem minified_kept (css : String) :
    (minified css).toList.filter (fun c => !isBlank c) =
        (keptPlaces (stripComments css.toList)).filterMap ((stripComments css.toList)[·]?) ∧
      (minified css).toList =
        spacedOut (stripComments css.toList) (keptPlaces (stripComments css.toList)) := by
  have whole : (minified css).toList = written (stripComments css.toList) := by
    rw [minified, String.toList_ofList, minifyText_eq_squeezed, squeezed_eq_written]
  exact ⟨whole ▸ filter_written _, whole⟩

example : spacedOut ['a', ' ', ';', ' ', ';', '}', ' ', 'b', ' ', '\n', 'c']
    (keptPlaces ['a', ' ', ';', ' ', ';', '}', ' ', 'b', ' ', '\n', 'c']) =
      ['a', '}', 'b', ' ', 'c'] := by decide

end ThemeCss
