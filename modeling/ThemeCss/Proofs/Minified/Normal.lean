import ThemeCss.Proofs.Minified.Comments
import ThemeCss.Proofs.Minified.Settled

/-! # Normal texts

A text is normal if it has no comment, no needless blank and no needless semicolon. Minified texts
are the normal ones: every pass keeps what the passes before it have reached, and a normal text goes
through all of them unchanged.
-/

namespace ThemeCss

/-- What minified texts look like. -/
structure IsNormal (text : List Char) : Prop where
  uncommented : ¬ HasComment text
  /-- No blank is next to punctuation. -/
  tight : text.IsChain fun a b =>
    ¬ (isBlank a = true ∧ isPunctuation b = true) ∧ ¬ (isPunctuation a = true ∧ isBlank b = true)
  /-- No semicolon is directly in front of a closing brace. -/
  unended : text.IsChain fun a b => ¬ (a = ';' ∧ b = '}')
  /-- Blanks are spaces, and no two of them are next to each other or at an end. -/
  spaces : ∀ c ∈ text, isBlank c = true → c = ' '
  single : text.IsChain fun a b => ¬ (isBlank a = true ∧ isBlank b = true)
  start : ∀ c ∈ text.head?, isBlank c = false
  stop : ∀ c ∈ text.getLast?, isBlank c = false

section Fixed

variable {text : List Char}

theorem tighten_of_tight (tight : text.IsChain fun a b =>
    ¬ (isBlank a = true ∧ isPunctuation b = true) ∧ ¬ (isPunctuation a = true ∧ isBlank b = true)) :
    tighten text = text := by
  induction text with
  | nil => rfl
  | cons c rest ih =>
    obtain ⟨next, chain⟩ := List.isChain_cons.mp tight
    cases blank : isBlank c with
    | true =>
      rw [tighten_cons_of_isBlank rest blank, ih chain, if_neg]
      intro marked
      obtain ⟨d, front, mark⟩ := (Option.any_eq_true _ _).mp marked
      exact (next d front).1 ⟨blank, mark⟩
    | false =>
      cases mark : isPunctuation c with
      | true =>
        rw [tighten_cons_of_isPunctuation rest mark, ih chain, dropWhile_isBlank_of_start]
        intro d front
        by_contra spaced
        exact (next d front).2 ⟨mark, by simpa using spaced⟩
      | false => rw [tighten_cons_of_not_isBlank rest blank mark, ih chain]

theorem dropSemicolons_of_unended (unended : text.IsChain fun a b => ¬ (a = ';' ∧ b = '}')) :
    dropSemicolons text = text := by
  induction text with
  | nil => rfl
  | cons c rest ih =>
    obtain ⟨next, chain⟩ := List.isChain_cons.mp unended
    by_cases same : c = ';'
    · subst same
      rw [dropSemicolons_cons_of_not_brace, ih chain]
      rw [ih chain]
      intro front
      exact next '}' front ⟨rfl, rfl⟩
    · rw [dropSemicolons_cons_of_ne rest same, ih chain]

theorem collapse_of_single (spaces : ∀ c ∈ text, isBlank c = true → c = ' ')
    (single : text.IsChain fun a b => ¬ (isBlank a = true ∧ isBlank b = true)) :
    collapse text = text := by
  induction text with
  | nil => rfl
  | cons c rest ih =>
    obtain ⟨next, chain⟩ := List.isChain_cons.mp single
    have kept := ih (fun d member => spaces d (List.mem_cons_of_mem c member)) chain
    cases blank : isBlank c with
    | true =>
      rw [collapse_cons_of_isBlank rest blank, dropWhile_isBlank_of_start, kept,
        spaces c List.mem_cons_self blank]
      intro d front
      by_contra again
      exact next d front ⟨blank, by simpa using again⟩
    | false => rw [collapse_cons_of_not_isBlank rest blank, kept]

theorem minifyText_of_isNormal (normal : IsNormal text) : minifyText text = text := by
  rw [minifyText, stripComments_of_not_hasComment normal.uncommented, tighten_of_tight normal.tight,
    dropSemicolons_of_unended normal.unended, collapse_of_single normal.spaces normal.single,
    trim_of_ends normal.start normal.stop]

end Fixed

/-- Neighbours of which a blank is none, or is one between characters that need it. -/
def SettledPair (a b : Char) : Prop :=
  (isBlank a = true → isBlank b = false ∧ isPunctuation b = false) ∧
    (isBlank b = true → isBlank a = false ∧ isPunctuation a = false)

theorem settledPair_of_not_isBlank {a b : Char} (first : isBlank a = false) (second : isBlank b = false) :
    SettledPair a b := by
  simp [SettledPair, first, second]

/-- Behind a character nothing is settled but what may stand there. The induction keeps that a space
is due only behind a character with room behind it. -/
theorem isChain_cons_settle {before : Char} (due : Bool) (text : List Char)
    (solid : isBlank before = false) (room : due = true → isPunctuation before = false) :
    (before :: settle (!isPunctuation before) due text).IsChain SettledPair := by
  induction text generalizing before due with
  | nil => exact List.isChain_singleton before
  | cons c rest ih =>
    cases blank : isBlank c with
    | true =>
      rw [settle_cons_of_isBlank _ _ _ blank]
      exact ih _ solid (by simp)
    | false =>
      have further : (c :: settle (!isPunctuation c) false rest).IsChain SettledPair :=
        ih false blank (by simp)
      cases due with
      | false =>
        rw [settle_cons_of_not_due _ _ blank]
        exact List.isChain_cons_cons.mpr ⟨settledPair_of_not_isBlank solid blank, further⟩
      | true =>
        cases mark : isPunctuation c with
        | true =>
          rw [settle_cons_of_isPunctuation _ _ _ mark]
          rw [mark] at further
          exact List.isChain_cons_cons.mpr ⟨settledPair_of_not_isBlank solid blank, further⟩
        | false =>
          rw [settle_cons_of_due _ _ blank mark]
          rw [mark] at further
          refine List.isChain_cons_cons.mpr ⟨?_, List.isChain_cons_cons.mpr ⟨?_, further⟩⟩
          · simp [SettledPair, solid, room]
          · simp [SettledPair, blank, mark]

theorem isChain_settled (text : List Char) : (settled text).IsChain SettledPair := by
  induction text with
  | nil => exact List.isChain_nil
  | cons c rest ih =>
    rw [settled]
    cases blank : isBlank c with
    | true =>
      rw [settle_cons_of_isBlank _ _ _ blank]
      exact ih
    | false =>
      rw [settle_cons_of_not_due _ _ blank]
      exact isChain_cons_settle false rest blank (by simp)

theorem eq_space_of_mem_settle {room due : Bool} {text : List Char} :
    ∀ c ∈ settle room due text, isBlank c = true → c = ' ' := by
  induction text generalizing room due with
  | nil => simp
  | cons d rest ih =>
    cases blank : isBlank d with
    | true =>
      rw [settle_cons_of_isBlank _ _ _ blank]
      exact ih
    | false =>
      intro c member spaced
      rw [settle] at member
      split at member
      · exact ih c member spaced
      · split at member
        · rcases List.mem_cons.mp member with rfl | member
          · rfl
          · rcases List.mem_cons.mp member with rfl | member
            · rw [blank] at spaced
              contradiction
            · exact ih c member spaced
        · rcases List.mem_cons.mp member with rfl | member
          · rw [blank] at spaced
            contradiction
          · exact ih c member spaced

theorem trimRight_prefix (text : List Char) : trimRight text <+: text := by
  rw [← List.reverse_suffix, trimRight, List.reverse_reverse]
  exact List.dropWhile_suffix isBlank

theorem not_isBlank_of_mem_head?_dropWhile (text : List Char) :
    ∀ c ∈ (text.dropWhile isBlank).head?, isBlank c = false := by
  intro c front
  have solid := List.head?_dropWhile_not isBlank text
  rw [Option.mem_def.mp front] at solid
  exact solid

theorem not_isBlank_of_mem_head?_trim {text : List Char} :
    ∀ c ∈ (trim text).head?, isBlank c = false := by
  intro c front
  apply not_isBlank_of_mem_head?_dropWhile text
  obtain ⟨dropped, whole⟩ := trimRight_prefix (text.dropWhile isBlank)
  rw [← whole, List.head?_append, ← trim, Option.mem_def.mp front]
  rfl

theorem not_isBlank_of_mem_getLast?_trim {text : List Char} :
    ∀ c ∈ (trim text).getLast?, isBlank c = false := by
  intro c back
  rw [trim, trimRight, List.getLast?_reverse] at back
  exact not_isBlank_of_mem_head?_dropWhile _ c back

/-- Dropping semicolons changes the first character only from a semicolon to a brace. -/
theorem head?_dropSemicolons (text : List Char) :
    (dropSemicolons text).head? = text.head? ∨
      text.head? = some ';' ∧ (dropSemicolons text).head? = some '}' := by
  cases text with
  | nil => exact .inl rfl
  | cons c rest =>
    by_cases same : c = ';'
    · subst same
      by_cases closed : (dropSemicolons rest).head? = some '}'
      · rw [dropSemicolons_cons_of_brace closed]
        exact .inr ⟨rfl, closed⟩
      · rw [dropSemicolons_cons_of_not_brace closed]
        exact .inl rfl
    · rw [dropSemicolons_cons_of_ne rest same]
      exact .inl rfl

/-- Neighbours stay as they may be if a brace may stand wherever a semicolon may. -/
theorem isChain_dropSemicolons {R : Char → Char → Prop} {text : List Char}
    (swap : ∀ c, R c ';' → R c '}') (chain : text.IsChain R) :
    (dropSemicolons text).IsChain R := by
  induction text with
  | nil => exact List.isChain_nil
  | cons c rest ih =>
    obtain ⟨next, remaining⟩ := List.isChain_cons.mp chain
    have further : ∀ d ∈ (dropSemicolons rest).head?, R c d := by
      intro d front
      rcases head?_dropSemicolons rest with same | ⟨semicolon, brace⟩
      · exact next d (same ▸ front)
      · obtain rfl := Option.some.inj (brace.symm.trans front)
        exact swap c (next ';' semicolon)
    by_cases same : c = ';'
    · subst same
      by_cases closed : (dropSemicolons rest).head? = some '}'
      · rw [dropSemicolons_cons_of_brace closed]
        exact ih remaining
      · rw [dropSemicolons_cons_of_not_brace closed]
        exact List.isChain_cons.mpr ⟨further, ih remaining⟩
    · rw [dropSemicolons_cons_of_ne rest same]
      exact List.isChain_cons.mpr ⟨further, ih remaining⟩

theorem unended_dropSemicolons (text : List Char) :
    (dropSemicolons text).IsChain fun a b => ¬ (a = ';' ∧ b = '}') := by
  induction text with
  | nil => exact List.isChain_nil
  | cons c rest ih =>
    by_cases same : c = ';'
    · subst same
      by_cases closed : (dropSemicolons rest).head? = some '}'
      · rw [dropSemicolons_cons_of_brace closed]
        exact ih
      · rw [dropSemicolons_cons_of_not_brace closed]
        refine List.isChain_cons.mpr ⟨?_, ih⟩
        rintro d front ⟨-, rfl⟩
        exact closed front
    · rw [dropSemicolons_cons_of_ne rest same]
      refine List.isChain_cons.mpr ⟨?_, ih⟩
      rintro d - ⟨semicolon, -⟩
      exact same semicolon

theorem hasComment_iff_suffix {text : List Char} : HasComment text ↔
    ∃ rest, '/' :: '*' :: rest <:+ text ∧ ∃ after, '*' :: '/' :: after <:+ rest := by
  constructor
  · rintro ⟨before, inside, after, rfl⟩
    exact ⟨_, ⟨before, rfl⟩, after, inside, rfl⟩
  · rintro ⟨rest, ⟨before, rfl⟩, after, inside, rfl⟩
    exact ⟨before, inside, after, rfl⟩

/-- A function on texts that takes two neighbours out of what it makes only from neighbours in what
it is given keeps texts without comments so. -/
theorem not_hasComment_of_suffixes {pass rest : List Char → List Char} {text : List Char}
    (opening : ∀ {text more}, '/' :: '*' :: more <:+ pass text →
      ∃ kept, '/' :: '*' :: kept <:+ text ∧ more = rest kept)
    (closing : ∀ {text more}, '*' :: '/' :: more <:+ rest text →
      ∃ kept, '*' :: '/' :: kept <:+ text ∧ more = rest kept)
    (bare : ¬ HasComment text) : ¬ HasComment (pass text) := by
  rw [hasComment_iff_suffix] at bare ⊢
  rintro ⟨more, opened, after, closed⟩
  obtain ⟨kept, start, rfl⟩ := opening opened
  obtain ⟨last, stop, rfl⟩ := closing closed
  exact bare ⟨kept, start, last, stop⟩

section Suffixes

variable {a b : Char} {text more : List Char}

/-- Behind a due space comes the space, or punctuation instead of it. -/
theorem head?_settle_of_due (text : List Char) :
    ∀ c ∈ (settle true true text).head?, c = ' ' ∨ isPunctuation c = true := by
  induction text with
  | nil => simp
  | cons d rest ih =>
    cases blank : isBlank d with
    | true =>
      rw [settle_cons_of_isBlank _ _ _ blank]
      exact ih
    | false =>
      cases mark : isPunctuation d with
      | true =>
        rw [settle_cons_of_isPunctuation _ _ _ mark]
        rintro c front
        obtain rfl := Option.some.inj front
        exact .inr mark
      | false =>
        rw [settle_cons_of_due _ _ blank mark]
        rintro c front
        exact .inl (Option.some.inj front).symm

/-- A character that is neither blank nor punctuation comes directly behind another only if it did
so before. -/
theorem cons_eq_settle (solid : isBlank b = false) (unmarked : isPunctuation b = false)
    (same : b :: more = settle true false text) :
    ∃ kept, text = b :: kept ∧ more = settle true false kept := by
  cases text with
  | nil => contradiction
  | cons d rest =>
    cases blank : isBlank d with
    | true =>
      rw [settle_cons_of_isBlank _ _ _ blank] at same
      rcases head?_settle_of_due rest b (by rw [← same]; rfl) with rfl | mark
      · contradiction
      · rw [mark] at unmarked
        contradiction
    | false =>
      rw [settle_cons_of_not_due _ _ blank] at same
      obtain ⟨rfl, rest⟩ := List.cons.inj same
      rw [unmarked] at rest
      exact ⟨_, rfl, rest⟩

theorem suffix_settle {room due : Bool} (first : isBlank a = false)
    (firstUnmarked : isPunctuation a = false) (second : isBlank b = false)
    (secondUnmarked : isPunctuation b = false) (suffix : a :: b :: more <:+ settle room due text) :
    ∃ kept, a :: b :: kept <:+ text ∧ more = settle true false kept := by
  induction text generalizing room due with
  | nil => simp at suffix
  | cons c rest ih =>
    have shorter {room due : Bool} (suffix : a :: b :: more <:+ settle room due rest) :
        ∃ kept, a :: b :: kept <:+ c :: rest ∧ more = settle true false kept := by
      obtain ⟨kept, within, same⟩ := ih suffix
      exact ⟨kept, within.trans (List.suffix_cons c rest), same⟩
    cases blank : isBlank c with
    | true =>
      rw [settle_cons_of_isBlank _ _ _ blank] at suffix
      exact shorter suffix
    | false =>
      cases mark : isPunctuation c with
      | true =>
        rw [settle_cons_of_isPunctuation _ _ _ mark] at suffix
        rcases List.suffix_cons_iff.mp suffix with whole | further
        · obtain ⟨rfl, -⟩ := List.cons.inj whole
          rw [mark] at firstUnmarked
          contradiction
        · exact shorter further
      | false =>
        have behind (suffix : a :: b :: more <:+ c :: settle true false rest) :
            ∃ kept, a :: b :: kept <:+ c :: rest ∧ more = settle true false kept := by
          rcases List.suffix_cons_iff.mp suffix with whole | further
          · obtain ⟨rfl, same⟩ := List.cons.inj whole
            obtain ⟨kept, rfl, last⟩ := cons_eq_settle second secondUnmarked same
            exact ⟨kept, List.suffix_refl _, last⟩
          · exact shorter further
        cases due with
        | false =>
          rw [settle_cons_of_not_due _ _ blank, mark] at suffix
          exact behind suffix
        | true =>
          rw [settle_cons_of_due _ _ blank mark] at suffix
          rcases List.suffix_cons_iff.mp suffix with whole | further
          · obtain ⟨rfl, -⟩ := List.cons.inj whole
            contradiction
          · exact behind further

theorem suffix_dropSemicolons (first : a ≠ ';') (second : b ≠ ';')
    (secondOpen : b ≠ '}') (suffix : a :: b :: more <:+ dropSemicolons text) :
    ∃ kept, a :: b :: kept <:+ text ∧ more = dropSemicolons kept := by
  induction text with
  | nil => simp [dropSemicolons] at suffix
  | cons c rest ih =>
    have shorter (suffix : a :: b :: more <:+ dropSemicolons rest) :
        ∃ kept, a :: b :: kept <:+ c :: rest ∧ more = dropSemicolons kept := by
      obtain ⟨kept, within, same⟩ := ih suffix
      exact ⟨kept, within.trans (List.suffix_cons c rest), same⟩
    by_cases same : c = ';'
    · subst same
      by_cases closed : (dropSemicolons rest).head? = some '}'
      · rw [dropSemicolons_cons_of_brace closed] at suffix
        exact shorter suffix
      · rw [dropSemicolons_cons_of_not_brace closed] at suffix
        rcases List.suffix_cons_iff.mp suffix with whole | further
        · exact absurd (List.cons.inj whole).1 first
        · exact shorter further
    · rw [dropSemicolons_cons_of_ne rest same] at suffix
      rcases List.suffix_cons_iff.mp suffix with whole | further
      · obtain ⟨rfl, next⟩ := List.cons.inj whole
        cases rest with
        | nil => simp [dropSemicolons] at next
        | cons d rest =>
          have front : (dropSemicolons (d :: rest)).head? = some b := by rw [← next]; rfl
          rcases head?_dropSemicolons (d :: rest) with kept | ⟨-, brace⟩
          · obtain rfl : d = b := Option.some.inj (kept.symm.trans front)
            rw [dropSemicolons_cons_of_ne rest second] at next
            exact ⟨rest, List.suffix_refl _, (List.cons.inj next).2⟩
          · exact absurd (Option.some.inj (front.symm.trans brace)) secondOpen
      · exact shorter further

end Suffixes

theorem not_hasComment_squeezed {text : List Char} (bare : ¬ HasComment text) :
    ¬ HasComment (squeezed text) := by
  have blanks : ¬ HasComment (settled text) :=
    not_hasComment_of_suffixes (suffix_settle rfl rfl rfl rfl) (suffix_settle rfl rfl rfl rfl) bare
  exact @not_hasComment_of_suffixes dropSemicolons dropSemicolons _
    (suffix_dropSemicolons (by decide) (by decide) (by decide))
    (suffix_dropSemicolons (by decide) (by decide) (by decide)) blanks

theorem isNormal_minifyText (text : List Char) : IsNormal (minifyText text) := by
  have squeeze := minifyText_eq_squeezed text
  have pairs : (minifyText text).IsChain SettledPair := by
    rw [squeeze]
    exact isChain_dropSemicolons (fun c pair => pair) (isChain_settled _)
  exact {
    uncommented := by
      rw [squeeze]
      exact not_hasComment_squeezed (not_hasComment_stripComments text)
    tight := pairs.imp fun a b pair => by
      constructor
      · rintro ⟨blank, mark⟩
        exact absurd mark (by simp [(pair.1 blank).2])
      · rintro ⟨mark, blank⟩
        exact absurd mark (by simp [(pair.2 blank).2])
    unended := by
      rw [squeeze]
      exact unended_dropSemicolons _
    spaces := by
      rw [squeeze]
      intro c member
      exact eq_space_of_mem_settle c ((dropSemicolons_sublist _).subset member)
    single := pairs.imp fun a b pair => by
      rintro ⟨first, second⟩
      exact absurd second (by simp [(pair.1 first).1])
    start := not_isBlank_of_mem_head?_trim
    stop := not_isBlank_of_mem_getLast?_trim }

/-- Minifying gives normal texts and leaves them alone. So its results are exactly the normal texts,
and minifying again changes nothing. -/
theorem minified_normalizes :
    (∀ css : String, IsNormal (minified css).toList) ∧
      (∀ css : String, IsNormal css.toList → minified css = css) ∧
      Set.range minified = {css | IsNormal css.toList} ∧
      ∀ css : String, minified (minified css) = minified css := by
  have normal (css : String) : IsNormal (minified css).toList := by
    rw [minified, String.toList_ofList]
    exact isNormal_minifyText css.toList
  have fixed (css : String) (already : IsNormal css.toList) : minified css = css := by
    rw [minified, minifyText_of_isNormal already, String.ofList_toList]
  refine ⟨normal, fixed, ?_, fun css => fixed _ (normal css)⟩
  ext css
  constructor
  · rintro ⟨source, rfl⟩
    exact normal source
  · intro already
    exact ⟨css, fixed css already⟩

theorem minified_normalizes_rule :
    IsNormal "a b{c:d}".toList ∧ minified "a b{c:d}" = "a b{c:d}" := by
  have characters : "a b{c:d}".toList = ['a', ' ', 'b', '{', 'c', ':', 'd', '}'] := by simp
  have normal : IsNormal "a b{c:d}".toList := by
    rw [characters]
    exact {
      uncommented := not_hasComment_of_not_opensComment (by decide)
      tight := by decide
      unended := by decide
      spaces := by simp [isBlank]
      single := by decide
      start := by simp [isBlank]
      stop := by simp [isBlank] }
  exact ⟨normal, minified_normalizes.2.1 _ normal⟩

end ThemeCss
