import ThemeCss.Proofs.Vendor.Match

/-! # Copies are put in declaration by declaration

No declaration reaches over a semicolon or a brace, and of what is in front of a text a rule sees no
more than whether a declaration may begin there. So a rule treats what is between delimiters on its
own. Passes of that kind can be put one behind the other, although each sees what the ones before it
have put in: delimiters stay where they are.
-/

namespace ThemeCss

/-- A pass over texts that treats the stretches between delimiters on their own. -/
structure Local (pass : List Char → List Char) : Prop where
  nil : pass [] = []
  blank : ∀ c text, isBlank c = true → pass (c :: text) = c :: pass text
  last : ∀ text, (pass text).getLast? = text.getLast?
  semicolon : ∀ first second, pass (first ++ ';' :: second) = pass (first ++ [';']) ++ pass second
  opening : ∀ first second, pass (first ++ '{' :: second) = pass first ++ '{' :: pass second
  closing : ∀ first second, (∀ c ∈ second.head?, isBlank c = true) →
    pass (first ++ '}' :: second) = pass first ++ '}' :: pass second
  quiet : ∀ text, ';' ∉ text → pass text = text

namespace Local

variable {first second pass : List Char → List Char}

theorem identity : Local id where
  nil := rfl
  blank _ _ _ := rfl
  last _ := rfl
  semicolon _ _ := by simp
  opening _ _ := rfl
  closing _ _ _ := rfl
  quiet _ _ := rfl

theorem head?_blank (isLocal : Local pass) {text : List Char}
    (blank : ∀ c ∈ text.head?, isBlank c = true) : ∀ c ∈ (pass text).head?, isBlank c = true := by
  cases text with
  | nil => rw [isLocal.nil]; exact blank
  | cons c rest =>
    rw [isLocal.blank c rest (blank c rfl)]
    exact blank

theorem comp (right : Local second) (left : Local first) : Local (second ∘ first) where
  nil := by rw [Function.comp_apply, left.nil, right.nil]
  blank c text blank := by
    simp only [Function.comp_apply, left.blank c text blank, right.blank c _ blank]
  last text := by rw [Function.comp_apply, right.last, left.last]
  semicolon front behind := by
    have ends : (first (front ++ [';'])).getLast? = some ';' := by simp [left.last]
    obtain ⟨before, same⟩ := List.getLast?_eq_some_iff.mp ends
    simp only [Function.comp_apply, left.semicolon front behind, same]
    simpa using right.semicolon before (first behind)
  opening front behind := by
    simp only [Function.comp_apply, left.opening, right.opening]
  closing front behind blank := by
    simp only [Function.comp_apply, left.closing front behind blank,
      right.closing _ _ (left.head?_blank blank)]
  quiet text absent := by
    rw [Function.comp_apply, left.quiet text absent, right.quiet text absent]

theorem foldl {α : Type} {step : List Char → α → List Char} {items : List α}
    (each : ∀ item ∈ items, Local (step · item)) : Local (items.foldl step) := by
  induction items with
  | nil => exact identity
  | cons item rest ih =>
    obtain ⟨single, others⟩ := List.forall_mem_cons.mp each
    exact (ih others).comp single

theorem blanks (isLocal : Local pass) {gap : List Char} (blank : IsBlankText gap)
    (text : List Char) : pass (gap ++ text) = gap ++ pass text := by
  induction gap with
  | nil => rfl
  | cons c rest ih =>
    obtain ⟨space, further⟩ := IsBlankText.cons_iff.mp blank
    rw [List.cons_append, isLocal.blank c _ space, ih further, List.cons_append]

end Local

namespace VendorRule

variable {rule : VendorRule} (wellFormed : rule.WellFormed)

include wellFormed

/-- Of what is in front of a text only one thing counts. -/
theorem rewrite_congr {before other : Option Char}
    (same : beginsDeclaration before = beginsDeclaration other) (text : List Char) :
    rule.rewrite before text = rule.rewrite other text := by
  rcases rule.match_cases text with rfl | ⟨c, rest, rfl, unmatched⟩ |
    ⟨declaration, rest, rfl, declares⟩
  · rw [rewrite_nil, rewrite_nil]
  · rw [rewrite_cons wellFormed unmatched, rewrite_cons wellFormed unmatched]
  · rw [rewrite_declaration wellFormed declares, rewrite_declaration wellFormed declares, same]

/-- Where no declaration begins nothing is put in. -/
theorem rewrite_eq_self {before : Option Char} {text : List Char}
    (misplaced : ∀ front declaration behind, text = front ++ (declaration ++ behind) →
      rule.Declares declaration → beginsDeclaration (front.getLast?.or before) = false) :
    rule.rewrite before text = text := by
  induction text using matchInduction wellFormed generalizing before with
  | nil => exact rewrite_nil rule before
  | cons c rest unmatched ih =>
    rw [rewrite_cons wellFormed unmatched, ih]
    rintro front declaration behind rfl declares
    have last := misplaced (c :: front) declaration behind rfl declares
    rw [List.getLast?_cons] at last
    cases front <;> simpa using last
  | declaration declaration rest declares ih =>
    have front : beginsDeclaration before = false := misplaced [] declaration rest rfl declares
    rw [rewrite_declaration wellFormed declares, front, ih]
    · rfl
    · rintro front inner behind rfl further
      have last := misplaced (declaration ++ front) inner behind (by simp) further
      rwa [List.getLast?_append, declares.getLast?, Option.or_assoc, Option.some_or] at last

/-- Two texts are rewritten on their own if no declaration reaches from one into the other. -/
theorem rewrite_append {first second : List Char}
    (apart : ∀ front behind, front ≠ [] → behind ≠ [] → front <:+ first → behind <+: second →
      ¬ rule.Declares (front ++ behind)) (before : Option Char) :
    rule.rewrite before (first ++ second) =
      rule.rewrite before first ++ rule.rewrite (first.getLast?.or before) second := by
  induction first using matchInduction wellFormed generalizing before with
  | nil => rw [rewrite_nil]; rfl
  | cons c rest unmatched ih =>
    have whole : rule.Unmatched (c :: (rest ++ second)) := by
      intro declaration behind declares same
      rw [← List.cons_append] at same
      rcases List.append_eq_append_iff.mp same with
        ⟨extra, reached, split⟩ | ⟨extra, inside, -⟩
      · by_cases empty : extra = []
        · exact unmatched declaration [] declares (by simp [reached, empty])
        · exact apart (c :: rest) extra (List.cons_ne_nil _ _) empty List.suffix_rfl
            ⟨behind, split.symm⟩ (reached ▸ declares)
      · exact unmatched declaration extra declares inside
    have further := ih (fun front behind left right suffix =>
      apart front behind left right (suffix.trans (List.suffix_cons c rest))) (some c)
    rw [List.cons_append, rewrite_cons wellFormed whole, further,
      rewrite_cons wellFormed unmatched, List.getLast?_cons]
    cases rest <;> simp
  | declaration declaration rest declares ih =>
    have further := ih (fun front behind left right suffix =>
      apart front behind left right (suffix.trans (List.suffix_append declaration rest))) (some ';')
    rw [List.append_assoc, rewrite_declaration wellFormed declares, further,
      rewrite_declaration wellFormed declares, List.append_assoc, List.getLast?_append,
      declares.getLast?, Option.or_assoc, Option.some_or]

/-- What is put in goes in front of something. -/
theorem getLast?_rewrite (before : Option Char) (text : List Char) :
    (rule.rewrite before text).getLast? = text.getLast? := by
  induction text using matchInduction wellFormed generalizing before with
  | nil => rw [rewrite_nil]
  | cons c rest unmatched ih =>
    rw [rewrite_cons wellFormed unmatched, List.getLast?_cons, List.getLast?_cons, ih]
  | declaration declaration rest declares ih =>
    have front : (if beginsDeclaration before then rule.expand declaration
        else declaration).getLast? = some ';' := by
      split
      · rw [expand, List.getLast?_append, declares.getLast?, Option.some_or]
      · exact declares.getLast?
    rw [rewrite_declaration wellFormed declares, List.getLast?_append, List.getLast?_append, ih,
      front, declares.getLast?]

/-- No declaration begins with a blank or with punctuation. -/
theorem unmatched_cons {c : Char} (other : isPropertyChar c = false) (rest : List Char) :
    rule.Unmatched (c :: rest) := by
  rintro declaration behind declares same
  obtain ⟨d, tail, rfl, letter⟩ := declares.exists_eq_cons wellFormed
  obtain ⟨rfl, -⟩ := List.cons.inj same
  rw [other] at letter
  contradiction

/-- A brace keeps what is on its two sides apart. -/
theorem rewrite_append_brace {brace : Char} (mark : isValueChar brace = false)
    (other : brace ≠ ';') (before : Option Char) (first second : List Char) :
    rule.rewrite before (first ++ brace :: second) =
      rule.rewrite before first ++ brace :: rule.rewrite (some brace) second := by
  have outside : isPropertyChar brace = false := by simp [isPropertyChar, mark]
  rw [rewrite_append wellFormed, rewrite_cons wellFormed (unmatched_cons wellFormed outside second)]
  rintro front behind - nonempty - start declares
  obtain ⟨inner, whole, plain⟩ := declares.exists_eq_concat wellFormed
  have member : brace ∈ front ++ behind := by
    obtain ⟨c, tail, rfl⟩ := List.exists_cons_of_ne_nil nonempty
    obtain ⟨rfl, -⟩ := List.cons_prefix_cons.mp start
    simp
  rw [whole, List.mem_append, List.mem_singleton] at member
  rcases member with inside | rfl
  · rw [plain brace inside] at mark
    contradiction
  · exact other rfl

theorem rewrite_append_semicolon (before : Option Char) (first second : List Char) :
    rule.rewrite before (first ++ ';' :: second) =
      rule.rewrite before (first ++ [';']) ++ rule.rewrite (some ';') second := by
  have whole : first ++ ';' :: second = (first ++ [';']) ++ second := by simp
  rw [whole, rewrite_append wellFormed]
  · simp
  · rintro front behind nonempty further suffix - declares
    obtain ⟨inner, same, plain⟩ := declares.exists_eq_concat wellFormed
    obtain ⟨start, rfl⟩ : ∃ start, front = start ++ [';'] := by
      obtain ⟨skipped, ends⟩ := suffix
      have last := congrArg List.getLast? ends
      rw [List.getLast?_append_of_ne_nil _ nonempty, List.getLast?_concat] at last
      exact List.getLast?_eq_some_iff.mp last
    have cut := congrArg List.dropLast same
    rw [List.dropLast_append_of_ne_nil further, List.dropLast_concat] at cut
    have member : ';' ∈ inner := by simp [← cut]
    exact absurd (plain ';' member) (by decide)

/-- Where a declaration may begin the text is rewritten as if it stood alone. -/
theorem rewrite_eq_apply {before : Option Char} (opens : beginsDeclaration before = true)
    (text : List Char) : rule.rewrite before text = rule.apply text :=
  rewrite_congr wellFormed opens text

theorem local_apply : Local rule.apply where
  nil := rewrite_nil rule none
  blank c text blank := by
    have outside : isPropertyChar c = false := by simp [isPropertyChar, blank]
    rw [apply_eq_rewrite, rewrite_cons wellFormed (unmatched_cons wellFormed outside text),
      rewrite_eq_apply wellFormed (by simp [beginsDeclaration, blank])]
  last text := getLast?_rewrite wellFormed none text
  semicolon first second := by
    rw [apply_eq_rewrite, rewrite_append_semicolon wellFormed, rewrite_eq_apply wellFormed rfl,
      rewrite_eq_apply wellFormed rfl]
  opening first second := by
    rw [apply_eq_rewrite, rewrite_append_brace wellFormed rfl (by decide),
      rewrite_eq_apply wellFormed rfl, rewrite_eq_apply wellFormed rfl]
  closing first second blank := by
    rw [apply_eq_rewrite, rewrite_append_brace wellFormed rfl (by decide),
      rewrite_eq_apply wellFormed rfl]
    cases second with
    | nil => rw [rewrite_nil, apply_eq_rewrite rule [], rewrite_nil]
    | cons c rest =>
      have outside : isPropertyChar c = false := by simp [isPropertyChar, blank c rfl]
      have unmatched := unmatched_cons wellFormed outside rest
      rw [apply_eq_rewrite rule (c :: rest), rewrite_cons wellFormed unmatched,
        rewrite_cons wellFormed unmatched]
  quiet text absent := by
    apply rewrite_eq_self wellFormed
    rintro front declaration behind rfl declares
    obtain ⟨inner, rfl, -⟩ := declares.exists_eq_concat wellFormed
    simp at absent

end VendorRule

/-- All entries of the table are written with words. -/
theorem wellFormed_of_mem_vendorRules : ∀ rule ∈ vendorRules, rule.WellFormed := by
  have property : ∀ rule ∈ vendorRules, IsWord rule.property := by
    simp [vendorRules, IsWord, isPropertyChar, isValueChar, isBlank]
  have value : ∀ rule ∈ vendorRules, rule.value.WellFormed := by
    simp [vendorRules, IsWord, isPropertyChar, isValueChar, isBlank, DeclaredValue.WellFormed]
  intro rule member
  exact ⟨property rule member, value rule member⟩

/-- The whole table is one local pass. -/
theorem local_addVendorCopies : Local addVendorCopies :=
  Local.foldl fun rule member => VendorRule.local_apply (wellFormed_of_mem_vendorRules rule member)

/-- Delimiters cut a text into parts that get their copies on their own, whatever stands in them. A
semicolon belongs to the part in front of it. A closing brace cuts where the text ends or goes on
with a blank, since no declaration may begin directly behind it. -/
theorem withVendorCopies_delimited (first second : String) :
    withVendorCopies (first ++ ";" ++ second) =
        withVendorCopies (first ++ ";") ++ withVendorCopies second ∧
      withVendorCopies (first ++ "\x7b" ++ second) =
        withVendorCopies first ++ "\x7b" ++ withVendorCopies second ∧
      ((second = "" ∨ ∃ c rest, second.toList = c :: rest ∧ isBlank c = true) →
        withVendorCopies (first ++ "\x7d" ++ second) =
          withVendorCopies first ++ "\x7d" ++ withVendorCopies second) := by
  refine ⟨?_, ?_, ?_⟩
  · rw [← String.toList_inj]
    simpa [withVendorCopies] using local_addVendorCopies.semicolon first.toList second.toList
  · rw [← String.toList_inj]
    simpa [withVendorCopies] using local_addVendorCopies.opening first.toList second.toList
  · intro blank
    have start : ∀ c ∈ second.toList.head?, isBlank c = true := by
      rcases blank with rfl | ⟨c, rest, letters, blank⟩
      · simp
      · simpa [letters] using blank
    rw [← String.toList_inj]
    simpa [withVendorCopies] using local_addVendorCopies.closing first.toList second.toList start

/-- A rule that ends without a semicolon, in front of a line of its own. -/
theorem withVendorCopies_delimited_rows :
    (∃ c rest, "\n.b \x7b transform:y; \x7d".toList = c :: rest ∧ isBlank c = true) ∧
      withVendorCopies (".a \x7b transform:x" ++ "\x7d" ++ "\n.b \x7b transform:y; \x7d") =
        withVendorCopies ".a \x7b transform:x" ++ "\x7d" ++
          withVendorCopies "\n.b \x7b transform:y; \x7d" := by
  have blank : ∃ c rest, "\n.b \x7b transform:y; \x7d".toList = c :: rest ∧ isBlank c = true :=
    ⟨'\n', ".b \x7b transform:y; \x7d".toList, rfl, rfl⟩
  exact ⟨blank, (withVendorCopies_delimited _ _).2.2 (.inr blank)⟩

end ThemeCss
