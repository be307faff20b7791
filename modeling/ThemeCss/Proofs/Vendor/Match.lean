import ThemeCss.Proofs.Text.Characters
import ThemeCss.Sheet.Vendor

/-! # What a vendor rule matches

A match is a whole declaration: the property, a colon, a value that the rule admits and the first
semicolon behind it. So a text falls apart into declarations of the rule and single characters, and
an induction along that view is all that later proofs need to know of the search.
-/

namespace ThemeCss

/-- Whether a character may stand in the name of a property or in a keyword. -/
def isPropertyChar (c : Char) : Bool := isValueChar c && !isBlank c && c != ':'

/-- A word without blanks, punctuation or braces. -/
def IsWord (text : String) : Prop := text ≠ "" ∧ ∀ c ∈ text.toList, isPropertyChar c = true

theorem isBlank_eq_false_of_isPropertyChar {c : Char} (name : isPropertyChar c = true) :
    isBlank c = false := by
  simp only [isPropertyChar, Bool.and_eq_true, Bool.not_eq_true'] at name
  exact name.1.2

theorem isValueChar_of_isPropertyChar {c : Char} (name : isPropertyChar c = true) :
    isValueChar c = true := by
  simp only [isPropertyChar, Bool.and_eq_true] at name
  exact name.1.1

theorem isValueChar_of_isBlank {c : Char} (blank : isBlank c = true) : isValueChar c = true := by
  rw [isValueChar]
  simp only [Bool.and_eq_true, bne_iff_ne]
  refine ⟨⟨?_, ?_⟩, ?_⟩ <;>
  · rintro rfl
    contradiction

theorem IsWord.exists_toList_eq_cons {text : String} (word : IsWord text) :
    ∃ c rest, text.toList = c :: rest ∧ isPropertyChar c = true := by
  obtain ⟨c, rest, letters⟩ : ∃ c rest, text.toList = c :: rest :=
    List.exists_cons_of_ne_nil fun empty => word.1 (String.toList_eq_nil_iff.mp empty)
  exact ⟨c, rest, letters, word.2 c (letters ▸ List.mem_cons_self)⟩

namespace DeclaredValue

/-- Whether a value, with the blanks around it, is one of those for which a declaration is copied. -/
def admits (value : DeclaredValue) (shown : List Char) : Bool :=
  shown.all isValueChar &&
    match value with
    | anything => true
    | keyword word => trim shown == word.toList

/-- A keyword is a word. -/
def WellFormed : DeclaredValue → Prop
  | anything => True
  | keyword word => IsWord word

theorem isValueChar_of_admits {value : DeclaredValue} {shown : List Char}
    (admitted : value.admits shown = true) : ∀ c ∈ shown, isValueChar c = true := by
  rw [admits.eq_def, Bool.and_eq_true] at admitted
  exact List.all_eq_true.mp admitted.1

theorem admits_anything_iff {shown : List Char} :
    anything.admits shown = true ↔ ∀ c ∈ shown, isValueChar c = true := by
  simp [admits]

/-- A keyword may stand among blanks. -/
theorem admits_keyword_iff {word : String} (name : IsWord word) {shown : List Char} :
    (keyword word).admits shown = true ↔ ∃ front back, IsBlankText front ∧ IsBlankText back ∧
      shown = front ++ (word.toList ++ back) := by
  rw [admits, Bool.and_eq_true, beq_iff_eq]
  constructor
  · rintro ⟨-, same⟩
    obtain ⟨front, back, left, right, whole⟩ := exists_eq_trim shown
    exact ⟨front, back, left, right, same ▸ whole⟩
  · rintro ⟨front, back, left, right, rfl⟩
    have solid : ∀ c ∈ word.toList, isBlank c = false :=
      fun c member => isBlank_eq_false_of_isPropertyChar (name.2 c member)
    constructor
    · rw [List.all_append, List.all_append, Bool.and_eq_true, Bool.and_eq_true]
      refine ⟨?_, ?_, ?_⟩ <;> rw [List.all_eq_true] <;> intro c member
      · exact isValueChar_of_isBlank (left c member)
      · exact isValueChar_of_isPropertyChar (name.2 c member)
      · exact isValueChar_of_isBlank (right c member)
    · rw [trim_blank_append left, trim_append_blank _ right, trim_of_not_isBlank solid]

end DeclaredValue

section Cut

variable {p : Char → Bool} {first rest : List Char} {c : Char}

theorem drop_length_takeWhile (p : Char → Bool) (text : List Char) :
    text.drop (text.takeWhile p).length = text.dropWhile p := by
  induction text with
  | nil => rfl
  | cons c rest ih =>
    cases inside : p c with
    | false => rw [List.takeWhile_cons, List.dropWhile_cons, inside]; rfl
    | true => rw [List.takeWhile_cons, List.dropWhile_cons, inside]; exact ih

theorem takeWhile_append_cons (inside : ∀ d ∈ first, p d = true) (outside : p c = false) :
    (first ++ c :: rest).takeWhile p = first := by
  simp [List.takeWhile_append_of_pos inside, outside]

theorem dropWhile_append_cons (inside : ∀ d ∈ first, p d = true) (outside : p c = false) :
    (first ++ c :: rest).dropWhile p = c :: rest := by
  simp [List.dropWhile_append_of_pos inside, outside]

end Cut

namespace DeclaredValue

variable {text : List Char} {length : Nat}

theorem length?_anything_eq_some_iff : anything.length? text = some length ↔
    ∃ shown rest, anything.admits shown = true ∧ text = shown ++ ';' :: rest ∧
      length = shown.length := by
  simp only [length?, drop_length_takeWhile, admits_anything_iff]
  constructor
  · intro found
    split at found
    · next rest same =>
      refine ⟨text.takeWhile isValueChar, rest, fun c => List.mem_takeWhile_imp, ?_,
        (Option.some.inj found).symm⟩
      rw [← same, List.takeWhile_append_dropWhile]
    · contradiction
  · rintro ⟨shown, rest, inside, rfl, rfl⟩
    rw [takeWhile_append_cons inside rfl, dropWhile_append_cons inside rfl]
    rfl

theorem length?_keyword_eq_some_iff {word : String} (name : IsWord word) :
    (keyword word).length? text = some length ↔
      ∃ shown rest, (keyword word).admits shown = true ∧ text = shown ++ ';' :: rest ∧
        length = shown.length := by
  simp only [length?, drop_length_takeWhile, admits_keyword_iff name]
  constructor
  · intro found
    split at found
    · contradiction
    · next behind same =>
      split at found
      · next rest semicolon =>
        have behindWord := List.isPrefixOf?_eq_some_iff_append_eq.mp same
        refine ⟨text.takeWhile isBlank ++ (word.toList ++ behind.takeWhile isBlank), rest,
          ⟨_, _, fun c => List.mem_takeWhile_imp, fun c => List.mem_takeWhile_imp, rfl⟩, ?_, ?_⟩
        · calc
            text = text.takeWhile isBlank ++ text.dropWhile isBlank :=
              List.takeWhile_append_dropWhile.symm
            _ = text.takeWhile isBlank ++ (word.toList ++
                (behind.takeWhile isBlank ++ behind.dropWhile isBlank)) := by
              rw [← behindWord, List.takeWhile_append_dropWhile]
            _ = text.takeWhile isBlank ++ (word.toList ++ behind.takeWhile isBlank) ++
                ';' :: rest := by
              simp [semicolon]
        · rw [← Option.some.inj found]
          simp [Nat.add_assoc, ← String.length_toList]
      · contradiction
  · rintro ⟨shown, rest, ⟨front, back, left, right, rfl⟩, rfl, rfl⟩
    obtain ⟨first, others, letters, letter⟩ := name.exists_toList_eq_cons
    have solid : isBlank first = false := isBlank_eq_false_of_isPropertyChar letter
    have whole : front ++ (word.toList ++ back) ++ ';' :: rest =
        front ++ first :: (others ++ back ++ ';' :: rest) := by simp [letters]
    have behindWord : word.toList.isPrefixOf? (first :: (others ++ back ++ ';' :: rest)) =
        some (back ++ ';' :: rest) :=
      List.isPrefixOf?_eq_some_iff_append_eq.mpr (by simp [letters])
    rw [whole, takeWhile_append_cons left solid, dropWhile_append_cons left solid, behindWord]
    have semicolon : isBlank ';' = false := rfl
    simp only [takeWhile_append_cons right semicolon, dropWhile_append_cons right semicolon]
    simp [Nat.add_assoc, ← String.length_toList]

/-- The length that is found is that of an admitted value in front of a semicolon. -/
theorem length?_eq_some_iff {value : DeclaredValue} (wellFormed : value.WellFormed) :
    value.length? text = some length ↔
      ∃ shown rest, value.admits shown = true ∧ text = shown ++ ';' :: rest ∧
        length = shown.length := by
  cases value with
  | anything => exact length?_anything_eq_some_iff
  | keyword word => exact length?_keyword_eq_some_iff wellFormed

end DeclaredValue

namespace VendorRule

/-- A text that is a declaration for a rule, from its property to its semicolon. -/
def Declares (rule : VendorRule) (text : List Char) : Prop :=
  ∃ shown, rule.value.admits shown = true ∧
    text = rule.property.toList ++ ':' :: (shown ++ [';'])

/-- Properties and keywords are words. -/
structure WellFormed (rule : VendorRule) : Prop where
  property : IsWord rule.property
  value : rule.value.WellFormed

/-- A match is a declaration at the front. -/
theorem pattern_eq_some_iff {rule : VendorRule} (wellFormed : rule.WellFormed) {text : List Char}
    {more : Nat} :
    rule.pattern text = some more ↔
      ∃ declaration rest, rule.Declares declaration ∧ text = declaration ++ rest ∧
        declaration.length = more + 1 := by
  rw [pattern, declarationPattern]
  constructor
  · intro found
    split at found
    · contradiction
    · next behind same =>
      obtain ⟨length, measured, rfl⟩ := Option.map_eq_some_iff.mp found
      obtain ⟨shown, rest, admitted, rfl, rfl⟩ :=
        (DeclaredValue.length?_eq_some_iff wellFormed.value).mp measured
      have whole := List.isPrefixOf?_eq_some_iff_append_eq.mp same
      refine ⟨_, rest, ⟨shown, admitted, rfl⟩, ?_, ?_⟩
      · rw [← whole]
        simp
      · simp
        omega
  · rintro ⟨_, rest, ⟨shown, admitted, rfl⟩, rfl, same⟩
    have front : (rule.property.toList ++ [':']).isPrefixOf?
        (rule.property.toList ++ ':' :: (shown ++ [';']) ++ rest) = some (shown ++ ';' :: rest) :=
      List.isPrefixOf?_eq_some_iff_append_eq.mpr (by simp)
    have measured : rule.value.length? (shown ++ ';' :: rest) = some shown.length :=
      (DeclaredValue.length?_eq_some_iff wellFormed.value).mpr ⟨shown, rest, admitted, rfl, rfl⟩
    simp only [front, measured, Option.map_some, Option.some.injEq]
    simp at same ⊢
    omega

/-- Neither a semicolon nor a brace stands in a declaration before its end. -/
theorem Declares.exists_eq_concat {rule : VendorRule} (wellFormed : rule.WellFormed)
    {declaration : List Char} (declares : rule.Declares declaration) :
    ∃ inner, declaration = inner ++ [';'] ∧ ∀ c ∈ inner, isValueChar c = true := by
  obtain ⟨shown, admitted, rfl⟩ := declares
  refine ⟨rule.property.toList ++ ':' :: shown, by simp, ?_⟩
  rw [List.forall_mem_append, List.forall_mem_cons]
  exact ⟨fun c member => isValueChar_of_isPropertyChar (wellFormed.property.2 c member), rfl,
    DeclaredValue.isValueChar_of_admits admitted⟩

theorem Declares.exists_eq_cons {rule : VendorRule} (wellFormed : rule.WellFormed)
    {declaration : List Char} (declares : rule.Declares declaration) :
    ∃ c tail, declaration = c :: tail ∧ isPropertyChar c = true := by
  obtain ⟨shown, -, rfl⟩ := declares
  obtain ⟨c, tail, letters, letter⟩ := wellFormed.property.exists_toList_eq_cons
  exact ⟨c, tail ++ ':' :: (shown ++ [';']), by simp [letters], letter⟩

theorem Declares.getLast? {rule : VendorRule} {declaration : List Char}
    (declares : rule.Declares declaration) : declaration.getLast? = some ';' := by
  obtain ⟨shown, -, rfl⟩ := declares
  simp [List.getLast?_append, List.getLast?_cons]

/-- No declaration of a rule is at the front of a text. -/
def Unmatched (rule : VendorRule) (text : List Char) : Prop :=
  ∀ declaration rest, rule.Declares declaration → text ≠ declaration ++ rest

/-- A text begins with a declaration of a rule, or with a character where none begins. -/
theorem match_cases (rule : VendorRule) (text : List Char) :
    text = [] ∨ (∃ c rest, text = c :: rest ∧ rule.Unmatched (c :: rest)) ∨
      ∃ declaration rest, text = declaration ++ rest ∧ rule.Declares declaration := by
  cases text with
  | nil => exact .inl rfl
  | cons c rest =>
    by_cases unmatched : rule.Unmatched (c :: rest)
    · exact .inr (.inl ⟨c, rest, rfl, unmatched⟩)
    · simp only [Unmatched, ne_eq, not_forall, not_not] at unmatched
      obtain ⟨declaration, rest, declares, whole⟩ := unmatched
      exact .inr (.inr ⟨declaration, rest, whole, declares⟩)

theorem pattern_eq_none_iff {rule : VendorRule} (wellFormed : rule.WellFormed)
    {text : List Char} : rule.pattern text = none ↔ rule.Unmatched text := by
  constructor
  · rintro none declaration rest declares rfl
    obtain ⟨c, tail, rfl, -⟩ := declares.exists_eq_cons wellFormed
    have found : rule.pattern (c :: tail ++ rest) = some tail.length :=
      (pattern_eq_some_iff wellFormed).mpr ⟨_, rest, declares, rfl, rfl⟩
    rw [none] at found
    contradiction
  · intro unmatched
    cases found : rule.pattern text with
    | none => rfl
    | some more =>
      obtain ⟨declaration, rest, declares, whole, -⟩ := (pattern_eq_some_iff wellFormed).mp found
      exact absurd whole (unmatched declaration rest declares)

/-- What a rule makes of a text that stands behind the character `before`. -/
def rewrite (rule : VendorRule) (before : Option Char) (text : List Char) : List Char :=
  (piecesBehind rule.pattern before text).flatMap rule.rewritePiece

theorem apply_eq_rewrite (rule : VendorRule) (text : List Char) :
    rule.apply text = rule.rewrite none text := rfl

section Rewriting

variable {rule : VendorRule} (wellFormed : rule.WellFormed)

theorem rewrite_nil (rule : VendorRule) (before : Option Char) : rule.rewrite before [] = [] := by
  rw [rewrite, piecesBehind_nil]
  rfl

include wellFormed

theorem rewrite_cons {c : Char} {rest : List Char} (unmatched : rule.Unmatched (c :: rest))
    (before : Option Char) : rule.rewrite before (c :: rest) = c :: rule.rewrite (some c) rest := by
  rw [rewrite, piecesBehind_cons_of_none before ((pattern_eq_none_iff wellFormed).mpr unmatched)]
  rfl

theorem rewrite_declaration {declaration : List Char} (declares : rule.Declares declaration)
    (before : Option Char) (rest : List Char) :
    rule.rewrite before (declaration ++ rest) =
      (if beginsDeclaration before then rule.expand declaration else declaration) ++
        rule.rewrite (some ';') rest := by
  obtain ⟨c, tail, rfl, -⟩ := declares.exists_eq_cons wellFormed
  have ends := declares.getLast?
  have found : rule.pattern (c :: (tail ++ rest)) = some tail.length :=
    (pattern_eq_some_iff wellFormed).mpr ⟨_, rest, declares, rfl, rfl⟩
  have last : tail.getLastD c = ';' := by
    simpa [List.getLast?_cons, List.getLastD_eq_getLast?] using ends
  rw [rewrite, List.cons_append, piecesBehind_cons_of_some before found, List.take_left',
    List.drop_left', last]
  · rfl
  · rfl
  · rfl

/-- A text falls apart into declarations of a rule and single characters. -/
@[elab_as_elim]
theorem matchInduction {motive : List Char → Prop} (nil : motive [])
    (cons : ∀ c rest, rule.Unmatched (c :: rest) → motive rest → motive (c :: rest))
    (declaration : ∀ declaration rest, rule.Declares declaration → motive rest →
      motive (declaration ++ rest))
    (text : List Char) : motive text := by
  induction size : text.length using Nat.strongRecOn generalizing text with
  | ind bound ih =>
    subst size
    rcases rule.match_cases text with rfl | ⟨c, rest, rfl, unmatched⟩ |
      ⟨front, behind, rfl, declares⟩
    · exact nil
    · exact cons c rest unmatched (ih rest.length (by simp) rest rfl)
    · obtain ⟨_, _, rfl, -⟩ := declares.exists_eq_cons wellFormed
      exact declaration _ behind declares (ih behind.length (by simp) behind rfl)

end Rewriting

end VendorRule

end ThemeCss
