import Mathlib
import ThemeCss.Sheet.ClassName

/-! # Class names in selectors are found again

Characters are escaped one by one, and from the text of an escape one can tell where it ends and what
it stands for. So different names are escaped differently, and a search for classes takes each name
out of a selector whole and stops behind it.
-/

namespace ThemeCss

/-- Hexadecimal digits need no escape. -/
theorem isNameChar_of_hexDigit? {c : Char} (digit : (hexDigit? c).isSome = true) :
    isNameChar c = true := by
  simp only [hexDigit?, Char.le_def, UInt32.le_iff_toNat_le] at digit
  simp only [isNameChar, Char.isAlphanum, Char.isAlpha, Char.isUpper, Char.isLower, Char.isDigit,
    Bool.or_eq_true, Bool.and_eq_true, decide_eq_true_eq, ge_iff_le, UInt32.le_iff_toNat_le]
  split at digit
  · next low => exact .inl (.inl (.inr low))
  · split at digit
    · next low => exact .inl (.inl (.inl (.inr ⟨low.1, low.2.trans (by decide)⟩)))
    · split at digit
      · next high => exact .inl (.inl (.inl (.inl ⟨high.1, high.2.trans (by decide)⟩)))
      · contradiction

/-- The first character of a name, as it stands in a selector. -/
def escapeFirstChar (c : Char) : List Char :=
  if c.isDigit then ['\\', '3', c, ' '] else escapeNameChar c

theorem digitChar_of_isDigit {c : Char} (digit : c.isDigit = true) :
    Nat.digitChar (c.toNat / 16) = '3' ∧ Nat.digitChar (c.toNat % 16) = c := by
  have low : c.toNat ∈ (List.range 10).map (48 + ·) := by
    simp only [Char.isDigit, Bool.and_eq_true, decide_eq_true_eq, ge_iff_le,
      UInt32.le_iff_toNat_le] at digit
    have least : 48 ≤ c.toNat := digit.1
    have most : c.toNat ≤ 57 := digit.2
    exact List.mem_map.mpr ⟨c.toNat - 48, List.mem_range.mpr (by omega), by omega⟩
  obtain ⟨n, small, same⟩ := List.mem_map.mp low
  have letter : c = Char.ofNat (48 + n) := by rw [same, Char.ofNat_toNat]
  subst letter
  have table : ∀ n ∈ List.range 10, Nat.digitChar ((Char.ofNat (48 + n)).toNat / 16) = '3' ∧
      Nat.digitChar ((Char.ofNat (48 + n)).toNat % 16) = Char.ofNat (48 + n) := by decide
  exact table n small

theorem escapeName_cons (c : Char) (rest : List Char) :
    escapeName (c :: rest) = escapeFirstChar c ++ rest.flatMap escapeNameChar := by
  rw [escapeName, escapeFirstChar]
  split
  · next digit =>
    obtain ⟨high, low⟩ := digitChar_of_isDigit digit
    rw [high, low]
  · rfl

/-- The text of an escape tells which character it stands for and where it ends. -/
theorem escapeNameChar_append_inj {c d : Char} {first second : List Char}
    (same : escapeNameChar c ++ first = escapeNameChar d ++ second) : c = d ∧ first = second := by
  have backslash : isNameChar '\\' = false := by decide
  unfold escapeNameChar at same
  split at same
  · next plain =>
    split at same
    · exact List.cons.inj same
    · obtain ⟨rfl, -⟩ := List.cons.inj same
      simp [backslash] at plain
  · split at same
    · next plain =>
      obtain ⟨rfl, -⟩ := List.cons.inj same
      simp [backslash] at plain
    · simpa using same

theorem escapeFirstChar_append_inj {c d : Char} {first second : List Char}
    (same : escapeFirstChar c ++ first = escapeFirstChar d ++ second) :
    c = d ∧ first = second := by
  -- A digit is written behind a backslash and a `3`, which no other escape has behind its backslash.
  have apart {digit c : Char} {first second : List Char} :
      ['\\', '3', digit, ' '] ++ first ≠ escapeNameChar c ++ second := by
    intro same
    unfold escapeNameChar at same
    split at same
    · next plain =>
      obtain ⟨rfl, -⟩ := List.cons.inj same
      exact absurd plain (by decide)
    · next other =>
      obtain ⟨rfl, -⟩ := List.cons.inj (List.cons.inj same).2
      exact other (by decide)
  unfold escapeFirstChar at same
  split at same
  · split at same
    · simpa using same
    · exact absurd same apart
  · split at same
    · exact absurd same.symm apart
    · exact escapeNameChar_append_inj same

theorem escapeNameChar_ne_nil (c : Char) : escapeNameChar c ≠ [] := by
  unfold escapeNameChar
  split <;> exact List.cons_ne_nil _ _

/-- Escaping makes a name no shorter. -/
theorem length_le_length_escapeName (name : List Char) : name.length ≤ (escapeName name).length := by
  have rest (more : List Char) : more.length ≤ (more.flatMap escapeNameChar).length := by
    induction more with
    | nil => exact Nat.le_refl _
    | cons c more ih =>
      have positive := List.length_pos_of_ne_nil (escapeNameChar_ne_nil c)
      rw [List.flatMap_cons, List.length_append, List.length_cons]
      omega
  cases name with
  | nil => exact Nat.le_refl _
  | cons c more =>
    have first : 0 < (escapeFirstChar c).length := by
      rw [escapeFirstChar]
      split
      · exact Nat.succ_pos _
      · exact List.length_pos_of_ne_nil (escapeNameChar_ne_nil c)
    have behind := rest more
    rw [escapeName_cons, List.length_append, List.length_cons]
    omega

theorem mem_escapeNameChar (c : Char) : c ∈ escapeNameChar c := by
  rw [escapeNameChar]
  split <;> simp

/-- Escapes keep all characters of a name but for a digit in front. -/
theorem mem_escapeName {name : List Char} {c : Char} (member : c ∈ name)
    (other : c.isDigit = false) : c ∈ escapeName name := by
  cases name with
  | nil => contradiction
  | cons first rest =>
    rw [escapeName, List.mem_append]
    rcases List.mem_cons.mp member with rfl | behind
    · left
      simp [other, mem_escapeNameChar]
    · exact .inr (List.mem_flatMap.mpr ⟨c, behind, mem_escapeNameChar c⟩)

theorem flatMap_escapeNameChar_injective : Function.Injective (List.flatMap escapeNameChar) := by
  intro first second same
  induction first generalizing second with
  | nil =>
    cases second with
    | nil => rfl
    | cons d further => simp [escapeNameChar_ne_nil] at same
  | cons c rest ih =>
    cases second with
    | nil => simp [escapeNameChar_ne_nil] at same
    | cons d further =>
      obtain ⟨rfl, others⟩ := escapeNameChar_append_inj same
      rw [ih others]

/-- Different names are escaped differently. -/
theorem escapeName_injective : Function.Injective escapeName := by
  have front (c : Char) (rest : List Char) : escapeName (c :: rest) ≠ [] := by
    rw [escapeName_cons, escapeFirstChar]
    split
    · exact List.cons_ne_nil _ _
    · simp [escapeNameChar_ne_nil]
  intro first second same
  cases first with
  | nil =>
    cases second with
    | nil => rfl
    | cons d further => exact absurd same.symm (front d further)
  | cons c rest =>
    cases second with
    | nil => exact absurd same (front c rest)
    | cons d further =>
      rw [escapeName_cons, escapeName_cons] at same
      obtain ⟨rfl, others⟩ := escapeFirstChar_append_inj same
      rw [flatMap_escapeNameChar_injective others]

theorem injective_escapeClass : Function.Injective escapeClass := by
  intro first second same
  exact String.toList_inj.mp (escapeName_injective (String.ofList_inj.mp same))

/-- An escape is read up to its end, whatever stands behind it. -/
theorem nameCharLength?_escapeNameChar {c : Char} (line : c ≠ '\n') (first : Bool)
    (plain : first = true → c.isDigit = false) (behind : List Char) :
    nameCharLength? first (escapeNameChar c ++ behind) = some (escapeNameChar c).length := by
  unfold escapeNameChar
  split
  · next named =>
    have other : c ≠ '\\' := by
      rintro rfl
      exact absurd named (by decide)
    have reads : (c.isAlpha || c == '-' || c == '_' || (!first && c.isDigit)) = true := by
      simp only [isNameChar, Char.isAlphanum, Bool.or_eq_true] at named
      cases first with
      | false => simp only [Bool.not_false, Bool.true_and, Bool.or_eq_true]; tauto
      | true => simp only [plain rfl, Bool.or_eq_true] at named ⊢; tauto
    unfold nameCharLength?
    split
    · next same => exact absurd (List.cons.inj same).1 other
    · next same =>
      obtain ⟨rfl, -⟩ := List.cons.inj same
      exact if_pos reads
    · next same => exact absurd same (List.cons_ne_nil _ _)
  · next other =>
    have letter : (hexDigit? c).isSome = false :=
      Bool.eq_false_iff.mpr fun digit => other (isNameChar_of_hexDigit? digit)
    have digits : ((c :: behind).take 6).takeWhile (fun d => (hexDigit? d).isSome) = [] := by
      rw [List.take_succ_cons, List.takeWhile_cons_of_neg (by simp [letter])]
    have length : escapeLength? (c :: behind) = some 1 := by
      rw [escapeLength?, digits]
      exact if_neg line
    change (escapeLength? (c :: behind)).map (· + 1) = some 2
    rw [length]
    rfl

theorem nameCharLength?_escapeFirstChar {c : Char} (line : c ≠ '\n') (behind : List Char) :
    nameCharLength? true (escapeFirstChar c ++ behind) = some (escapeFirstChar c).length := by
  unfold escapeFirstChar
  split
  · next digit =>
    have value : (hexDigit? c).isSome = true := by
      simp only [Char.isDigit, Bool.and_eq_true, decide_eq_true_eq, ge_iff_le] at digit
      have low : '0' ≤ c ∧ c ≤ '9' := digit
      simp [hexDigit?, low]
    have digits : (('3' :: c :: ' ' :: behind).take 6).takeWhile
        (fun d => (hexDigit? d).isSome) = ['3', c] := by
      simp only [List.take_succ_cons]
      rw [List.takeWhile_cons_of_pos rfl,
        List.takeWhile_cons_of_pos (p := fun d => (hexDigit? d).isSome) value,
        List.takeWhile_cons_of_neg (by decide)]
    have length : escapeLength? ('3' :: c :: ' ' :: behind) = some 3 := by
      rw [escapeLength?, digits]
      rfl
    change (escapeLength? ('3' :: c :: ' ' :: behind)).map (· + 1) = some 4
    rw [length]
    rfl
  · next other =>
    exact nameCharLength?_escapeNameChar line true (fun _ => Bool.eq_false_iff.mpr other) behind

/-- A name is read up to its end if what stands behind it cannot go on with it. -/
theorem nameLength_flatMap_escapeNameChar {rest : List Char} (lines : '\n' ∉ rest)
    {behind : List Char} (stops : nameCharLength? false behind = none) (passed : Nat) :
    nameLength passed (rest.flatMap escapeNameChar ++ behind) =
      passed + (rest.flatMap escapeNameChar).length := by
  induction rest generalizing passed with
  | nil =>
    cases behind with
    | nil => simp [nameLength]
    | cons d further => simp [nameLength, stops]
  | cons c rest ih =>
    obtain ⟨line, others⟩ := not_or.mp (List.mem_cons.not.mp lines)
    have reads := nameCharLength?_escapeNameChar (Ne.symm line) false (by simp)
      (rest.flatMap escapeNameChar ++ behind)
    obtain ⟨d, more, escape⟩ := List.exists_cons_of_ne_nil (escapeNameChar_ne_nil c)
    rw [List.flatMap_cons, List.append_assoc, List.length_append]
    rw [escape, List.cons_append] at reads ⊢
    simp only [nameLength, reads, List.length_cons, Nat.add_sub_cancel, List.drop_left, ih others]
    omega

/-- A name that can be read from a selector: it is not empty and has no line break. -/
def IsClassName (name : String) : Prop := name ≠ "" ∧ '\n' ∉ name.toList

instance (name : String) : Decidable (IsClassName name) := inferInstanceAs (Decidable (_ ∧ _))

theorem classPattern_classSelector {name : String} (named : IsClassName name) {behind : List Char}
    (stops : nameCharLength? false behind = none) :
    classPattern ((classSelector name).toList ++ behind) =
      some (escapeName name.toList).length := by
  obtain ⟨nonempty, lines⟩ := named
  obtain ⟨c, rest, letters⟩ := List.exists_cons_of_ne_nil
    (fun empty => nonempty (String.toList_eq_nil_iff.mp empty))
  rw [letters] at lines
  obtain ⟨line, others⟩ := not_or.mp (List.mem_cons.not.mp lines)
  have dotted : (classSelector name).toList ++ behind =
      '.' :: (escapeFirstChar c ++ (rest.flatMap escapeNameChar ++ behind)) := by
    simp [classSelector, escapeClass, letters, escapeName_cons]
  rw [dotted, letters, escapeName_cons, classPattern,
    nameCharLength?_escapeFirstChar (Ne.symm line), Option.map_some, List.drop_left,
    nameLength_flatMap_escapeNameChar others stops, List.length_append]

/-- The selector has exactly these classes, in this order, whatever stands in front of it. -/
def HasClasses (selector : List Char) (names : List String) : Prop :=
  ∀ before, (piecesBehind classPattern before selector).filterMap (fun
    | .plain _ => none
    | .hit _ text => some (String.ofList (text.drop 1))) = names.map escapeClass

namespace HasClasses

theorem classesIn {selector : List Char} {names : List String} (has : HasClasses selector names) :
    classesIn selector = names.map escapeClass := has none

theorem nil : HasClasses [] [] := fun before => by rw [piecesBehind_nil]; rfl

variable {behind : List Char} {names : List String} (has : HasClasses behind names)

include has

theorem cons {c : Char} (plain : c ≠ '.') : HasClasses (c :: behind) names := by
  intro before
  have unmatched : classPattern (c :: behind) = none := by
    unfold classPattern
    split
    · next same => exact absurd (List.cons.inj same).1 plain
    · rfl
  rw [piecesBehind_cons_of_none before unmatched]
  exact has (some c)

/-- Without a dot there is no class. -/
theorem append {front : List Char} (plain : '.' ∉ front) : HasClasses (front ++ behind) names := by
  induction front with
  | nil => exact has
  | cons c rest ih =>
    obtain ⟨other, others⟩ := not_or.mp (List.mem_cons.not.mp plain)
    exact (ih others).cons (Ne.symm other)

theorem classSelector {name : String} (named : IsClassName name)
    (stops : nameCharLength? false behind = none) :
    HasClasses ((classSelector name).toList ++ behind) (name :: names) := by
  intro before
  have matched := classPattern_classSelector named stops
  have dotted : (ThemeCss.classSelector name).toList ++ behind =
      '.' :: (escapeName name.toList ++ behind) := by
    simp [ThemeCss.classSelector, escapeClass]
  rw [dotted] at matched ⊢
  rw [piecesBehind_cons_of_some before matched, List.take_left, List.drop_left, List.filterMap_cons,
    has]
  rfl

end HasClasses

/-- From the selector of a class its name is taken out whole. -/
theorem hasClasses_classSelector {name : String} (named : IsClassName name) :
    HasClasses (classSelector name).toList [name] := by
  simpa using HasClasses.nil.classSelector named rfl

end ThemeCss
