import ThemeCss.Proofs.Theme.Harmless
import ThemeCss.Sheet.ClassName
import ThemeCss.Theme.Basic

/-! # What numbers, colours and class names look like

Numbers and colours are written with digits, letters and a few signs, all of them safe. A class name
in a selector is escaped, so a slash in it is never next to an asterisk, whatever the name is.
-/

namespace ThemeCss

theorem isSafeChar_of_isDigit {c : Char} (digit : c.isDigit = true) : isSafeChar c = true := by
  rw [isSafeChar_iff, isValueChar]
  simp only [Bool.and_eq_true, bne_iff_ne]
  refine ⟨⟨⟨⟨?_, ?_⟩, ?_⟩, ?_⟩, ?_, ?_⟩ <;>
  · rintro rfl
    contradiction

theorem isSafeChar_of_mem_toDigits {n : Nat} : ∀ c ∈ Nat.toDigits 10 n, isSafeChar c = true :=
  fun _ member => isSafeChar_of_isDigit (Nat.isDigit_of_mem_toDigits (by decide) (by decide) member)

theorem isSafe_repr (n : Nat) : IsSafe n.repr := by
  rw [IsSafe, Nat.toList_repr]
  exact isSafeChar_of_mem_toDigits

theorem isSafeChar_of_mem_paddedDigits {width n : Nat} :
    ∀ c ∈ paddedDigits width n, isSafeChar c = true := by
  rw [paddedDigits, List.forall_mem_append]
  refine ⟨?_, isSafeChar_of_mem_toDigits⟩
  intro c member
  rw [List.eq_of_mem_replicate member]
  rfl

theorem isSafeChar_of_mem_trimPlaces {places : List Char}
    (safe : ∀ c ∈ places, isSafeChar c = true) :
    ∀ c ∈ Binary64.trimPlaces places, isSafeChar c = true := by
  rw [Binary64.trimPlaces]
  split
  · exact List.forall_mem_nil _
  · next kept _ =>
    rw [List.forall_mem_cons]
    refine ⟨rfl, fun c member => safe c ?_⟩
    have inside := (List.dropWhile_sublist _).subset (List.mem_reverse.mp member)
    exact List.mem_reverse.mp inside

theorem isSafe_specialText (number : Binary64) : IsSafe number.specialText := by
  rw [Binary64.specialText.eq_def]
  split <;> simp [IsSafe, isSafeChar, isValueChar]

/-- A sign may stand in front of a safe text. -/
theorem isSafe_signed (negative : Bool) {digits : List Char}
    (safe : ∀ c ∈ digits, isSafeChar c = true) :
    IsSafe (String.ofList (if negative then '-' :: digits else digits)) := by
  rw [IsSafe, String.toList_ofList]
  split
  · exact List.forall_mem_cons.mpr ⟨rfl, safe⟩
  · exact safe

theorem isSafe_compact (number : Binary64) : IsSafe number.compact := by
  rw [Binary64.compact.eq_def]
  split
  · split
    · next whole _ =>
      rw [Int.toString_eq_repr, Int.repr_eq_if]
      split
      · exact isSafe_repr _
      · exact IsSafe.append (by simp [IsSafe, isSafeChar, isValueChar]) (isSafe_repr _)
    · apply isSafe_signed
      rw [List.forall_mem_append]
      exact ⟨isSafeChar_of_mem_toDigits,
        isSafeChar_of_mem_trimPlaces isSafeChar_of_mem_paddedDigits⟩
  · exact isSafe_specialText _

theorem isSafe_fixed (places : Nat) (number : Binary64) : IsSafe (number.fixed places) := by
  rw [Binary64.fixed.eq_def]
  split
  · apply isSafe_signed
    rw [List.forall_mem_append, List.forall_mem_cons]
    exact ⟨isSafeChar_of_mem_toDigits, rfl, isSafeChar_of_mem_paddedDigits⟩
  · exact isSafe_specialText _

theorem isSafeChar_digitChar {n : Nat} (small : n < 16) : isSafeChar n.digitChar = true := by
  interval_cases n <;> rfl

theorem isSafeChar_of_mem_channelDigits (channel : UInt8) :
    ∀ c ∈ Color.channelDigits channel, isSafeChar c = true := by
  have bound := channel.toNat_lt
  simp only [Color.channelDigits, List.forall_mem_cons, List.not_mem_nil, false_imp_iff,
    implies_true, and_true]
  exact ⟨isSafeChar_digitChar (by omega), isSafeChar_digitChar (by omega)⟩

theorem isSafe_hex (color : Color) : IsSafe color.hex := by
  rw [IsSafe, Color.hex, String.toList_ofList, List.forall_mem_cons, List.forall_mem_append,
    List.forall_mem_append]
  exact ⟨rfl, ⟨isSafeChar_of_mem_channelDigits _, isSafeChar_of_mem_channelDigits _⟩,
    isSafeChar_of_mem_channelDigits _⟩

theorem IsCompositional.length_text {holds : String → Prop} [IsCompositional holds]
    {length : Length} (unit : holds length.unit) : holds length.text :=
  safe_append (isSafe_compact length.value) unit

/-- No escaped character begins with an asterisk. -/
theorem head?_escapeNameChar_append (c : Char) (text : List Char) :
    (escapeNameChar c ++ text).head? ≠ some '*' := by
  rw [escapeNameChar]
  intro same
  split at same
  · next plain =>
    obtain rfl : c = '*' := Option.some.inj same
    contradiction
  · exact absurd (Option.some.inj same) (by decide)

theorem head?_flatMap_escapeNameChar (name : List Char) :
    (name.flatMap escapeNameChar).head? ≠ some '*' := by
  cases name with
  | nil => simp
  | cons c rest => exact head?_escapeNameChar_append c _

theorem not_opensComment_escapeNameChar_append (c : Char) {text : List Char}
    (unopened : ¬ OpensComment text) (front : text.head? ≠ some '*') :
    ¬ OpensComment (escapeNameChar c ++ text) := by
  have single : ¬ OpensComment (c :: text) := by
    rw [OpensComment, pair_infix_cons_iff, not_or]
    exact ⟨fun opened => front opened.2, unopened⟩
  rw [escapeNameChar]
  split
  · exact single
  · rw [OpensComment, List.cons_append, pair_infix_cons_iff, not_or]
    exact ⟨fun opened => absurd opened.1 (by decide), single⟩

theorem not_opensComment_flatMap_escapeNameChar (name : List Char) :
    ¬ OpensComment (name.flatMap escapeNameChar) := by
  induction name with
  | nil => simp [OpensComment]
  | cons c rest ih =>
    rw [List.flatMap_cons]
    exact not_opensComment_escapeNameChar_append c ih (head?_flatMap_escapeNameChar rest)

/-- The escape of a digit is its code. -/
theorem isSafeChar_of_mem_digitEscape {c : Char} (digit : c.isDigit = true) :
    ∀ d ∈ ['\\', Nat.digitChar (c.toNat / 16), Nat.digitChar (c.toNat % 16), ' '],
      isSafeChar d = true := by
  have bound : c.toNat ≤ 57 := (Char.isDigit_iff_toNat.mp digit).2
  simp only [List.forall_mem_cons, List.not_mem_nil, false_imp_iff, implies_true, and_true]
  exact ⟨rfl, isSafeChar_digitChar (by omega), isSafeChar_digitChar (by omega), rfl⟩

theorem not_opensComment_escapeName (name : List Char) : ¬ OpensComment (escapeName name) := by
  cases name with
  | nil => simp [escapeName, OpensComment]
  | cons c rest =>
    have behind := not_opensComment_flatMap_escapeNameChar rest
    simp only [escapeName]
    split
    · next digit =>
      rw [OpensComment, pair_infix_append_iff_of_first_not_mem]
      · exact behind
      · intro member
        exact absurd (isSafeChar_of_mem_digitEscape digit _ member) (by decide)
    · exact not_opensComment_escapeNameChar_append c behind (head?_flatMap_escapeNameChar rest)

theorem isValueChar_of_mem_escapeNameChar {c : Char} (plain : isValueChar c = true) :
    ∀ d ∈ escapeNameChar c, isValueChar d = true := by
  rw [escapeNameChar]
  split
  · exact List.forall_mem_singleton.mpr plain
  · exact List.forall_mem_cons.mpr ⟨rfl, List.forall_mem_singleton.mpr plain⟩

theorem isValueChar_of_mem_escapeName {name : List Char}
    (plain : ∀ c ∈ name, isValueChar c = true) : ∀ c ∈ escapeName name, isValueChar c = true := by
  cases name with
  | nil => exact List.forall_mem_nil _
  | cons c rest =>
    obtain ⟨first, others⟩ := List.forall_mem_cons.mp plain
    simp only [escapeName]
    rw [List.forall_mem_append, List.forall_mem_flatMap]
    refine ⟨?_, fun d member => isValueChar_of_mem_escapeNameChar (others d member)⟩
    split
    · next digit =>
      intro d member
      exact (isSafeChar_iff.mp (isSafeChar_of_mem_digitEscape digit d member)).1.1
    · exact isValueChar_of_mem_escapeNameChar first

/-- The selector of a class is inert unless its name ends declarations or blocks. -/
theorem inert_classSelector {name : String} (plain : ∀ c ∈ name.toList, isValueChar c = true) :
    IsInert (classSelector name) := by
  have letters : (classSelector name).toList = '.' :: escapeName name.toList := by
    simp [classSelector, escapeClass]
  constructor
  · rw [letters, List.forall_mem_cons]
    exact ⟨rfl, isValueChar_of_mem_escapeName plain⟩
  · rw [letters, OpensComment, pair_infix_cons_iff, not_or]
    exact ⟨fun opened => absurd opened.1 (by decide), not_opensComment_escapeName _⟩

end ThemeCss
