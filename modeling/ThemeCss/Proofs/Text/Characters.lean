import Mathlib
import ThemeCss.Text.Characters

/-! # Trimming by cases on the first character

Trimming at the end is defined by reversal. Read from the front it keeps a character exactly when
something that is not blank comes at it or after it, and this form is the one that recursions on a
text need. Digits are never trimmed, and hexadecimal ones are read as they are written.
-/

namespace ThemeCss

/-- A text of blanks only. -/
def IsBlankText (text : List Char) : Prop := ∀ c ∈ text, isBlank c = true

@[simp] theorem isBlank_space : isBlank ' ' = true := rfl

@[simp] theorem isBlank_newline : isBlank '\n' = true := rfl

namespace IsBlankText

@[simp] theorem nil : IsBlankText [] := List.forall_mem_nil _

@[simp] theorem cons_iff {c : Char} {text : List Char} :
    IsBlankText (c :: text) ↔ isBlank c = true ∧ IsBlankText text := List.forall_mem_cons

theorem append {first second : List Char} (left : IsBlankText first) (right : IsBlankText second) :
    IsBlankText (first ++ second) := List.forall_mem_append.mpr ⟨left, right⟩

theorem not_mem {c : Char} {text : List Char} (blank : IsBlankText text)
    (solid : isBlank c = false) : c ∉ text := by
  intro member
  rw [blank c member] at solid
  contradiction

end IsBlankText

/-- A character in front of something that is kept is kept. -/
theorem trimRight_cons_of_ne_nil (c : Char) {text : List Char} (kept : trimRight text ≠ []) :
    trimRight (c :: text) = c :: trimRight text := by
  have kept : text.reverse.dropWhile isBlank ≠ [] := by simpa [trimRight] using kept
  simp [trimRight, List.dropWhile_append, kept]

theorem trimRight_cons_of_not_isBlank {c : Char} (text : List Char) (solid : isBlank c = false) :
    trimRight (c :: text) = c :: trimRight text := by
  by_cases empty : text.reverse.dropWhile isBlank = []
  · simp [trimRight, List.dropWhile_append, empty, solid]
  · exact trimRight_cons_of_ne_nil c (by simpa [trimRight] using empty)

/-- A blank in front of nothing that is kept is dropped. -/
theorem trimRight_cons_of_isBlank {c : Char} {text : List Char} (blank : isBlank c = true)
    (empty : trimRight text = []) : trimRight (c :: text) = [] := by
  have empty : text.reverse.dropWhile isBlank = [] := by simpa [trimRight] using empty
  simp [trimRight, List.dropWhile_append, empty, blank]

/-- Trimming at the end keeps a first character that is not blank, and brings none up. -/
theorem head?_trimRight {c : Char} (text : List Char) (solid : isBlank c = false) :
    (trimRight text).head? = some c ↔ text.head? = some c := by
  cases text with
  | nil => rfl
  | cons d rest =>
    cases blank : isBlank d with
    | false => rw [trimRight_cons_of_not_isBlank rest blank, List.head?_cons, List.head?_cons]
    | true =>
      by_cases empty : trimRight rest = []
      · rw [trimRight_cons_of_isBlank blank empty]
        constructor
        · intro same
          simp at same
        · intro same
          obtain rfl := Option.some.inj same
          rw [blank] at solid
          contradiction
      · rw [trimRight_cons_of_ne_nil d empty, List.head?_cons, List.head?_cons]

theorem trim_cons_of_isBlank {c : Char} (text : List Char) (blank : isBlank c = true) :
    trim (c :: text) = trim text := by
  simp only [trim, List.dropWhile_cons, blank, ↓reduceIte]

theorem trim_cons_of_not_isBlank {c : Char} (text : List Char) (solid : isBlank c = false) :
    trim (c :: text) = c :: trimRight text := by
  simp only [trim, List.dropWhile_cons, solid, Bool.false_eq_true, ↓reduceIte,
    trimRight_cons_of_not_isBlank text solid]

section Padding

variable {front text back : List Char}

theorem trim_blank_append (blank : IsBlankText front) (text : List Char) :
    trim (front ++ text) = trim text := by
  rw [trim, trim, List.dropWhile_append_of_pos blank]

theorem trim_append_blank (text : List Char) (blank : IsBlankText back) :
    trim (text ++ back) = trim text := by
  have right (kept : List Char) : trimRight (kept ++ back) = trimRight kept := by
    rw [trimRight, trimRight, List.reverse_append,
      List.dropWhile_append_of_pos fun c member => blank c (List.mem_reverse.mp member)]
  rw [trim, trim, List.dropWhile_append]
  split
  · next empty =>
    rw [List.isEmpty_iff.mp empty, ← List.append_nil back, List.dropWhile_append_of_pos blank]
    rfl
  · exact right _

theorem trim_of_not_isBlank (solid : ∀ c ∈ text, isBlank c = false) : trim text = text := by
  have right (kept : List Char) (solid : ∀ c ∈ kept, isBlank c = false) :
      trimRight kept = kept := by
    induction kept with
    | nil => rfl
    | cons c rest ih =>
      obtain ⟨first, others⟩ := List.forall_mem_cons.mp solid
      rw [trimRight_cons_of_not_isBlank rest first, ih others]
  cases text with
  | nil => rfl
  | cons c rest =>
    obtain ⟨first, others⟩ := List.forall_mem_cons.mp solid
    rw [trim_cons_of_not_isBlank rest first, right rest others]

theorem not_isBlank_of_getLast?_trimRight {c : Char} (last : c ∈ (trimRight text).getLast?) :
    isBlank c = false := by
  have solid := List.head?_dropWhile_not isBlank text.reverse
  rw [trimRight, List.getLast?_reverse, Option.mem_def] at last
  rwa [last] at solid

theorem dropWhile_isBlank_of_start (start : ∀ c ∈ text.head?, isBlank c = false) :
    text.dropWhile isBlank = text := by
  cases text with
  | nil => rfl
  | cons c rest => exact List.dropWhile_cons_of_neg (by simp [start c rfl])

/-- A text whose ends are not blank is not trimmed. -/
theorem trim_of_ends (start : ∀ c ∈ text.head?, isBlank c = false)
    (stop : ∀ c ∈ text.getLast?, isBlank c = false) : trim text = text := by
  rw [trim, dropWhile_isBlank_of_start start, trimRight, dropWhile_isBlank_of_start,
    List.reverse_reverse]
  simpa only [List.head?_reverse] using stop

/-- A text is what trimming leaves, among blanks. -/
theorem exists_eq_trim (text : List Char) :
    ∃ front back, IsBlankText front ∧ IsBlankText back ∧ text = front ++ (trim text ++ back) := by
  refine ⟨text.takeWhile isBlank,
    ((text.dropWhile isBlank).reverse.takeWhile isBlank).reverse, ?_, ?_, ?_⟩
  · intro c member
    exact List.mem_takeWhile_imp member
  · intro c member
    exact List.mem_takeWhile_imp (List.mem_reverse.mp member)
  · have whole : trim text ++ ((text.dropWhile isBlank).reverse.takeWhile isBlank).reverse =
        text.dropWhile isBlank := by
      rw [trim, trimRight, ← List.reverse_append, List.takeWhile_append_dropWhile,
        List.reverse_reverse]
    rw [whole, List.takeWhile_append_dropWhile]

end Padding

theorem hexDigit?_digitChar {n : Nat} (digit : n < 16) : hexDigit? (Nat.digitChar n) = some n := by
  interval_cases n <;> rfl

theorem not_isBlank_digitChar {n : Nat} (digit : n < 16) : isBlank (Nat.digitChar n) = false := by
  interval_cases n <;> rfl

/-- A decimal digit is a hexadecimal one. -/
theorem isSome_hexDigit?_of_isDigit {c : Char} (digit : c.isDigit = true) :
    (hexDigit? c).isSome = true := by
  simp only [Char.isDigit, Bool.and_eq_true, decide_eq_true_eq, ge_iff_le] at digit
  have low : '0' ≤ c ∧ c ≤ '9' := digit
  simp [hexDigit?, low]

end ThemeCss
