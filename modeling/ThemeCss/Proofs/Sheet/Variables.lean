import Mathlib
import ThemeCss.Sheet.Basic

/-! # References to custom properties

A value refers to a custom property by `var(` in front of its name. A text without `var(` in it is
constant. Constant texts stay constant when they are put together, as long as what is next to them
is no part of `var(`.
-/

namespace ThemeCss

/-- What opens a reference. -/
def opening : List Char := ['v', 'a', 'r', '(']

/-- The name that a reference goes on with, up to the parenthesis or the comma at its end. -/
def variableName (text : List Char) : String :=
  String.ofList (text.takeWhile fun c => c != ')' && c != ',')

/-- The names of the custom properties that a text refers to. -/
def variablesIn : List Char → List String
  | 'v' :: 'a' :: 'r' :: '(' :: rest => variableName rest :: variablesIn rest
  | _ :: rest => variablesIn rest
  | [] => []

/-- A text that refers to no custom property. -/
def IsConstant (text : String) : Prop := ¬ opening <:+: text.toList

instance (text : String) : Decidable (IsConstant text) :=
  inferInstanceAs (Decidable (¬ opening <:+: text.toList))

theorem variablesIn_eq_nil {text : List Char} (constant : ¬ opening <:+: text) :
    variablesIn text = [] := by
  induction text with
  | nil => rfl
  | cons c rest ih =>
    rw [variablesIn.eq_def]
    split
    · next behind same =>
      rw [same] at constant
      exact absurd (List.prefix_append opening behind).isInfix constant
    · next same =>
      obtain ⟨rfl, rfl⟩ := List.cons.inj same
      exact ih fun inside => constant (List.infix_cons inside)
    · rfl

section Pieces

variable {first second : String}

theorem IsConstant.variables_eq_nil (constant : IsConstant first) :
    variablesIn first.toList = [] := variablesIn_eq_nil constant

theorem IsConstant.of_not_mem (absent : 'v' ∉ first.toList) : IsConstant first :=
  fun inside => absent (inside.subset List.mem_cons_self)

/-- What is put in front of a constant text makes no reference unless it has a `v`. -/
theorem IsConstant.append (absent : 'v' ∉ first.toList) (constant : IsConstant second) :
    IsConstant (first ++ second) := by
  rw [IsConstant, String.toList_append, List.infix_append_iff]
  rintro (inside | inside | ⟨front, back, whole, ending, start⟩)
  · exact absent (inside.subset List.mem_cons_self)
  · exact constant inside
  · -- The part in the first text has no `v`, so it is empty.
    cases front with
    | nil =>
      rw [List.nil_append] at whole
      exact constant (whole ▸ start.isInfix)
    | cons c front =>
      obtain ⟨rfl, -⟩ := List.cons.inj whole
      exact absent (ending.subset List.mem_cons_self)

/-- A gap that has no `v` and begins with nothing of an opening keeps constant texts apart. -/
theorem IsConstant.between {gap : String} (left : IsConstant first) (absent : 'v' ∉ gap.toList)
    (stops : ∃ c ∈ gap.toList.head?, c ∉ opening) (right : IsConstant second) :
    IsConstant (first ++ gap ++ second) := by
  obtain ⟨c, leads, other⟩ := stops
  obtain ⟨rest, letters⟩ := List.head?_eq_some_iff.mp leads
  have behind : IsConstant (gap ++ second) := .append absent right
  rw [IsConstant, String.append_assoc, String.toList_append, List.infix_append_iff]
  rintro (inside | inside | ⟨front, back, whole, ending, start⟩)
  · exact left inside
  · exact behind inside
  · -- The part behind the first text would begin like the gap, so it is empty.
    cases back with
    | nil =>
      rw [List.append_nil] at whole
      exact left (whole ▸ ending.isInfix)
    | cons d back =>
      rw [String.toList_append, letters, List.cons_append, List.cons_prefix_cons] at start
      obtain ⟨rfl, -⟩ := start
      exact other (whole ▸ List.mem_append_right front List.mem_cons_self)

theorem IsConstant.spaced (left : IsConstant first) (right : IsConstant second) :
    IsConstant s!"{first} {second}" :=
  left.between (by decide) ⟨' ', rfl, by decide⟩ right

/-- A reference to a name without punctuation refers to nothing else. -/
theorem variablesIn_reference {name : List Char}
    (plain : ∀ c ∈ name, c ≠ '(' ∧ c ≠ ')' ∧ c ≠ ',') :
    variablesIn (opening ++ (name ++ [')'])) = [String.ofList name] := by
  have behind : variablesIn (name ++ [')']) = [] := by
    refine variablesIn_eq_nil fun inside => ?_
    have parenthesis : '(' ∈ name ++ [')'] := inside.subset (by decide)
    rw [List.mem_append] at parenthesis
    rcases parenthesis with within | last
    · exact (plain '(' within).1 rfl
    · exact absurd last (by decide)
  have named : ∀ c ∈ name, (c != ')' && c != ',') = true := by
    intro c member
    simp [(plain c member).2]
  rw [opening]
  simp only [List.cons_append, List.nil_append, variablesIn, behind, variableName,
    List.takeWhile_append_of_pos named]
  simp

end Pieces

/-- The custom properties that a rule refers to. -/
def StyleRule.variables (rule : StyleRule) : List String :=
  rule.declarations.flatMap fun declaration => variablesIn declaration.value.toList

/-- The custom properties that a sheet refers to. -/
def Sheet.variables (sheet : Sheet) : List String := sheet.rules.flatMap StyleRule.variables

/-- A rule that refers to no custom property. -/
def StyleRule.IsConstant (rule : StyleRule) : Prop :=
  ∀ declaration ∈ rule.declarations, ThemeCss.IsConstant declaration.value

theorem StyleRule.IsConstant.not_mem_variables {rule : StyleRule} (constant : rule.IsConstant)
    (name : String) : name ∉ rule.variables := by
  rw [StyleRule.variables, List.mem_flatMap]
  rintro ⟨declaration, member, refers⟩
  rw [(constant declaration member).variables_eq_nil] at refers
  exact List.not_mem_nil refers

end ThemeCss
