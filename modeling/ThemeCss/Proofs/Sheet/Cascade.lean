import Mathlib
import ThemeCss.Sheet.Utility

/-! # Which declarations take effect

Among declarations of one property for the same selector the last one in the document takes effect.
Which ones compete depends on the media queries that hold: rules outside of queries always apply,
the others where their query holds.
-/

namespace ThemeCss

/-- The value in the last declaration of a property. -/
def lastValue? (property : String) (declarations : List Declaration) : Option String :=
  (declarations.reverse.find? (·.property == property)).map (·.value)

section LastValue

variable (property : String)

@[simp] theorem lastValue?_nil : lastValue? property [] = none := rfl

/-- What is declared behind counts before what is declared in front. -/
theorem lastValue?_append (first second : List Declaration) :
    lastValue? property (first ++ second) =
      (lastValue? property second).or (lastValue? property first) := by
  rw [lastValue?, List.reverse_append, List.find?_append, Option.map_or]
  rfl

theorem lastValue?_cons (declaration : Declaration) (rest : List Declaration) :
    lastValue? property (declaration :: rest) = (lastValue? property rest).or
      (if declaration.property = property then some declaration.value else none) := by
  rw [← List.singleton_append, lastValue?_append]
  by_cases same : declaration.property = property <;> simp [lastValue?, same]

/-- What is declared for the last one of some entries counts first. -/
theorem lastValue?_flatMap {α : Type} (entries : List α) (declarations : α → List Declaration) :
    lastValue? property (entries.flatMap declarations) =
      entries.reverse.findSome? fun entry => lastValue? property (declarations entry) := by
  induction entries with
  | nil => rfl
  | cons entry entries ih =>
    rw [List.flatMap_cons, lastValue?_append, ih, List.reverse_cons, List.findSome?_append]
    simp

end LastValue

namespace Block

/-- The rules of a block that apply where the given media queries hold. -/
def rulesWhere (holds : String → Bool) : Block → List StyleRule
  | comment _ => []
  | rule single => [single]
  | media query rules => if holds query then rules else []

theorem rulesWhere_subset (holds : String → Bool) (block : Block) :
    block.rulesWhere holds ⊆ block.rules := by
  cases block with
  | comment text => exact List.Subset.refl _
  | rule single => exact List.Subset.refl _
  | media query rules =>
    rw [rulesWhere]
    split
    · exact List.Subset.refl _
    · exact List.nil_subset _

end Block

namespace Sheet

/-- The rules of a sheet that apply where the given media queries hold, in document order. -/
def rulesWhere (holds : String → Bool) (sheet : Sheet) : List StyleRule :=
  sheet.blocks.flatMap (Block.rulesWhere holds)

/-- The rules outside of media queries. -/
def topRules (sheet : Sheet) : List StyleRule := sheet.rulesWhere fun _ => false

/-- What some rules declare for a selector, in document order. -/
def declarationsFor (selector : String) (rules : List StyleRule) : List Declaration :=
  (rules.filter (·.selector == selector)).flatMap (·.declarations)

theorem declarationsFor_append (selector : String) (first second : List StyleRule) :
    declarationsFor selector (first ++ second) =
      declarationsFor selector first ++ declarationsFor selector second := by
  rw [declarationsFor, List.filter_append, List.flatMap_append]
  rfl

theorem declarationsFor_of_forall_ne {selector : String} {rules : List StyleRule}
    (others : ∀ rule ∈ rules, rule.selector ≠ selector) : declarationsFor selector rules = [] := by
  have none : rules.filter (·.selector == selector) = [] := by
    rw [List.filter_eq_nil_iff]
    intro rule member same
    exact others rule member (eq_of_beq same)
  rw [declarationsFor, none, List.flatMap_nil]

section Parts

variable (holds : String → Bool)

theorem rulesWhere_subset (sheet : Sheet) : sheet.rulesWhere holds ⊆ sheet.rules := by
  intro rule member
  obtain ⟨block, inside, member⟩ := List.mem_flatMap.mp member
  exact List.mem_flatMap.mpr ⟨block, inside, block.rulesWhere_subset holds member⟩

theorem rulesWhere_merged (parts : List Sheet) :
    (merged parts).rulesWhere holds = parts.flatMap (rulesWhere holds) := by
  rw [rulesWhere, merged, List.flatMap_assoc]
  rfl

theorem rules_merged (parts : List Sheet) : (merged parts).rules = parts.flatMap rules := by
  rw [rules, merged, List.flatMap_assoc]
  rfl

end Parts

end Sheet

theorem flatMap_rulesWhere_plainBlocks (holds : String → Bool) (classes : List UtilityClass) :
    (plainBlocks classes).flatMap (Block.rulesWhere holds) =
      classes.map (UtilityClass.rule none) := by
  rw [plainBlocks, List.flatMap_map]
  exact List.flatMap_pure_eq_map _ _

theorem mem_rules_plainBlocks {classes : List UtilityClass} {rule : StyleRule} :
    rule ∈ (plainBlocks classes).flatMap Block.rules ↔
      ∃ utility ∈ classes, utility.rule none = rule := by
  simp [plainBlocks, Block.rules, eq_comm]

/-- The rules of a sheet with responsive classes are its own and those of the classes, with and
without the labels of the breakpoints. -/
theorem Sheet.mem_rules_withResponsive {sheet : Sheet} {classes : List UtilityClass}
    {breakpoints : List Breakpoint} {rule : StyleRule} :
    rule ∈ (sheet.withResponsive classes breakpoints).rules ↔
      rule ∈ sheet.rules ∨ (∃ utility ∈ classes, utility.rule none = rule) ∨
        ∃ breakpoint ∈ breakpoints, ∃ utility ∈ classes,
          utility.rule (some breakpoint.label) = rule := by
  rw [Sheet.rules, withResponsive, responsiveBlocks, List.flatMap_append, List.flatMap_append,
    List.mem_append, List.mem_append, mem_rules_plainBlocks]
  simp [Sheet.rules, Block.minWidth, Block.rules]

end ThemeCss
