import ThemeCss.Proofs.Minified.Shut
import ThemeCss.Proofs.Sheet.Arrangement
import ThemeCss.Proofs.Vendor.Lines

/-! # Sheets of harmless pieces

A text is harmless if it has no punctuation of sheets in it and opens no comment. Harmless texts can
be put together as long as something safe is between them. A sheet of harmless pieces is both simple
and inert, and it stays inert when copies are put in.
-/

namespace ThemeCss

/-- A text without punctuation of sheets that opens no comment. -/
structure IsHarmless (text : String) : Prop where
  letters : ∀ c ∈ text.toList, isValueChar c = true ∧ c ≠ ':'
  unopened : ¬ OpensComment text.toList

/-- A text without blanks. -/
def IsSolid (text : String) : Prop := ∀ c ∈ text.toList, isBlank c = false

/-- A character that is harmless next to any other one. -/
def isSafeChar (c : Char) : Bool := isValueChar c && c != ':' && c != '/' && c != '*'

/-- A text that is harmless next to any other one. -/
def IsSafe (text : String) : Prop := ∀ c ∈ text.toList, isSafeChar c = true

/-- A text without the mark of a comment. -/
def IsUnmarked (mark : List Char) (text : String) : Prop := ¬ mark <:+: text.toList

theorem IsSafe.of_all {text : String} (safe : text.toList.all isSafeChar = true) : IsSafe text :=
  List.all_eq_true.mp safe

theorem isSafeChar_iff {c : Char} :
    isSafeChar c = true ↔ (isValueChar c = true ∧ c ≠ ':') ∧ c ≠ '/' ∧ c ≠ '*' := by
  simp [isSafeChar, and_assoc]

section Pieces

variable {first gap second : String}

theorem IsSafe.append (left : IsSafe first) (right : IsSafe second) : IsSafe (first ++ second) := by
  rw [IsSafe, String.toList_append, List.forall_mem_append]
  exact ⟨left, right⟩

theorem IsSafe.not_mem (safe : IsSafe first) {c : Char} (mark : isSafeChar c = false) :
    c ∉ first.toList := by
  intro member
  rw [safe c member] at mark
  contradiction

theorem IsSafe.harmless (safe : IsSafe first) : IsHarmless first where
  letters c member := (isSafeChar_iff.mp (safe c member)).1
  unopened opened := safe.not_mem rfl (opened.subset List.mem_cons_self)

theorem IsHarmless.of_all (safe : first.toList.all isSafeChar = true) : IsHarmless first :=
  (IsSafe.of_all safe).harmless

theorem IsSolid.append (left : IsSolid first) (right : IsSolid second) :
    IsSolid (first ++ second) := by
  rw [IsSolid, String.toList_append, List.forall_mem_append]
  exact ⟨left, right⟩

/-- Whether a text is safe and has no blanks. -/
def isSafeWord (text : String) : Bool := text.toList.all fun c => isSafeChar c && !isBlank c

theorem isSafe_of_isSafeWord (word : isSafeWord first = true) : IsSafe first ∧ IsSolid first := by
  have letters : ∀ c ∈ first.toList, isSafeChar c = true ∧ isBlank c = false := by
    simpa [isSafeWord] using word
  exact ⟨fun c member => (letters c member).1, fun c member => (letters c member).2⟩

theorem isSafeWord_append (first second : String) :
    isSafeWord (first ++ second) = (isSafeWord first && isSafeWord second) := by
  simp [isSafeWord]

section Marks

variable {mark : List Char} [IsCommentMark mark]

theorem IsSafe.unmarked (safe : IsSafe first) : IsUnmarked mark first :=
  IsShut.unmarked (.of_not_mem (safe.not_mem rfl))

namespace IsUnmarked

theorem append_safe (left : IsUnmarked mark first) (right : IsSafe second) :
    IsUnmarked mark (first ++ second) := by
  rw [IsUnmarked, String.toList_append]
  exact IsCommentMark.not_infix_append left (right.not_mem rfl) (right.not_mem rfl)

theorem safe_append (left : IsSafe first) (right : IsUnmarked mark second) :
    IsUnmarked mark (first ++ second) := by
  have shut : IsShut mark first.toList := .of_not_mem (left.not_mem rfl)
  rw [IsUnmarked, String.toList_append]
  exact shut _ right

/-- Something safe keeps two texts apart. -/
theorem between (left : IsUnmarked mark first) (safe : IsSafe gap) (nonempty : gap ≠ "")
    (right : IsUnmarked mark second) : IsUnmarked mark (first ++ gap ++ second) := by
  obtain ⟨c, rest, letters⟩ : ∃ c rest, gap.toList = c :: rest :=
    List.exists_cons_of_ne_nil fun empty => nonempty (String.toList_eq_nil_iff.mp empty)
  have single := (isSafeChar_iff.mp (safe c (letters ▸ List.mem_cons_self))).2
  have behind : IsUnmarked mark (String.ofList rest ++ second) := by
    refine .safe_append (fun d member => safe d ?_) right
    rw [String.toList_ofList] at member
    exact letters ▸ List.mem_cons_of_mem c member
  have whole : (first ++ gap ++ second).toList =
      first.toList ++ c :: (String.ofList rest ++ second).toList := by simp [letters]
  rw [IsUnmarked, whole, infix_append_cons_iff IsCommentMark.nonempty
    (IsCommentMark.not_mem single.1 single.2), not_or]
  exact ⟨left, behind⟩

end IsUnmarked

end Marks

theorem IsHarmless.append_safe (left : IsHarmless first) (right : IsSafe second) :
    IsHarmless (first ++ second) := by
  refine ⟨?_, IsUnmarked.append_safe left.unopened right⟩
  rw [String.toList_append, List.forall_mem_append]
  exact ⟨left.letters, right.harmless.letters⟩

theorem IsHarmless.safe_append (left : IsSafe first) (right : IsHarmless second) :
    IsHarmless (first ++ second) := by
  refine ⟨?_, IsUnmarked.safe_append left right.unopened⟩
  rw [String.toList_append, List.forall_mem_append]
  exact ⟨left.harmless.letters, right.letters⟩

/-- Something safe keeps two harmless texts apart. -/
theorem IsHarmless.between (left : IsHarmless first) (safe : IsSafe gap) (nonempty : gap ≠ "")
    (right : IsHarmless second) : IsHarmless (first ++ gap ++ second) := by
  refine ⟨?_, IsUnmarked.between left.unopened safe nonempty right.unopened⟩
  rw [String.toList_append, String.toList_append, List.forall_mem_append, List.forall_mem_append]
  exact ⟨⟨left.letters, safe.harmless.letters⟩, right.letters⟩

theorem IsHarmless.inert (harmless : IsHarmless first) : IsInert first :=
  ⟨fun c member => (harmless.letters c member).1, harmless.unopened⟩

end Pieces

/-- A property that texts keep when safe ones are put in front of them, behind them or between two
of them. -/
class IsCompositional (holds : String → Prop) : Prop where
  of_isSafe {text : String} : IsSafe text → holds text
  append_safe {first second : String} : holds first → IsSafe second → holds (first ++ second)
  safe_append {first second : String} : IsSafe first → holds second → holds (first ++ second)
  between {first gap second : String} : holds first → IsSafe gap → gap ≠ "" → holds second →
    holds (first ++ gap ++ second)

instance : IsCompositional IsHarmless where
  of_isSafe := IsSafe.harmless
  append_safe := IsHarmless.append_safe
  safe_append := IsHarmless.safe_append
  between := IsHarmless.between

instance {mark : List Char} [IsCommentMark mark] : IsCompositional (IsUnmarked mark) where
  of_isSafe := IsSafe.unmarked
  append_safe := IsUnmarked.append_safe
  safe_append := IsUnmarked.safe_append
  between := IsUnmarked.between

namespace IsCompositional

variable {holds : String → Prop} [IsCompositional holds] {first second : String}

theorem of_all (safe : first.toList.all isSafeChar = true) : holds first := of_isSafe (.of_all safe)

theorem spaced (left : holds first) (right : holds second) : holds s!"{first} {second}" :=
  between left (.of_all rfl) (by simp [toString]) right

end IsCompositional

namespace Declaration

/-- Both sides are harmless, and the property has no blanks. -/
structure Harmless (declaration : Declaration) : Prop where
  property : IsHarmless declaration.property
  solid : IsSolid declaration.property
  value : IsHarmless declaration.value

theorem Harmless.of_isSafeWord {property value : String} (word : isSafeWord property = true)
    (harmless : IsHarmless value) : (Declaration.mk property value).Harmless :=
  ⟨(isSafe_of_isSafeWord word).1.harmless, (isSafe_of_isSafeWord word).2, harmless⟩

/-- Whether both sides are safe. -/
def isSafe (declaration : Declaration) : Bool :=
  isSafeWord declaration.property && declaration.value.toList.all isSafeChar

theorem Harmless.of_isSafe {declaration : Declaration} (safe : declaration.isSafe = true) :
    declaration.Harmless := by
  rw [isSafe, Bool.and_eq_true] at safe
  exact .of_isSafeWord safe.1 (.of_all safe.2)

theorem Harmless.simple {declaration : Declaration} (harmless : declaration.Harmless) :
    declaration.Simple where
  property c member := by
    have letter := harmless.property.letters c member
    simp [isPropertyChar, letter, harmless.solid c member]
  value := harmless.value.letters

theorem Harmless.inert {declaration : Declaration} (harmless : declaration.Harmless) :
    declaration.Inert := ⟨harmless.property.inert, harmless.value.inert⟩

end Declaration

/-- The selector is inert, and the declarations are harmless. -/
structure StyleRule.Harmless (rule : StyleRule) : Prop where
  selector : IsInert rule.selector
  declarations : ∀ declaration ∈ rule.declarations, declaration.Harmless

theorem StyleRule.Harmless.of_selector {selector : String} {declarations : List Declaration}
    {style : RuleStyle} (plain : (selector.toList.all fun c => isValueChar c && c != '/') = true)
    (harmless : ∀ declaration ∈ declarations, declaration.Harmless) :
    (StyleRule.mk selector declarations style).Harmless := ⟨.of_all plain, harmless⟩

/-- Whether a rule is safe but for its selector, which may be any text without slashes that is no
end of a declaration or block. -/
def StyleRule.isSafe (rule : StyleRule) : Bool :=
  (rule.selector.toList.all fun c => isValueChar c && c != '/') &&
    rule.declarations.all Declaration.isSafe

theorem StyleRule.Harmless.of_isSafe {rule : StyleRule} (safe : rule.isSafe = true) :
    rule.Harmless := by
  rw [StyleRule.isSafe, Bool.and_eq_true] at safe
  exact ⟨.of_all safe.1, fun declaration member =>
    .of_isSafe (List.all_eq_true.mp safe.2 declaration member)⟩

/-- All rules are harmless, the query is inert, and a comment neither ends early nor has a
semicolon. -/
def Block.Harmless : Block → Prop
  | comment text => ';' ∉ text.toList ∧ ¬ ClosesComment text.toList
  | rule single => single.Harmless
  | media query rules => IsInert query ∧ ∀ rule ∈ rules, rule.Harmless

/-- All blocks are harmless. -/
def Sheet.Harmless (sheet : Sheet) : Prop := ∀ block ∈ sheet.blocks, block.Harmless

theorem StyleRule.Harmless.simple {rule : StyleRule} (harmless : rule.Harmless) : rule.Simple :=
  ⟨harmless.selector.not_mem rfl, fun declaration member =>
    (harmless.declarations declaration member).simple⟩

theorem StyleRule.Harmless.inert {rule : StyleRule} (harmless : rule.Harmless) : rule.Inert :=
  ⟨harmless.selector, fun declaration member => (harmless.declarations declaration member).inert⟩

theorem Sheet.Harmless.simple {sheet : Sheet} (harmless : sheet.Harmless) : sheet.Simple := by
  intro block member
  have single := harmless block member
  cases block with
  | comment text => exact single.1
  | rule rule => exact StyleRule.Harmless.simple single
  | media query rules =>
    exact ⟨single.1.not_mem rfl, fun rule member => (single.2 rule member).simple⟩

theorem Sheet.Harmless.inert {sheet : Sheet} (harmless : sheet.Harmless) : sheet.Inert := by
  intro block member
  have single := harmless block member
  cases block with
  | comment text => exact single.2
  | rule rule => exact StyleRule.Harmless.inert single
  | media query rules => exact ⟨single.1, fun rule member => (single.2 rule member).inert⟩

/-- Whether a copy puts nothing but safe characters into a sheet. -/
def VendorCopy.isSafe : VendorCopy → Bool
  | marked mark => isSafeWord mark
  | fixed text => (Declaration.ofText text).isSafe

theorem isSafe_of_mem_copies : ∀ rule ∈ vendorRules, ∀ copy ∈ rule.copies,
    copy.isSafe = true := by
  have table : (vendorRules.all fun rule => rule.copies.all VendorCopy.isSafe) = true := rfl
  intro rule member
  exact List.all_eq_true.mp (List.all_eq_true.mp table rule member)

theorem Declaration.Harmless.copy {copy : VendorCopy} (safe : copy.isSafe = true)
    {original : Declaration} (harmless : original.Harmless) :
    (copy.declaration original).Harmless := by
  cases copy with
  | marked mark =>
    obtain ⟨letters, solid⟩ := isSafe_of_isSafeWord safe
    exact ⟨.safe_append letters harmless.property, solid.append harmless.solid, harmless.value⟩
  | fixed text => exact .of_isSafe safe

theorem Declaration.Harmless.withCopies {declaration : Declaration}
    (harmless : declaration.Harmless) : ∀ item ∈ declaration.withCopies, item.Harmless := by
  rw [Declaration.withCopies, List.forall_mem_append, List.forall_mem_singleton]
  refine ⟨?_, harmless⟩
  rw [Declaration.copies, Declaration.copiesBy]
  split
  · exact List.forall_mem_nil _
  · next rule found =>
    rw [List.forall_mem_map]
    have table := isSafe_of_mem_copies rule (List.mem_of_find?_eq_some found)
    intro copy member
    exact harmless.copy (table copy member)

theorem StyleRule.Harmless.unfolded {rule : StyleRule} (harmless : rule.Harmless) :
    (rule.unfolded Declaration.withCopies).Harmless := by
  refine ⟨harmless.selector, ?_⟩
  rw [StyleRule.unfolded, List.forall_mem_flatMap]
  intro declaration member
  exact (harmless.declarations declaration member).withCopies

/-- Putting copies in keeps a sheet harmless. -/
theorem Sheet.Harmless.unfolded {sheet : Sheet} (harmless : sheet.Harmless) :
    (sheet.unfolded Declaration.withCopies).Harmless := by
  rw [Sheet.Harmless, Sheet.unfolded, List.forall_mem_map]
  intro block member
  have single := harmless block member
  cases block with
  | comment text => exact single
  | rule rule => exact StyleRule.Harmless.unfolded single
  | media query rules =>
    refine ⟨single.1, ?_⟩
    rw [List.forall_mem_map]
    intro rule member
    exact (single.2 rule member).unfolded

end ThemeCss
