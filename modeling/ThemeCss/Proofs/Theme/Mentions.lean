import ThemeCss.Proofs.Theme.Fonts
import ThemeCss.Proofs.Theme.Classes

/-! # What the lists of names ask for

A theme lists components and groups of utility classes by name. A name that stands for nothing, or
for something that was mentioned before, asks for nothing new. What is asked for comes in the order
of its first mention, and its section is in the artifact once.
-/

namespace ThemeCss

section Mentions

variable {α : Type} [DecidableEq α] {ofName? : String → Option α}

/-- The items are those that the names mention, each once, in the order of their first mention. -/
structure ListsMentions (ofName? : String → Option α) (names : List String) (items : List α) :
    Prop where
  nodup : items.Nodup
  mem_iff : ∀ item, item ∈ items ↔ ∃ name ∈ names, ofName? name = some item
  ordered : items.Pairwise fun earlier later =>
    names.findIdx (ofName? · == some earlier) < names.findIdx (ofName? · == some later)

/-- The second list has one more name, which stands for nothing or for what a name in front of it
stands for. -/
inductive AddsNothing (ofName? : String → Option α) : List String → List String → Prop
  | unknown {name : String} (before after : List String) (unknown : ofName? name = none) :
    AddsNothing ofName? (before ++ after) (before ++ name :: after)
  | again {first name : String} {item : α} (before between after : List String)
    (known : ofName? first = some item) (same : ofName? name = some item) :
    AddsNothing ofName? (before ++ first :: (between ++ after))
      (before ++ first :: (between ++ name :: after))

theorem findIdx_append_of_mention {names : List String} {item : α}
    (known : ∃ name ∈ names, ofName? name = some item) (more : List String) :
    (names ++ more).findIdx (ofName? · == some item) =
      names.findIdx (ofName? · == some item) := by
  obtain ⟨name, member, same⟩ := known
  have inside : names.findIdx (ofName? · == some item) < names.length :=
    List.findIdx_lt_length_of_exists ⟨name, member, beq_iff_eq.mpr same⟩
  rw [List.findIdx_append, if_pos inside]

/-- A first mention at the end comes behind all names. -/
theorem length_le_findIdx_append {names : List String} {item : α}
    (fresh : ¬ ∃ name ∈ names, ofName? name = some item) (more : List String) :
    names.length ≤ (names ++ more).findIdx (ofName? · == some item) := by
  have outside : ¬ names.findIdx (ofName? · == some item) < names.length := by
    intro inside
    obtain ⟨name, member, same⟩ := List.findIdx_lt_length.mp inside
    exact fresh ⟨name, member, beq_iff_eq.mp same⟩
  rw [List.findIdx_append, if_neg outside]
  exact Nat.le_add_left _ _

namespace ListsMentions

theorem nil : ListsMentions ofName? [] [] := ⟨List.nodup_nil, by simp, .nil⟩

variable {names : List String} {items : List α} {name : String} {item : α}
  (lists : ListsMentions ofName? names items)

include lists

/-- Items that are listed already have the same places among more names. -/
theorem ordered_append (more : List String) : items.Pairwise fun earlier later =>
    (names ++ more).findIdx (ofName? · == some earlier) <
      (names ++ more).findIdx (ofName? · == some later) := by
  refine lists.ordered.imp_of_mem fun {earlier later} first second before => ?_
  rwa [findIdx_append_of_mention ((lists.mem_iff earlier).mp first),
    findIdx_append_of_mention ((lists.mem_iff later).mp second)]

/-- One more name that mentions nothing new. -/
theorem append_of_forall_mem (known : ∀ item, ofName? name = some item → item ∈ items) :
    ListsMentions ofName? (names ++ [name]) items := by
  refine ⟨lists.nodup, fun item => ?_, lists.ordered_append _⟩
  constructor
  · intro member
    obtain ⟨other, listed, same⟩ := (lists.mem_iff item).mp member
    exact ⟨other, List.mem_append_left _ listed, same⟩
  · rintro ⟨other, listed, same⟩
    rcases List.mem_append.mp listed with before | last
    · exact (lists.mem_iff item).mpr ⟨other, before, same⟩
    · rw [List.mem_singleton.mp last] at same
      exact known item same

/-- One more name that mentions something for the first time. -/
theorem append_of_not_mem (known : ofName? name = some item) (fresh : item ∉ items) :
    ListsMentions ofName? (names ++ [name]) (items ++ [item]) := by
  have unmentioned : ¬ ∃ name ∈ names, ofName? name = some item :=
    fun mentioned => fresh ((lists.mem_iff item).mpr mentioned)
  refine ⟨?_, fun other => ?_, List.pairwise_append.mpr
    ⟨lists.ordered_append _, List.pairwise_singleton _ _, ?_⟩⟩
  · exact List.nodup_append'.mpr ⟨lists.nodup, List.nodup_singleton _, by simpa using fresh⟩
  · simp [lists.mem_iff other, or_and_right, exists_or, known, eq_comm]
  · intro earlier listed later last
    rw [List.mem_singleton.mp last]
    have mentioned := (lists.mem_iff earlier).mp listed
    obtain ⟨first, member, same⟩ := mentioned
    calc (names ++ [name]).findIdx (ofName? · == some earlier)
        = names.findIdx (ofName? · == some earlier) :=
          findIdx_append_of_mention ⟨first, member, same⟩ _
      _ < names.length :=
          List.findIdx_lt_length_of_exists ⟨first, member, beq_iff_eq.mpr same⟩
      _ ≤ (names ++ [name]).findIdx (ofName? · == some item) :=
          length_le_findIdx_append unmentioned _

end ListsMentions

theorem eraseDups_concat (items : List α) (item : α) :
    (items ++ [item]).eraseDups =
      if item ∈ items then items.eraseDups else items.eraseDups ++ [item] := by
  rw [List.eraseDups_append, List.removeAll]
  split
  · next known => simp [known]
  · next fresh => simp [fresh, eraseDups_of_nodup (List.nodup_singleton item)]

/-- What the names stand for, with later mentions dropped. The induction takes the names from the
end, as they are entered. -/
theorem listsMentions_eraseDups (names : List String) :
    ListsMentions ofName? names (names.filterMap ofName?).eraseDups := by
  induction names using List.reverseRecOn with
  | nil => exact .nil
  | append_singleton names name ih =>
    rw [List.filterMap_append]
    cases known : ofName? name with
    | none =>
      rw [List.filterMap_cons_none known, List.filterMap_nil, List.append_nil]
      refine ih.append_of_forall_mem fun item same => ?_
      rw [known] at same
      contradiction
    | some item =>
      rw [List.filterMap_cons_some known, List.filterMap_nil, eraseDups_concat]
      split
      · next mentioned =>
        refine ih.append_of_forall_mem fun other same => ?_
        obtain rfl := Option.some.inj (known.symm.trans same)
        exact List.mem_eraseDups.mpr mentioned
      · next fresh =>
        exact ih.append_of_not_mem known fun member => fresh (List.mem_eraseDups.mp member)

/-- A repetition is dropped wherever it stands. -/
theorem eraseDups_insert_of_mem {before : List α} {item : α} (known : item ∈ before)
    (after : List α) : (before ++ item :: after).eraseDups = (before ++ after).eraseDups := by
  have dropped : (item :: after).removeAll before = after.removeAll before := by
    simp [List.removeAll, known]
  rw [List.eraseDups_append, List.eraseDups_append, dropped]

theorem AddsNothing.eraseDups {names more : List String} (adds : AddsNothing ofName? names more) :
    (more.filterMap ofName?).eraseDups = (names.filterMap ofName?).eraseDups := by
  cases adds with
  | unknown before after unknown =>
    rw [List.filterMap_append, List.filterMap_append, List.filterMap_cons_none unknown]
  | @again first name item before between after known same =>
    have front : item ∈ (before ++ first :: between).filterMap ofName? :=
      List.mem_filterMap.mpr ⟨first, by simp, known⟩
    have repeated := eraseDups_insert_of_mem front (after.filterMap ofName?)
    simpa [List.filterMap_append, List.filterMap_cons_some known, List.filterMap_cons_some same]
      using repeated

end Mentions

section Padding

variable {front back : String} (before : IsBlankText front.toList)
  (behind : IsBlankText back.toList) (name : String)

include before behind

theorem trimmed_padded : trimmed (front ++ name ++ back) = trimmed name := by
  rw [trimmed, trimmed, String.toList_append, String.toList_append, trim_append_blank _ behind,
    trim_blank_append before]

/-- A component's name between blanks stands for the same component. -/
theorem Component.ofName?_padded : ofName? (front ++ name ++ back) = ofName? name := by
  rw [ofName?, ofName?, trimmed_padded before behind]

end Padding

def Block.title? : Block → Option String
  | comment text => some text
  | _ => none

/-- The texts of the comments of a sheet. -/
def Sheet.titles (sheet : Sheet) : List String := sheet.blocks.filterMap Block.title?

namespace Sheet

theorem titles_merged (parts : List Sheet) : (Sheet.merged parts).titles = parts.flatMap titles :=
  List.filterMap_flatMap ..

theorem titles_titled (title : String) (blocks : List Block) :
    (Sheet.titled title blocks).titles = title :: blocks.filterMap Block.title? :=
  List.filterMap_cons_some rfl

end Sheet

theorem titles_plainBlocks (classes : List UtilityClass) :
    (plainBlocks classes).filterMap Block.title? = [] := by
  simp [plainBlocks, Block.title?]

theorem titles_responsiveBlocks (classes : List UtilityClass) (breakpoints : List Breakpoint) :
    (responsiveBlocks classes breakpoints).filterMap Block.title? = [] := by
  simp [responsiveBlocks, titles_plainBlocks, Block.minWidth, Block.title?]

/-- The titles of a section. Only the palette may have a second one. -/
def Part.titles (darkMode : Bool) : Part → List String
  | palette => if darkMode then ["Palette", "Dark mode"] else ["Palette"]
  | text => ["Typography"]
  | grid => ["Layout"]
  | component .button => ["Component: button"]
  | component .card => ["Component: card"]
  | component .alert => ["Component: alert"]
  | group .spacing => ["Spacing"]
  | group .flex => ["Flex"]
  | group .color => ["Color & border"]
  | group .image => ["Image"]
  | transitions => ["Transition"]

theorem Part.titles_sheet (theme : Theme) (part : Part) :
    (part.sheet theme).titles = part.titles theme.darkMode := by
  have responsive (title : String) (blocks : List Block) (classes : List UtilityClass)
      (breakpoints : List Breakpoint) :
      ((Sheet.titled title blocks).withResponsive classes breakpoints).titles =
        title :: blocks.filterMap Block.title? := by
    rw [← List.append_nil (blocks.filterMap _), ← titles_responsiveBlocks classes breakpoints,
      ← List.filterMap_append]
    exact Sheet.titles_titled title (blocks ++ responsiveBlocks classes breakpoints)
  have plain (title : String) (classes : List UtilityClass) :
      (Sheet.titled title (plainBlocks classes)).titles = [title] := by
    rw [Sheet.titles_titled, titles_plainBlocks]
  match part with
  | .palette =>
    rw [sheet, Theme.palette, Sheet.titles_titled, List.cons_append, List.filterMap_cons_none rfl,
      List.filterMap_append, titles_plainBlocks, titles]
    cases theme.darkMode <;> rfl
  | .text => rfl
  | .grid => exact responsive _ _ _ _
  | .component .button => rfl
  | .component .card => rfl
  | .component .alert =>
    rw [sheet, Component.sheet, Components.alert, Sheet.titles_titled,
      List.filterMap_cons_none rfl, List.filterMap_map]
    exact congrArg _ (List.filterMap_eq_nil_iff.mpr fun tone _ => rfl)
  | .group .spacing => exact responsive _ _ _ _
  | .group .flex => exact responsive _ _ _ _
  | .group .color => exact plain _ _
  | .group .image => exact plain _ _
  | .transitions => exact plain _ _

theorem Part.nodup_flatMap_titles (darkMode : Bool) {parts : List Part} (once : parts.Nodup) :
    (parts.flatMap (titles darkMode)).Nodup := by
  have single : ∀ part ∈ all, (titles darkMode part).Nodup := by
    cases darkMode <;> decide
  have apart : ∀ part ∈ all, ∀ other ∈ all, part ≠ other →
      ∀ title ∈ titles darkMode part, title ∉ titles darkMode other := by
    cases darkMode <;> decide
  refine List.nodup_flatMap.mpr ⟨fun part _ => single part part.mem_all, ?_⟩
  refine once.imp fun {part other} different title left right => ?_
  exact apart part part.mem_all other other.mem_all different title left right

namespace Theme

variable (theme : Theme)

/-- Nothing but the recognised components reaches the artifacts. -/
theorem compile_congr_components {components : List String}
    (same : (components.filterMap Component.ofName?).eraseDups = theme.knownComponents) :
    { theme with components }.compile = theme.compile := by
  have sections : { theme with components }.sections = theme.sections := by
    have known : { theme with components }.knownComponents = theme.knownComponents := same
    rw [sections_eq, sections_eq, parts, parts, known]
    refine List.map_congr_left fun part _ => ?_
    rcases part with _ | _ | _ | (_ | _ | _) | (_ | _ | _ | _) | _ <;> rfl
  simp only [compile, readable, sheet, sections]

/-- Nothing but the recognised groups reaches the artifacts. -/
theorem compile_congr_utilities {utilities : List String}
    (same : (utilities.filterMap UtilityGroup.ofName?).eraseDups = theme.knownUtilities) :
    { theme with utilities }.compile = theme.compile := by
  have sections : { theme with utilities }.sections = theme.sections := by
    have known : { theme with utilities }.knownUtilities = theme.knownUtilities := same
    rw [sections_eq, sections_eq, parts, parts, known]
    refine List.map_congr_left fun part _ => ?_
    rcases part with _ | _ | _ | (_ | _ | _) | (_ | _ | _ | _) | _ <;> rfl
  simp only [compile, readable, sheet, sections]

theorem titles_sheet : theme.sheet.titles = theme.parts.flatMap (Part.titles theme.darkMode) := by
  rw [sheet, Sheet.titles_merged, sections_eq, List.flatMap_map]
  exact List.flatMap_congr fun part _ => part.titles_sheet theme

theorem readable_parts : theme.readable = banner ++ "\n" ++ String.intercalate "\n"
    (theme.parts.map fun part => withVendorCopies (part.sheet theme).text) := by
  have nonempty : theme.sections ≠ [] := List.cons_ne_nil _ _
  rw [readable_eq, sheet, Sheet.withVendorCopies_merged nonempty theme.isSection_of_mem_sections,
    sections_eq, List.map_map]
  rfl

/-- Names that mention nothing new change nothing, whether they stand among the components or among
the utilities. What is recognised is listed once, in the order of its first mention, and in this
order the sections follow each other in the artifact: each once, under a title of its own. -/
theorem compile_of_addsNothing :
    let parts := [.palette, .text, .grid] ++ theme.knownComponents.map Part.component ++
      theme.knownUtilities.map Part.group ++ [.transitions]
    (∀ components, AddsNothing Component.ofName? theme.components components →
      { theme with components }.compile = theme.compile) ∧
    (∀ utilities, AddsNothing UtilityGroup.ofName? theme.utilities utilities →
      { theme with utilities }.compile = theme.compile) ∧
    ListsMentions Component.ofName? theme.components theme.knownComponents ∧
    ListsMentions UtilityGroup.ofName? theme.utilities theme.knownUtilities ∧
    parts.Nodup ∧
    theme.compile.readable = banner ++ "\n" ++ String.intercalate "\n"
      (parts.map fun part => withVendorCopies (part.sheet theme).text) ∧
    theme.sheet.titles = parts.flatMap (Part.titles theme.darkMode) ∧
    theme.sheet.titles.Nodup := by
  refine ⟨fun components adds => ?_, fun utilities adds => ?_, listsMentions_eraseDups _,
    listsMentions_eraseDups _, theme.nodup_parts, theme.readable_parts, theme.titles_sheet, ?_⟩
  · exact theme.compile_congr_components adds.eraseDups
  · exact theme.compile_congr_utilities adds.eraseDups
  · rw [titles_sheet]
    exact Part.nodup_flatMap_titles theme.darkMode theme.nodup_parts

/-- A component with blanks around its name that is listed already, and a group that there is not. -/
theorem compile_of_addsNothing_sea :
    let theme : Theme := {
      colors := ⟨[("sea", ⟨0, 102, 204⟩)], List.nodup_singleton _⟩
      typography := ⟨"Inter, sans-serif", "Georgia, serif"⟩
      layout := ⟨⟨.ofNat 1200, "px"⟩, 12, .empty⟩
      spacing := ⟨⟨.ofNat 16, "px"⟩, Spacing.defaultLineHeight⟩
      transition := Transition.usual
      darkMode := true
      components := ["card", "button"]
      utilities := ["flex"] }
    let padded := { theme with components := ["card", "button", " " ++ "card" ++ "\n"] }
    let unknown := { theme with utilities := ["grid", "flex"] }
    padded.compile = theme.compile ∧ unknown.compile = theme.compile := by
  intro theme padded unknown
  have card : Component.ofName? "card" = some .card := rfl
  have again : AddsNothing Component.ofName? theme.components padded.components :=
    .again [] ["button"] [] card
      ((Component.ofName?_padded (by simp) (by simp) "card").trans card)
  have ignored : AddsNothing UtilityGroup.ofName? theme.utilities unknown.utilities :=
    .unknown [] ["flex"] rfl
  obtain ⟨components, utilities, -⟩ := theme.compile_of_addsNothing
  exact ⟨components _ again, utilities _ ignored⟩

end Theme

end ThemeCss
