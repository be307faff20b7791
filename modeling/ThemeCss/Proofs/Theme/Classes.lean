import ThemeCss.Proofs.Theme.Rules
import ThemeCss.Proofs.Theme.Stems

/-! # The classes of a theme

The classes of a theme are listed section by section, each once. Stems keep the sections apart; only
the palette and the group for colours have stems in common, and they are apart as long as no colour
is named like a keyword of that group.
-/

namespace ThemeCss

/-- The names of colours and breakpoints make different names of classes, all of which can be read
from a selector. -/
structure Theme.DistinctNames (theme : Theme) : Prop where
  colors : ∀ name ∈ theme.colors.names, ':' ∉ name.toList ∧ '\n' ∉ name.toList
  labels : ∀ label ∈ theme.layout.breakpoints.names, '\n' ∉ label.toList
  variants : ∀ name ∈ theme.colors.names, ∀ other ∈ theme.colors.names,
    ∀ variant ∈ ["-light", "-dark"], name ≠ other ++ variant
  keywords : .color ∈ theme.knownUtilities → ∀ name ∈ theme.colors.names,
    name ∉ ["0", "transparent", "inherit"]

/-- The sections of a theme, by what they are about. -/
inductive Part where
  | palette
  | text
  | grid
  | component (component : Component)
  | group (group : UtilityGroup)
  | transitions
deriving DecidableEq

namespace Part

def sheet (theme : Theme) : Part → Sheet
  | palette => theme.palette
  | text => theme.text
  | grid => theme.grid
  | component known => known.sheet theme
  | group known => known.sheet theme
  | transitions => theme.transitions

/-- The classes of a section, each once, in the order of their first mention. -/
def classes (theme : Theme) : Part → List String
  | palette => theme.colors.names.flatMap fun name => Palette.uses.map (Palette.className name)
  | text => []
  | grid => ["container", "row"] ++
      responsiveNames (Page.columnNames theme.layout.columns) theme.layout.breakpoints.names
  | component .button => ["btn", "btn-secondary"]
  | component .card => ["card"]
  | component .alert =>
    "alert" :: (tones.filter theme.colors.contains).map fun tone => s!"alert-{tone}"
  | group .spacing => responsiveNames Utilities.spacingNames theme.layout.breakpoints.names
  | group .flex =>
    responsiveNames (Utilities.flexClasses.map (·.name)) theme.layout.breakpoints.names
  | group .color => Utilities.colorClasses.map (·.name)
  | group .image => Utilities.imageClasses.map (·.name)
  | transitions => Utilities.transitionNames

/-- The stems that the classes of a section have. -/
def stems : Part → List String
  | palette => ["text", "bg", "border"]
  | text => []
  | grid => ["container", "row", "col"]
  | component .button => ["btn"]
  | component .card => ["card"]
  | component .alert => ["alert"]
  | group .spacing => ["m", "p"]
  | group .flex => ["flex", "inline", "items", "justify"]
  | group .color => ["border", "rounded", "bg", "text"]
  | group .image => ["img"]
  | transitions => ["transition"]

/-- All sections that there may be. -/
def all : List Part := [
  palette, text, grid, component .button, component .card, component .alert, group .spacing,
  group .flex, group .color, group .image, transitions]

theorem mem_all (part : Part) : part ∈ all := by
  rcases part with _ | _ | _ | (_ | _ | _) | (_ | _ | _ | _) | _ <;> decide

end Part

/-- The sections of a theme in their order. -/
def Theme.parts (theme : Theme) : List Part :=
  [.palette, .text, .grid] ++ theme.knownComponents.map .component ++
    theme.knownUtilities.map .group ++ [.transitions]

theorem Theme.sections_eq (theme : Theme) : theme.sections = theme.parts.map (Part.sheet theme) := by
  simp [sections, parts, componentSheets, utilitySheets, Part.sheet, Function.comp_def]

theorem Theme.labels_breakpoints (theme : Theme) :
    theme.breakpoints.map (·.label) = theme.layout.breakpoints.names := by
  rw [breakpoints, List.map_map]
  rfl

/-- Classes behind labels keep their stems and can be read from a selector. -/
theorem isClassName_responsiveNames {names labels stems : List String}
    (plain : ∀ name ∈ names, IsPlainName stems name) (lines : ∀ label ∈ labels, '\n' ∉ label.toList) :
    ∀ name ∈ responsiveNames names labels, IsClassName name ∧ stem name ∈ stems := by
  intro name member
  refine ⟨isClassName_of_mem_responsiveNames (fun own listed => (plain own listed).1) lines name
    member, ?_⟩
  obtain ⟨label, -, own, listed, rfl⟩ := mem_responsiveNames.mp member
  obtain ⟨-, colon, known⟩ := plain own listed
  rwa [stem_labelled colon]

namespace Theme.DistinctNames

variable {theme : Theme} (distinct : theme.DistinctNames)

include distinct

/-- The classes of a section can be read from a selector, and have one of its stems. -/
theorem isClassName (part : Part) :
    ∀ name ∈ part.classes theme, IsClassName name ∧ stem name ∈ part.stems := by
  have plain {stems names : List String} (table : ∀ name ∈ names, IsPlainName stems name) :
      ∀ name ∈ names, IsClassName name ∧ stem name ∈ stems :=
    fun name member => ⟨(table name member).1, (table name member).2.2⟩
  match part with
  | .palette =>
    refine List.forall_mem_flatMap.mpr fun name member => List.forall_mem_map.mpr fun use known => ?_
    obtain ⟨colon, line⟩ := distinct.colors name member
    obtain ⟨named, -, front⟩ := Palette.isPlainName_className known colon line
    have stems : ∀ front ∈ Palette.uses.map Prod.fst, front ∈ Part.stems .palette := by decide
    exact ⟨named, stems _ front⟩
  | .text => exact List.forall_mem_nil _
  | .grid =>
    refine List.forall_mem_append.mpr ⟨plain (by decide), fun name member => ?_⟩
    obtain ⟨named, known⟩ := isClassName_responsiveNames Page.isPlainName_of_mem_columnNames
      distinct.labels name member
    exact ⟨named, List.mem_cons_of_mem _ (List.mem_cons_of_mem _ known)⟩
  | .component .button =>
    exact plain (by decide : ∀ name ∈ ["btn", "btn-secondary"], IsPlainName ["btn"] name)
  | .component .card => exact plain (by decide : ∀ name ∈ ["card"], IsPlainName ["card"] name)
  | .component .alert =>
    have table : ∀ tone ∈ tones, IsPlainName ["alert"] s!"alert-{tone}" := by decide
    refine plain (List.forall_mem_cons.mpr ⟨by decide, List.forall_mem_map.mpr fun tone known => ?_⟩)
    exact table tone (List.mem_of_mem_filter known)
  | .group .spacing =>
    exact isClassName_responsiveNames Utilities.isPlainName_of_mem_spacingNames distinct.labels
  | .group .flex => exact isClassName_responsiveNames (by decide) distinct.labels
  | .group .color =>
    exact plain (by decide : ∀ name ∈ Utilities.colorClasses.map (·.name),
      IsPlainName (Part.stems (.group .color)) name)
  | .group .image =>
    exact plain (by decide : ∀ name ∈ Utilities.imageClasses.map (·.name), IsPlainName ["img"] name)
  | .transitions =>
    exact plain (by decide : ∀ name ∈ Utilities.transitionNames, IsPlainName ["transition"] name)

theorem nodup_classes (part : Part) : (part.classes theme).Nodup := by
  have labels : theme.layout.breakpoints.names.Nodup := theme.layout.breakpoints.nodup_names
  match part with
  | .palette => exact Palette.nodup_classNames theme.colors.nodup_names distinct.variants
  | .text => exact List.nodup_nil
  | .grid =>
    have columns := nodup_responsiveNames (Page.nodup_columnNames theme.layout.columns)
      (fun name member => (Page.isPlainName_of_mem_columnNames name member).2.1) labels
    refine List.nodup_append'.mpr ⟨by decide, columns, fun name own column => ?_⟩
    have other : ∀ name ∈ ["container", "row"], stem name ∉ ["col"] := by decide
    exact other name own (isClassName_responsiveNames Page.isPlainName_of_mem_columnNames
      distinct.labels name column).2
  | .component .button => exact (by decide : ["btn", "btn-secondary"].Nodup)
  | .component .card => exact List.nodup_singleton _
  | .component .alert =>
    have whole : ("alert" :: tones.map fun tone => s!"alert-{tone}").Nodup := by decide
    exact whole.sublist ((List.filter_sublist.map _).cons_cons _)
  | .group .spacing =>
    exact nodup_responsiveNames Utilities.nodup_spacingNames
      (fun name member => (Utilities.isPlainName_of_mem_spacingNames name member).2.1) labels
  | .group .flex => exact nodup_responsiveNames (by decide) (by decide) labels
  | .group .color => exact (by decide : (Utilities.colorClasses.map (·.name)).Nodup)
  | .group .image => exact (by decide : (Utilities.imageClasses.map (·.name)).Nodup)
  | .transitions => exact (by decide : Utilities.transitionNames.Nodup)

end Theme.DistinctNames

/-- A selector without a dot has no class. -/
theorem hasClasses_of_not_mem {selector : String} (plain : '.' ∉ selector.toList) :
    HasClasses selector.toList [] := by
  simpa using HasClasses.nil.append plain

/-- A state of an element adds no class to the selector. -/
theorem hasClasses_hover {name : String} (named : IsClassName name) :
    HasClasses (classSelector name ++ ":hover").toList [name] := by
  rw [String.toList_append]
  exact (hasClasses_of_not_mem (by decide)).classSelector named rfl

theorem hasClasses_next {name other : String} (named : IsClassName name)
    (further : IsClassName other) :
    HasClasses (classSelector name ++ " + " ++ classSelector other).toList [name, other] := by
  rw [String.append_assoc, String.toList_append, String.toList_append]
  exact ((hasClasses_classSelector further).append (by decide)).classSelector named rfl

section Selectors

open Sheet

variable {theme : Theme}

theorem mentions_palette (named : ∀ name ∈ Part.classes theme .palette, IsClassName name) :
    Mentions theme.palette.selectors (Part.classes theme .palette) := by
  have names : (theme.colors.names.flatMap Palette.classes).map (·.name) =
      Part.classes theme .palette := by
    rw [List.map_flatMap]
    exact List.flatMap_congr fun name _ => Palette.names_classes name
  have root : HasClasses ":root".toList [] := hasClasses_of_not_mem (by decide)
  have body : HasClasses "body".toList [] := hasClasses_of_not_mem (by decide)
  have dark : Mentions (((if theme.darkMode then Palette.darkBlocks theme.colors else []).flatMap
      Block.rules).map (·.selector)) [] := by
    split
    · exact .cons root (.of_hasClasses body)
    · rfl
  have whole : theme.palette.selectors = ":root" :: ((Part.classes theme .palette).map classSelector ++
      ((if theme.darkMode then Palette.darkBlocks theme.colors else []).flatMap Block.rules).map
        (·.selector)) := by
    rw [selectors, Theme.palette, Sheet.rules_titled, List.cons_append, List.flatMap_cons,
      List.flatMap_append, List.map_append, List.map_append, selectors_plainBlocks, names]
    rfl
  rw [whole]
  simpa using Mentions.cons root ((Mentions.classSelectors named).append dark)

theorem mentions_text : Mentions theme.text.selectors [] := by
  have body : HasClasses "body".toList [] := hasClasses_of_not_mem (by decide)
  have headings : HasClasses "h1, h2, h3, h4, h5, h6".toList [] :=
    hasClasses_of_not_mem (by decide)
  exact .cons body (.of_hasClasses headings)

theorem mentions_withResponsive {title : String} {classes : List UtilityClass}
    {names : List String} (same : classes.map (·.name) = names)
    (named : ∀ name ∈ responsiveNames names theme.layout.breakpoints.names, IsClassName name) :
    Mentions ((Sheet.titled title).withResponsive classes theme.breakpoints).selectors
      (responsiveNames names theme.layout.breakpoints.names) := by
  rw [selectors_withResponsive, theme.labels_breakpoints, same]
  exact .classSelectors named

theorem mentions_plainBlocks {title : String} {classes : List UtilityClass} {names : List String}
    (same : classes.map (·.name) = names) (named : ∀ name ∈ names, IsClassName name) :
    Mentions (Sheet.titled title (plainBlocks classes)).selectors names := by
  rw [selectors, Sheet.rules_titled, selectors_plainBlocks, same]
  exact .classSelectors named

theorem mentions_grid (named : ∀ name ∈ Part.classes theme .grid, IsClassName name) :
    Mentions theme.grid.selectors (Part.classes theme .grid) := by
  have own : ∀ name ∈ ["container", "row"], IsClassName name := by decide
  rw [Theme.grid, selectors_withResponsive, theme.labels_breakpoints, Page.names_columnClasses]
  exact (Mentions.classSelectors own).append
    (.classSelectors (List.forall_mem_append.mp named).2)

theorem mentions_button :
    Mentions (Components.button theme).selectors ["btn", "btn", "btn-secondary", "btn-secondary"] := by
  have button : IsClassName "btn" := by decide
  have secondary : IsClassName "btn-secondary" := by decide
  have names : (Components.button theme).selectors = [
      classSelector "btn", classSelector "btn" ++ ":hover", classSelector "btn-secondary",
      classSelector "btn-secondary" ++ ":hover"] :=
    (Components.selectors_button theme).trans (by decide)
  rw [names]
  exact .cons (hasClasses_classSelector button) (.cons (hasClasses_hover button)
    (.cons (hasClasses_classSelector secondary) (.of_hasClasses (hasClasses_hover secondary))))

theorem mentions_card :
    Mentions (Components.card theme).selectors ["card", "card", "card", "card"] := by
  have card : IsClassName "card" := by decide
  have names : (Components.card theme).selectors = [
      classSelector "card", classSelector "card" ++ ":hover",
      classSelector "card" ++ " + " ++ classSelector "card"] :=
    (Components.selectors_card theme).trans (by decide)
  rw [names]
  exact .cons (hasClasses_classSelector card) (.cons (hasClasses_hover card)
    (.of_hasClasses (hasClasses_next card card)))

theorem mentions_alert (named : ∀ name ∈ Part.classes theme (.component .alert), IsClassName name) :
    Mentions (Components.alert theme).selectors (Part.classes theme (.component .alert)) := by
  have table : ∀ tone ∈ tones, classSelector s!"alert-{tone}" = s!".alert-{tone}" := by decide
  have names : (Components.alert theme).selectors =
      (Part.classes theme (.component .alert)).map classSelector := by
    rw [selectors, Components.selectors_alert, Part.classes, List.map_cons, List.map_map]
    exact congrArg₂ _ (by decide) (List.map_congr_left fun tone member =>
      (table tone (List.mem_of_mem_filter member)).symm)
  rw [names]
  exact .classSelectors named

end Selectors

/-- The classes of a section are those in its list. -/
theorem Theme.DistinctNames.classNames_part {theme : Theme} (distinct : theme.DistinctNames)
    (part : Part) : (part.sheet theme).classNames = (part.classes theme).map escapeClass := by
  have named (part : Part) : ∀ name ∈ part.classes theme, IsClassName name :=
    fun name member => (distinct.isClassName part name member).1
  have once {part : Part} (mentions : Sheet.Mentions (part.sheet theme).selectors
      (part.classes theme)) : (part.sheet theme).classNames = (part.classes theme).map escapeClass := by
    rw [mentions.classNames, eraseDups_of_nodup (distinct.nodup_classes part)]
  match part with
  | .palette => exact once (mentions_palette (named .palette))
  | .text => exact once mentions_text
  | .grid => exact once (mentions_grid (named .grid))
  | .component .button => exact mentions_button.classNames
  | .component .card => exact mentions_card.classNames
  | .component .alert => exact once (mentions_alert (named (.component .alert)))
  | .group .spacing =>
    exact once (mentions_withResponsive (Utilities.names_spacingClasses _) (named (.group .spacing)))
  | .group .flex => exact once (mentions_withResponsive rfl (named (.group .flex)))
  | .group .color => exact once (mentions_plainBlocks rfl (named (.group .color)))
  | .group .image => exact once (mentions_plainBlocks rfl (named (.group .image)))
  | .transitions =>
    exact once (mentions_plainBlocks (Utilities.names_transitionClasses _) (named .transitions))

/-- Sections with a stem in common are the palette and the group for colours. -/
theorem Part.disjoint_stems {part other : Part} (different : part ≠ other)
    (apart : ¬ (part = palette ∧ other = group .color))
    (rest : ¬ (part = group .color ∧ other = palette)) : part.stems.Disjoint other.stems := by
  have table : ∀ part ∈ all, ∀ other ∈ all, part ≠ other →
      ¬ (part = palette ∧ other = group .color) → ¬ (part = group .color ∧ other = palette) →
        ∀ front ∈ part.stems, front ∉ other.stems := by decide
  exact fun front => table part part.mem_all other other.mem_all different apart rest front

theorem Theme.nodup_knownComponents (theme : Theme) : theme.knownComponents.Nodup :=
  nodup_eraseDups _

theorem Theme.nodup_knownUtilities (theme : Theme) : theme.knownUtilities.Nodup :=
  nodup_eraseDups _

theorem Theme.nodup_parts (theme : Theme) : theme.parts.Nodup := by
  have components : (theme.knownComponents.map Part.component).Nodup :=
    theme.nodup_knownComponents.map fun _ _ => Part.component.inj
  have groups : (theme.knownUtilities.map Part.group).Nodup :=
    theme.nodup_knownUtilities.map fun _ _ => Part.group.inj
  simp only [parts, List.nodup_append', components, groups, List.nodup_singleton, true_and]
  refine ⟨⟨⟨by decide, ?_⟩, ?_⟩, ?_⟩
  · simp [List.Disjoint]
  · simp [List.Disjoint]
  · rw [List.disjoint_singleton]
    simp

namespace Theme.DistinctNames

variable {theme : Theme} (distinct : theme.DistinctNames)

include distinct

theorem disjoint_palette_color (known : .group .color ∈ theme.parts) :
    (Part.classes theme .palette).Disjoint (Part.classes theme (.group .color)) := by
  have recognised : .color ∈ theme.knownUtilities := by simpa [Theme.parts] using known
  intro text left right
  obtain ⟨name, member, own⟩ := List.mem_flatMap.mp left
  obtain ⟨use, listed, rfl⟩ := List.mem_map.mp own
  exact Palette.className_not_mem listed (distinct.keywords recognised name member) right

theorem disjoint_classes {part other : Part} (known : part ∈ theme.parts)
    (listed : other ∈ theme.parts) (different : part ≠ other) :
    (part.classes theme).Disjoint (other.classes theme) := by
  by_cases front : part = .palette ∧ other = .group .color
  · obtain ⟨rfl, rfl⟩ := front
    exact distinct.disjoint_palette_color listed
  by_cases behind : part = .group .color ∧ other = .palette
  · obtain ⟨rfl, rfl⟩ := behind
    exact (distinct.disjoint_palette_color known).symm
  · intro name left right
    exact Part.disjoint_stems different front behind (distinct.isClassName part name left).2
      (distinct.isClassName other name right).2

/-- The classes of a theme are those of its sections, none missed and none merged with another. -/
theorem classNames_sheet :
    theme.sheet.classNames = (theme.parts.flatMap (Part.classes theme)).map escapeClass := by
  have apart : theme.sections.Pairwise fun first second =>
      first.classNames.Disjoint second.classNames := by
    rw [theme.sections_eq, List.pairwise_map]
    refine List.Pairwise.imp_of_mem (fun {part other} known listed different => ?_) theme.nodup_parts
    rw [distinct.classNames_part, distinct.classNames_part]
    exact List.disjoint_map injective_escapeClass
      (distinct.disjoint_classes known listed different)
  rw [Theme.sheet, Sheet.classNames_merged apart, theme.sections_eq, List.flatMap_map,
    List.map_flatMap]
  exact List.flatMap_congr fun part _ => distinct.classNames_part part

end Theme.DistinctNames

/-- What is counted over a list without repetition is counted once for every member of it. -/
theorem sum_map_of_nodup {α : Type} [DecidableEq α] {items all : List α} (once : items.Nodup)
    (distinct : all.Nodup) (complete : ∀ item, item ∈ all) (size : α → Nat) :
    (items.map size).sum = (all.map fun item => if item ∈ items then size item else 0).sum := by
  have same : items.Perm (all.filter (· ∈ items)) :=
    (List.perm_ext_iff_of_nodup once (distinct.filter _)).mpr fun item => by simp [complete]
  have split (rest : List α) : ((rest.filter (· ∈ items)).map size).sum =
      (rest.map fun item => if item ∈ items then size item else 0).sum := by
    induction rest with
    | nil => rfl
    | cons item rest ih =>
      by_cases member : item ∈ items
      · simp [member, ih]
      · simp [member, ih]
  rw [(same.map size).sum_eq, split]

namespace Theme

variable (theme : Theme)

theorem length_classes_components :
    ((theme.knownComponents.map Part.component).flatMap (Part.classes theme)).length =
      (if .button ∈ theme.knownComponents then 2 else 0) +
        (if .card ∈ theme.knownComponents then 1 else 0) +
        (if .alert ∈ theme.knownComponents then
          1 + (tones.filter theme.colors.contains).length else 0) := by
  have complete : ∀ known : Component, known ∈ [.button, .card, .alert] := by
    rintro (_ | _ | _) <;> decide
  rw [List.flatMap_map, List.length_flatMap,
    sum_map_of_nodup theme.nodup_knownComponents (by decide) complete]
  simp [Part.classes, Nat.add_assoc, Nat.add_comm 1]

theorem length_classes_utilities :
    ((theme.knownUtilities.map Part.group).flatMap (Part.classes theme)).length =
      (if .spacing ∈ theme.knownUtilities then
        112 * (1 + theme.layout.breakpoints.names.length) else 0) +
        (if .flex ∈ theme.knownUtilities then
          14 * (1 + theme.layout.breakpoints.names.length) else 0) +
        (if .color ∈ theme.knownUtilities then 8 else 0) +
        (if .image ∈ theme.knownUtilities then 5 else 0) := by
  have complete : ∀ known : UtilityGroup, known ∈ [.spacing, .flex, .color, .image] := by
    rintro (_ | _ | _ | _) <;> decide
  have spacing : Utilities.spacingNames.length = 112 := rfl
  rw [List.flatMap_map, List.length_flatMap,
    sum_map_of_nodup theme.nodup_knownUtilities (by decide) complete]
  simp [Part.classes, length_responsiveNames, spacing, Utilities.flexClasses,
    Utilities.colorClasses, Utilities.imageClasses, Nat.add_assoc]

/-- The number of classes of a theme. -/
theorem classCount_compile (distinct : theme.DistinctNames) :
    let colors := theme.colors.names.length
    let widths := 1 + theme.layout.breakpoints.names.length
    theme.compile.classCount = 7 * colors + 2 + theme.layout.columns * widths +
      (if .button ∈ theme.knownComponents then 2 else 0) +
      (if .card ∈ theme.knownComponents then 1 else 0) +
      (if .alert ∈ theme.knownComponents then
        1 + (tones.filter theme.colors.contains).length else 0) +
      (if .spacing ∈ theme.knownUtilities then 112 * widths else 0) +
      (if .flex ∈ theme.knownUtilities then 14 * widths else 0) +
      (if .color ∈ theme.knownUtilities then 8 else 0) +
      (if .image ∈ theme.knownUtilities then 5 else 0) + 4 := by
  intro colors widths
  have palette : (Part.classes theme .palette).length = 7 * colors := by
    simp [Part.classes, List.length_flatMap, Palette.uses, Nat.mul_comm, colors]
  have grid : (Part.classes theme .grid).length = 2 + theme.layout.columns * widths := by
    rw [Part.classes, List.length_append, length_responsiveNames, Page.columnNames,
      List.length_map, List.length_range]
    rfl
  have first : ([Part.palette, .text, .grid].flatMap (Part.classes theme)).length =
      7 * colors + (2 + theme.layout.columns * widths) := by
    rw [List.flatMap_cons, List.flatMap_cons, List.flatMap_singleton, List.length_append, palette,
      ← grid]
    rfl
  have last : ([Part.transitions].flatMap (Part.classes theme)).length = 4 := rfl
  have count : theme.compile.classCount = theme.sheet.classNames.length := rfl
  rw [count, distinct.classNames_sheet, List.length_map, parts, List.flatMap_append,
    List.flatMap_append, List.flatMap_append, List.length_append, List.length_append,
    List.length_append, first, last, theme.length_classes_components,
    theme.length_classes_utilities]
  simp only [widths]
  ring

/-- A theme with every kind of class: a name that has to be escaped in a selector, a label that begins
with a digit, and unknown and repeated names of components. -/
theorem classCount_compile_harbour :
    let theme : Theme := {
      colors := ⟨[("sea", ⟨0, 102, 204⟩), ("primary", ⟨16, 32, 48⟩), ("deep sea", ⟨0, 20, 60⟩)],
        by decide⟩
      typography := ⟨"Inter", "Georgia"⟩
      layout := ⟨⟨.ofNat 1200, "px"⟩, 12, ⟨[("md", ⟨.ofNat 768, "px"⟩), ("2xl", ⟨.ofNat 1536, "px"⟩)],
        by decide⟩⟩
      spacing := ⟨⟨.ofNat 16, "px"⟩, Spacing.defaultLineHeight⟩
      transition := Transition.usual
      darkMode := true
      components := ["alert", "carousel", " alert "]
      utilities := ["flex", "color"] }
    theme.DistinctNames ∧ theme.compile.classCount = 115 := by
  intro theme
  have distinct : theme.DistinctNames :=
    ⟨by decide, by decide, by decide, fun _ => by decide⟩
  have components : theme.knownComponents = [.alert] := by decide +kernel
  have utilities : theme.knownUtilities = [.flex, .color] := by decide +kernel
  have count := theme.classCount_compile distinct
  simp only [components, utilities] at count
  exact ⟨distinct, count.trans (by decide)⟩

end Theme

end ThemeCss
