import ThemeCss.Proofs.Sheet.Cascade
import ThemeCss.Proofs.Sheet.ClassName
import ThemeCss.Proofs.Vendor.Match

/-! # The classes of a sheet

A sheet lists the classes of all its selectors, each once. Sections that have no class in common can
be listed one by one. The name of a utility class that depends on the width of the page is read from
behind: the last colon ends the label of a breakpoint, and so neither two labels nor two classes can
make the same name.
-/

namespace ThemeCss

section EachOnce

variable {α β : Type} [BEq α] [LawfulBEq α]

theorem nodup_eraseDups (entries : List α) : entries.eraseDups.Nodup := by
  cases entries with
  | nil => exact List.nodup_nil
  | cons first rest =>
    rw [List.eraseDups_cons, List.nodup_cons]
    exact ⟨by simp [List.mem_eraseDups], nodup_eraseDups (rest.filter fun entry => !entry == first)⟩
termination_by entries.length
decreasing_by exact Nat.lt_succ_of_le (List.length_filter_le _ rest)

theorem eraseDups_of_nodup {entries : List α} (nodup : entries.Nodup) :
    entries.eraseDups = entries := by
  induction entries with
  | nil => rfl
  | cons first rest ih =>
    obtain ⟨absent, others⟩ := List.nodup_cons.mp nodup
    have kept : rest.filter (fun entry => !entry == first) = rest := by
      rw [List.filter_eq_self]
      rintro entry member
      simpa using fun same : entry = first => absent (same ▸ member)
    rw [List.eraseDups_cons, kept, ih others]

theorem eraseDups_append_of_disjoint {first second : List α} (apart : first.Disjoint second) :
    (first ++ second).eraseDups = first.eraseDups ++ second.eraseDups := by
  have kept : second.removeAll first = second := by
    rw [List.removeAll, List.filter_eq_self]
    intro entry member
    simpa using fun known : entry ∈ first => apart known member
  rw [List.eraseDups_append, kept]

theorem eraseDups_flatMap {lists : β → List α} {indices : List β}
    (apart : indices.Pairwise (Function.onFun List.Disjoint lists)) :
    (indices.flatMap lists).eraseDups = indices.flatMap fun index => (lists index).eraseDups := by
  induction indices with
  | nil => rfl
  | cons first rest ih =>
    obtain ⟨own, others⟩ := List.pairwise_cons.mp apart
    rw [List.flatMap_cons, List.flatMap_cons, eraseDups_append_of_disjoint, ih others]
    intro entry left right
    obtain ⟨index, member, listed⟩ := List.mem_flatMap.mp right
    exact own index member left listed

theorem eraseDups_map [BEq β] [LawfulBEq β] {f : α → β} (injective : Function.Injective f)
    (entries : List α) : (entries.map f).eraseDups = entries.eraseDups.map f := by
  induction length : entries.length using Nat.strongRecOn generalizing entries with
  | ind bound ih =>
    subst length
    cases entries with
    | nil => rfl
    | cons first rest =>
      have others : (rest.map f).filter (fun entry => !entry == f first) =
          (rest.filter fun entry => !entry == first).map f := by
        rw [List.filter_map]
        congr 2
        funext entry
        simp [injective.eq_iff]
      rw [List.map_cons, List.eraseDups_cons, List.eraseDups_cons, others, List.map_cons,
        ih _ (Nat.lt_succ_of_le (List.length_filter_le _ rest)) _ rfl]

end EachOnce

section Separator

variable {c : Char} {first second rest other : List Char}

theorem forall_bne_of_not_mem (absent : c ∉ first) : ∀ d ∈ first, (d != c) = true := by
  intro d member
  simpa using fun same : d = c => absent (same ▸ member)

/-- The first separator cuts a text in one way only. -/
theorem append_cons_inj_first (absent : c ∉ first) (missing : c ∉ second)
    (same : first ++ c :: rest = second ++ c :: other) : first = second ∧ rest = other := by
  have fronts := congrArg (List.takeWhile (· != c)) same
  have behind := congrArg (List.dropWhile (· != c)) same
  rw [takeWhile_append_cons (forall_bne_of_not_mem absent) (by simp),
    takeWhile_append_cons (forall_bne_of_not_mem missing) (by simp)] at fronts
  rw [dropWhile_append_cons (forall_bne_of_not_mem absent) (by simp),
    dropWhile_append_cons (forall_bne_of_not_mem missing) (by simp)] at behind
  exact ⟨fronts, (List.cons.inj behind).2⟩

/-- The last separator does so too. -/
theorem append_cons_inj_last (absent : c ∉ rest) (missing : c ∉ other)
    (same : first ++ c :: rest = second ++ c :: other) : first = second ∧ rest = other := by
  have reversed := congrArg List.reverse same
  simp only [List.reverse_append, List.reverse_cons, List.append_assoc,
    List.singleton_append] at reversed
  obtain ⟨behind, fronts⟩ :=
    append_cons_inj_first (by simpa using absent) (by simpa using missing) reversed
  exact ⟨List.reverse_injective fronts, List.reverse_injective behind⟩

end Separator

/-- The name of a class for all pages, or for those as wide as a breakpoint. -/
def labelled (label : Option String) (name : String) : String :=
  match label with
  | some label => s!"{label}:{name}"
  | none => name

theorem UtilityClass.selector_rule (label : Option String) (utility : UtilityClass) :
    (utility.rule label).selector = classSelector (labelled label utility.name) := by
  cases label <;> rfl

section Labelled

variable {label other : Option String} {name next : String}

theorem toList_labelled_some (label name : String) :
    (labelled (some label) name).toList = label.toList ++ ':' :: name.toList := by
  simp [labelled, toString]

/-- The last colon tells the label. -/
theorem labelled_inj (plain : ':' ∉ name.toList) (further : ':' ∉ next.toList)
    (same : labelled label name = labelled other next) : label = other ∧ name = next := by
  have unlike {label name next : String} (plain : ':' ∉ next.toList) :
      labelled (some label) name ≠ labelled none next := by
    intro same
    have letters := congrArg String.toList same
    rw [toList_labelled_some, labelled] at letters
    simp [← letters] at plain
  cases label with
  | none =>
    cases other with
    | none => exact ⟨rfl, same⟩
    | some other => exact absurd same.symm (unlike plain)
  | some label =>
    cases other with
    | none => exact absurd same (unlike further)
    | some other =>
      rw [← String.toList_inj, toList_labelled_some, toList_labelled_some] at same
      obtain ⟨labels, names⟩ := append_cons_inj_last plain further same
      exact ⟨congrArg some (String.toList_inj.mp labels), String.toList_inj.mp names⟩

theorem isClassName_labelled (named : IsClassName name)
    (lines : ∀ text ∈ label, '\n' ∉ text.toList) : IsClassName (labelled label name) := by
  cases label with
  | none => exact named
  | some label => exact ⟨by simp [labelled, toString], by simp [labelled, toString, named.2, lines]⟩

end Labelled

/-- The names of classes for all pages and then for every breakpoint. -/
def responsiveNames (names labels : List String) : List String :=
  (none :: labels.map some).flatMap fun label => names.map (labelled label)

section Responsive

variable {names labels : List String}

theorem mem_responsiveNames {name : String} : name ∈ responsiveNames names labels ↔
    ∃ label ∈ none :: labels.map some, ∃ own ∈ names, labelled label own = name := by
  simp only [responsiveNames, List.mem_flatMap, List.mem_map]

theorem length_responsiveNames :
    (responsiveNames names labels).length = names.length * (1 + labels.length) := by
  simp [responsiveNames, List.length_flatMap, Function.comp_def]
  ring

/-- No two pairs of a class and a label make the same name. -/
theorem nodup_responsiveNames (distinct : names.Nodup) (plain : ∀ name ∈ names, ':' ∉ name.toList)
    (apart : labels.Nodup) : (responsiveNames names labels).Nodup := by
  have labels : (none :: labels.map some).Nodup :=
    List.nodup_cons.mpr ⟨by simp, apart.map (Option.some_injective _)⟩
  refine List.nodup_flatMap.mpr ⟨fun label _ => ?_, labels.imp fun {label other} different => ?_⟩
  · exact distinct.map_on fun name member next further same =>
      (labelled_inj (plain name member) (plain next further) same).2
  · intro name left right
    obtain ⟨own, member, rfl⟩ := List.mem_map.mp left
    obtain ⟨next, further, same⟩ := List.mem_map.mp right
    exact different (labelled_inj (plain next further) (plain own member) same).1.symm

theorem isClassName_of_mem_responsiveNames (named : ∀ name ∈ names, IsClassName name)
    (lines : ∀ label ∈ labels, '\n' ∉ label.toList) :
    ∀ name ∈ responsiveNames names labels, IsClassName name := by
  intro name member
  obtain ⟨label, known, own, listed, rfl⟩ := mem_responsiveNames.mp member
  refine isClassName_labelled (named own listed) fun text same => lines text ?_
  subst same
  simpa using known

end Responsive

namespace Sheet

/-- The selectors of all rules in document order. -/
def selectors (sheet : Sheet) : List String := sheet.rules.map (·.selector)

theorem selectors_rule (classes : List UtilityClass) (label : Option String) :
    (classes.map (UtilityClass.rule label)).map (·.selector) =
      ((classes.map (·.name)).map (labelled label)).map classSelector := by
  simp only [List.map_map, Function.comp_def, UtilityClass.selector_rule]

theorem selectors_plainBlocks (classes : List UtilityClass) :
    ((plainBlocks classes).flatMap Block.rules).map (·.selector) =
      (classes.map (·.name)).map classSelector := by
  have rules : (plainBlocks classes).flatMap Block.rules = classes.map (UtilityClass.rule none) := by
    rw [plainBlocks, List.flatMap_map]
    exact List.flatMap_pure_eq_map _ _
  rw [rules, selectors_rule]
  exact congrArg _ (List.map_id _)

theorem selectors_withResponsive (sheet : Sheet) (classes : List UtilityClass)
    (breakpoints : List Breakpoint) :
    (sheet.withResponsive classes breakpoints).selectors = sheet.selectors ++
      (responsiveNames (classes.map (·.name)) (breakpoints.map (·.label))).map classSelector := by
  have wide : (breakpoints.flatMap fun breakpoint =>
        classes.map (UtilityClass.rule (some breakpoint.label))).map (·.selector) =
      ((breakpoints.map (·.label)).flatMap fun label =>
        (classes.map (·.name)).map (labelled (some label))).map classSelector := by
    rw [List.map_flatMap, List.flatMap_map, List.map_flatMap]
    exact List.flatMap_congr fun breakpoint _ => selectors_rule classes (some breakpoint.label)
  rw [selectors, rules, withResponsive, responsiveBlocks, List.flatMap_append, List.flatMap_append,
    List.map_append, List.map_append, selectors_plainBlocks, List.flatMap_map, responsiveNames,
    List.flatMap_cons, List.flatMap_map, List.map_append]
  exact congrArg _ (congrArg₂ _ (congrArg _ (List.map_id _).symm) wide)

theorem classNames_eq_selectors (sheet : Sheet) : sheet.classNames =
    (sheet.selectors.flatMap fun selector => classesIn selector.toList).eraseDups := by
  rw [classNames, selectors, List.flatMap_map]

/-- The selectors mention these classes, in this order. -/
def Mentions (selectors names : List String) : Prop :=
  selectors.flatMap (fun selector => classesIn selector.toList) = names.map escapeClass

namespace Mentions

variable {selectors others names more : List String}

theorem append (first : Mentions selectors names) (second : Mentions others more) :
    Mentions (selectors ++ others) (names ++ more) := by
  rw [Mentions, List.flatMap_append, List.map_append, first, second]

theorem of_hasClasses {selector : String} (has : HasClasses selector.toList names) :
    Mentions [selector] names := by
  rw [Mentions, List.flatMap_singleton, has.classesIn]

theorem cons {selector : String} (has : HasClasses selector.toList names)
    (rest : Mentions others more) : Mentions (selector :: others) (names ++ more) :=
  (of_hasClasses has).append rest

theorem classSelectors (named : ∀ name ∈ names, IsClassName name) :
    Mentions (names.map classSelector) names := by
  induction names with
  | nil => rfl
  | cons name rest ih =>
    obtain ⟨single, others⟩ := List.forall_mem_cons.mp named
    exact (ih others).cons (hasClasses_classSelector single)

/-- What the selectors of a sheet mention are its classes, each once. -/
theorem classNames {sheet : Sheet} (mentions : Mentions sheet.selectors names) :
    sheet.classNames = names.eraseDups.map escapeClass := by
  rw [Mentions] at mentions
  rw [classNames_eq_selectors, mentions, eraseDups_map injective_escapeClass]

end Mentions

/-- Sections that have no class in common list theirs one after the other. -/
theorem classNames_merged {parts : List Sheet}
    (apart : parts.Pairwise fun first second => first.classNames.Disjoint second.classNames) :
    (merged parts).classNames = parts.flatMap classNames := by
  rw [classNames, rules_merged, List.flatMap_assoc, eraseDups_flatMap]
  · rfl
  · refine apart.imp fun {first second} disjoint name left right => ?_
    exact disjoint (List.mem_eraseDups.mpr left) (List.mem_eraseDups.mpr right)

end Sheet

end ThemeCss
