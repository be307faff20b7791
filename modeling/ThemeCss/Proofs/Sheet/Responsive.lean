import ThemeCss.Proofs.Sheet.ReadBack

/-! # Classes for every width of the page

Responsive classes are put behind the blocks of a sheet: each class once for all pages, and then once
more for every breakpoint, with the same declarations. Only the names tell the rules of a class
apart. If the names of the classes have no colon, no two pairs of a class and a label are written in
the same way, whatever stands in the labels.
-/

namespace ThemeCss

theorem injective_classSelector : Function.Injective classSelector := by
  intro first second same
  rw [← String.toList_inj, classSelector, classSelector, String.toList_append,
    String.toList_append, List.append_cancel_left_eq, String.toList_inj] at same
  exact injective_escapeClass same

namespace Sheet

section Apart

variable {classes : List UtilityClass} {breakpoints : List Breakpoint}
  (named : ∀ utility ∈ classes, IsClassName utility.name)
  (plain : ∀ utility ∈ classes, ':' ∉ utility.name.toList)
  (distinct : (classes.map (·.name)).Nodup)
  (lines : ∀ breakpoint ∈ breakpoints, '\n' ∉ breakpoint.label.toList)
  (apart : (breakpoints.map (·.label)).Nodup)

theorem selectors_withResponsive_empty (classes : List UtilityClass)
    (breakpoints : List Breakpoint) :
    (withResponsive {} classes breakpoints).selectors =
      (responsiveNames (classes.map (·.name)) (breakpoints.map (·.label))).map classSelector :=
  selectors_withResponsive {} classes breakpoints

include plain distinct apart

theorem nodup_names_withResponsive :
    (responsiveNames (classes.map (·.name)) (breakpoints.map (·.label))).Nodup :=
  nodup_responsiveNames distinct (List.forall_mem_map.mpr plain) apart

/-- Every pair of a class and a label has a selector of its own. -/
theorem nodup_selectors_withResponsive :
    (withResponsive {} classes breakpoints).selectors.Nodup := by
  rw [selectors_withResponsive_empty]
  exact (nodup_names_withResponsive plain distinct apart).map injective_classSelector

include named lines

theorem length_classNames_withResponsive :
    (withResponsive {} classes breakpoints).classNames.length =
      classes.length * (1 + breakpoints.length) := by
  have readable := isClassName_of_mem_responsiveNames (List.forall_mem_map.mpr named)
    (List.forall_mem_map.mpr lines)
  rw [classNames_of_selectors (selectors_withResponsive_empty classes breakpoints) readable,
    eraseDups_of_nodup (nodup_names_withResponsive plain distinct apart), List.length_map,
    length_responsiveNames, List.length_map, List.length_map]

end Apart

/-- Putting responsive classes into a sheet leaves its blocks as they are and in front. Behind them
come the rules of the classes in order, and then for each breakpoint one media query with the same
classes and declarations in the same order. If the classes have different names that can be read and
have no colon, and the breakpoints have different labels without line breaks, there is a class, and a
selector that no other has, for every class alone and for every class with every breakpoint. -/
theorem withResponsive_distinct :
    (∀ (sheet : Sheet) (classes : List UtilityClass) (breakpoints : List Breakpoint),
        (sheet.withResponsive classes breakpoints).blocks = sheet.blocks ++
          ((classes.map fun utility => .rule {
              selector := classSelector utility.name
              declarations := utility.declarations
              style := .compact }) ++
            breakpoints.map fun breakpoint =>
              .media s!"(min-width: {breakpoint.minWidth})" (classes.map fun utility => {
                selector := classSelector s!"{breakpoint.label}:{utility.name}"
                declarations := utility.declarations
                style := .compact }))) ∧
      ∀ (classes : List UtilityClass) (breakpoints : List Breakpoint),
        (∀ utility ∈ classes, utility.name ≠ "" ∧ '\n' ∉ utility.name.toList) →
        (∀ utility ∈ classes, ':' ∉ utility.name.toList) →
        (classes.map (·.name)).Nodup →
        (∀ breakpoint ∈ breakpoints, '\n' ∉ breakpoint.label.toList) →
        (breakpoints.map (·.label)).Nodup →
        (withResponsive {} classes breakpoints).classNames.length =
            classes.length * (1 + breakpoints.length) ∧
          (withResponsive {} classes breakpoints).selectors.Nodup := by
  refine ⟨fun _ _ _ => rfl, ?_⟩
  intro classes breakpoints named plain distinct lines apart
  constructor
  · exact length_classNames_withResponsive named plain distinct lines apart
  · exact nodup_selectors_withResponsive plain distinct apart

/-- An empty label, a label with a colon, and a digit at the front of a class. -/
theorem withResponsive_distinct_labels :
    let classes : List UtilityClass := [⟨"m-0", [⟨"margin", "0"⟩]⟩, ⟨"2-up", []⟩]
    let breakpoints : List Breakpoint := [⟨"", "0px"⟩, ⟨"sm:2-up", "640px"⟩]
    (∀ utility ∈ classes, utility.name ≠ "" ∧ '\n' ∉ utility.name.toList) ∧
      (∀ utility ∈ classes, ':' ∉ utility.name.toList) ∧
      (classes.map (·.name)).Nodup ∧
      (∀ breakpoint ∈ breakpoints, '\n' ∉ breakpoint.label.toList) ∧
      (breakpoints.map (·.label)).Nodup ∧
      (withResponsive {} classes breakpoints).classNames.length = 6 ∧
      (withResponsive {} classes breakpoints).selectors.Nodup := by
  intro classes breakpoints
  have named : ∀ utility ∈ classes, utility.name ≠ "" ∧ '\n' ∉ utility.name.toList := by decide
  have plain : ∀ utility ∈ classes, ':' ∉ utility.name.toList := by decide
  have distinct : (classes.map (·.name)).Nodup := by decide
  have lines : ∀ breakpoint ∈ breakpoints, '\n' ∉ breakpoint.label.toList := by decide
  have apart : (breakpoints.map (·.label)).Nodup := by decide
  obtain ⟨count, selectors⟩ :=
    withResponsive_distinct.2 classes breakpoints named plain distinct lines apart
  exact ⟨named, plain, distinct, lines, apart, count, selectors⟩

end Sheet

end ThemeCss
