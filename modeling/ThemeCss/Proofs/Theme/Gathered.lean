import ThemeCss.Catalog
import ThemeCss.Proofs.Json.Unordered
import ThemeCss.Proofs.Theme.Mentions

/-! # Names that are given more than once

An object that is read as a catalog may give a name more than once. The catalog then has one entry
of that name, at the place of the first mention and with the value of the last one.
-/

namespace ThemeCss

open Json

variable {α : Type}

namespace Catalog

variable {catalog : Catalog α} {name other : String} {value : α}

/-- One entry for each name, at the place of its first mention and with the value of its last one. -/
structure Gathers (catalog : Catalog α) (mentions : List (String × α)) : Prop where
  names : catalog.names = (mentions.map Prod.fst).eraseDups
  find? : ∀ name, catalog.find? name = mentions.reverse.lookup name

theorem gathers_empty : (empty : Catalog α).Gathers [] := ⟨rfl, fun _ => rfl⟩

theorem lookup_replaced (entries : List (String × α)) :
    (replaced name value entries).lookup other =
      if other = name ∧ name ∈ entries.map Prod.fst then some value else entries.lookup other := by
  induction entries with
  | nil => simp [replaced]
  | cons entry entries ih =>
    obtain ⟨first, old⟩ := entry
    rw [replaced, List.map_cons, ← replaced]
    by_cases same : first = name
    · subst same
      by_cases here : other = first
      · simp [here]
      · have test : (other == first) = false := beq_eq_false_iff_ne.mpr here
        simp [List.lookup_cons, test, here, ih]
    · by_cases here : other = first
      · simp [here, same]
      · have test : (other == first) = false := beq_eq_false_iff_ne.mpr here
        have member : name ∈ ((first, old) :: entries).map Prod.fst ↔ name ∈ entries.map Prod.fst := by
          rw [List.map_cons, List.mem_cons, or_iff_right (Ne.symm same)]
        simp only [member, same, List.lookup_cons, test, ih, ↓reduceIte]

theorem find?_insert : (catalog.insert name value).find? other =
    if other = name then some value else catalog.find? other := by
  rw [insert]
  split
  · next known =>
    rw [find?, lookup_replaced]
    have member : name ∈ catalog.entries.map Prod.fst := known
    simp only [member, and_true]
    rfl
  · next unknown =>
    rw [find?, List.lookup_append, find?]
    by_cases here : other = name
    · have absent : catalog.entries.lookup name = none := by
        rw [List.lookup_eq_none_iff]
        intro entry member
        have ne : entry.1 ≠ name := fun same => unknown (List.mem_map.mpr ⟨entry, member, same⟩)
        simp [Ne.symm ne]
      simp [here, absent]
    · have test : (other == name) = false := beq_eq_false_iff_ne.mpr here
      simp [List.lookup_cons, test, here]

theorem Gathers.insert {mentions : List (String × α)} (gathers : catalog.Gathers mentions)
    (name : String) (value : α) :
    (catalog.insert name value).Gathers (mentions ++ [(name, value)]) := by
  refine ⟨?_, fun other => ?_⟩
  · rw [List.map_append, List.map_cons, List.map_nil, eraseDups_concat]
    split
    · next known =>
      rw [names_insert_of_mem value (gathers.names ▸ List.mem_eraseDups.mpr known), gathers.names]
    · next fresh =>
      have unknown : name ∉ catalog.names := by
        rw [gathers.names, List.mem_eraseDups]
        exact fresh
      rw [names_insert_of_not_mem value unknown, gathers.names]
  · rw [find?_insert, List.reverse_append, gathers.find?]
    by_cases here : other = name
    · simp [here]
    · have test : (other == name) = false := beq_eq_false_iff_ne.mpr here
      simp [List.lookup_cons, test, here]

/-- The catalog of what is mentioned, in the order of the mentions. -/
def gather (mentions : List (String × α)) : Catalog α :=
  mentions.foldl (fun catalog mention => catalog.insert mention.1 mention.2) empty

theorem gathers_gather (mentions : List (String × α)) : (gather mentions).Gathers mentions := by
  induction mentions using List.reverseRecOn with
  | nil => exact gathers_empty
  | append_singleton mentions mention ih =>
    rw [gather, List.foldl_append]
    exact ih.insert mention.1 mention.2

end Catalog

namespace Json

/-- The members are these names with texts that are read as these values. -/
def Reader.Lists (reader : Reader α) (members : List Member) (mentions : List (String × α)) : Prop :=
  List.Forall₂ (fun member mention =>
    member.Named mention.1 ∧ reader.whole? member.value = some mention.2) members mentions

theorem Reader.Lists.foldlM {reader : Reader α} {members : List Member}
    {mentions : List (String × α)} (lists : reader.Lists members mentions) (catalog : Catalog α) :
    (raw members).foldlM (RawMember.lead? reader.enter?) catalog =
      some (mentions.foldl (fun catalog mention => catalog.insert mention.1 mention.2) catalog) := by
  induction lists generalizing catalog with
  | nil => rfl
  | @cons member mention members mentions first _ ih =>
    obtain ⟨named, read⟩ := first
    have lead : member.toRawMember.lead? reader.enter? catalog =
        some (catalog.insert mention.1 mention.2) := by
      rw [RawMember.lead?, named.name?, Option.bind_some, enter?, read]
      rfl
    rw [raw, List.map_cons, List.foldlM_cons, lead]
    exact ih _

/-- An object that gives names more than once is read as the catalog that gathers them. -/
theorem Reader.Lists.whole? {reader : Reader α} (steady : reader.Steady) {members : List Member}
    {mentions : List (String × α)} (lists : reader.Lists members mentions) (gap : Gap) :
    (catalog reader).whole? (objectText gap (raw members)) = some (Catalog.gather mentions) := by
  rw [(settles_catalog steady gap (isValue_of_mem_raw members)).whole?, lists.foldlM]
  rfl

/-- Beside an empty object, nothing but the catalog is different. -/
theorem Reader.Lists.whole?_eq_map {reader : Reader α} (steady : reader.Steady)
    {members : List Member} {mentions : List (String × α)} (lists : reader.Lists members mentions)
    (gap emptyGap : Gap) : (catalog reader).whole? (objectText gap (raw members)) =
      ((catalog reader).whole? (objectText emptyGap (raw []))).map fun _ =>
        Catalog.gather mentions := by
  have nothing : reader.Lists [] [] := .nil
  rw [lists.whole? steady, nothing.whole? steady, Option.map_some]

end Json

end ThemeCss
