/-! # Named entries in order of first appearance

A catalog lists each name once. Entering a new name puts it at the end; entering a name again
replaces its value and moves nothing.
-/

namespace ThemeCss

structure Catalog (α : Type) where
  entries : List (String × α)
  distinct : (entries.map Prod.fst).Nodup

namespace Catalog

variable {α : Type}

def empty : Catalog α := ⟨[], List.nodup_nil⟩

instance : Inhabited (Catalog α) := ⟨empty⟩

/-- The names in order of first appearance. -/
def names (catalog : Catalog α) : List String := catalog.entries.map Prod.fst

theorem nodup_names (catalog : Catalog α) : catalog.names.Nodup := catalog.distinct

def contains (catalog : Catalog α) (name : String) : Bool := catalog.names.contains name

def find? (catalog : Catalog α) (name : String) : Option α := catalog.entries.lookup name

/-- The entries with the value of one name replaced. -/
def replaced (name : String) (value : α) (entries : List (String × α)) : List (String × α) :=
  entries.map fun entry => if entry.1 = name then (name, value) else entry

theorem names_replaced (name : String) (value : α) (entries : List (String × α)) :
    (replaced name value entries).map Prod.fst = entries.map Prod.fst := by
  rw [replaced, List.map_map]
  apply List.map_congr_left
  intro entry _
  simp only [Function.comp_apply]
  split
  · next same => exact same.symm
  · rfl

/-- Gives a name a value: in its place if the name is known, otherwise at the end. -/
def insert (catalog : Catalog α) (name : String) (value : α) : Catalog α :=
  if known : name ∈ catalog.names then
    ⟨replaced name value catalog.entries, by
      rw [names_replaced]
      exact catalog.distinct⟩
  else
    ⟨catalog.entries ++ [(name, value)], by
      rw [List.map_append, List.map_cons, List.map_nil]
      refine List.nodup_append.mpr ⟨catalog.distinct, List.nodup_cons.mpr ⟨List.not_mem_nil,
        List.nodup_nil⟩, ?_⟩
      intro left leftMember right rightMember same
      rw [List.mem_singleton] at rightMember
      subst same rightMember
      exact known leftMember⟩

theorem names_insert_of_mem {catalog : Catalog α} {name : String} (value : α)
    (known : name ∈ catalog.names) : (catalog.insert name value).names = catalog.names := by
  rw [insert, dif_pos known]
  exact names_replaced name value catalog.entries

theorem names_insert_of_not_mem {catalog : Catalog α} {name : String} (value : α)
    (unknown : name ∉ catalog.names) :
    (catalog.insert name value).names = catalog.names ++ [name] := by
  rw [insert, dif_neg unknown]
  simp [names]

end Catalog

end ThemeCss
