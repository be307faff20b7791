import ThemeCss.Proofs.FileTree.Route

/-! # Trees that grow

Making the directories of a path adds directories to a tree and changes nothing else, whether or not
the last one can be made. Once they are there, making them again changes nothing at all.
-/

namespace ThemeCss.FileTree

variable {tree other : FileTree} {path : Path}

/-- Two trees with the same entries. -/
structure Same (tree other : FileTree) : Prop where
  work : other.work = tree.work
  entry : ∀ place, other.entry place = tree.entry place

/-- Two trees with the same directories, whatever files stand in them. -/
structure SameDirectories (tree other : FileTree) : Prop where
  work : other.work = tree.work
  directory : ∀ place, other.entry place = some .directory ↔ tree.entry place = some .directory

/-- A tree with more directories, and nothing else that is another. -/
structure Grown (tree other : FileTree) : Prop where
  work : other.work = tree.work
  entry : ∀ place, other.entry place = tree.entry place ∨
    tree.entry place = none ∧ other.entry place = some .directory

theorem SameDirectories.refl (tree : FileTree) : tree.SameDirectories tree :=
  ⟨rfl, fun _ => Iff.rfl⟩

theorem SameDirectories.trans {last : FileTree} (first : tree.SameDirectories other)
    (second : other.SameDirectories last) : tree.SameDirectories last :=
  ⟨second.work.trans first.work, fun place => (second.directory place).trans (first.directory place)⟩

theorem Grown.refl (tree : FileTree) : tree.Grown tree := ⟨rfl, fun _ => .inl rfl⟩

theorem Grown.trans {last : FileTree} (first : tree.Grown other) (second : other.Grown last) :
    tree.Grown last where
  work := second.work.trans first.work
  entry place := by
    rcases second.entry place with kept | ⟨absent, made⟩
    · rw [kept]
      exact first.entry place
    · rcases first.entry place with same | ⟨-, there⟩
      · exact .inr ⟨same ▸ absent, made⟩
      · exact absurd (there.symm.trans absent) nofun

/-- What stands in a tree still stands there when it has grown. -/
theorem Grown.kept (grown : tree.Grown other) {place : Place} {entry : Entry}
    (stands : tree.entry place = some entry) : other.entry place = some entry := by
  rcases grown.entry place with same | ⟨absent, -⟩
  · rw [same, stands]
  · exact absurd (stands.symm.trans absent) nofun

section Work

variable (work : other.work = tree.work)

include work

theorem way_congr (path : Path) : other.way path = tree.way path := by
  rw [way, way, start, start, work]

theorem route_congr (path : Path) : other.route path = tree.route path := by
  rw [route, route, way_congr work]

theorem target_congr (path : Path) : other.target path = tree.target path := by
  rw [target, target, route_congr work]

theorem EndsIn.congr {name : String} (kept : ∀ place, tree.entry place = some .directory →
    other.entry place = some .directory) (ends : tree.EndsIn path name) : other.EndsIn path name :=
  ⟨ends.last, way_congr work path ▸ ends.passes.mono kept, ends.short⟩

end Work

theorem SameDirectories.endsIn_iff {name : String} (same : tree.SameDirectories other) :
    other.EndsIn path name ↔ tree.EndsIn path name :=
  ⟨EndsIn.congr same.work.symm fun place => (same.directory place).mp,
    EndsIn.congr same.work fun place => (same.directory place).mpr⟩

theorem makeDirectory_of_endsIn {name : String} (ends : tree.EndsIn path name) :
    tree.makeDirectory path = match tree.entry (tree.target path) with
      | none => .ok (tree.update name (tree.target path).tail (some .directory))
      | some _ => .error .alreadyExists := by
  obtain ⟨directory, above, place, child⟩ := ends.exists_above
  rw [makeDirectory, above, Except.bind, ends.last, ← place, List.tail_cons]
  simp only [child, ← place]
  cases tree.entry (name :: directory.place) <;> rfl

theorem endsIn_of_makeDirectory (made : tree.makeDirectory path = .ok other) :
    ∃ name, tree.EndsIn path name := by
  obtain ⟨directory, walked, stepped⟩ := bind_eq_ok_iff.mp made
  cases last : path.last with
  | stay => simp [last] at stepped
  | up => simp [last] at stepped
  | into name =>
    simp only [last] at stepped
    split at stepped
    · contradiction
    · contradiction
    · next child =>
      exact ⟨name, last, exists_walk.mp ⟨directory, walked⟩, directory.short_of_child child⟩

/-- The directory that names are found in. -/
theorem EndsIn.entry_tail {name : String} (ends : tree.EndsIn path name) :
    tree.entry (tree.target path).tail = some .directory := by
  obtain ⟨directory, -, place, -⟩ := ends.exists_above
  rw [← place, List.tail_cons, directory.entry_place]

/-- A directory that is made is the only new entry. -/
theorem entry_makeDirectory (made : tree.makeDirectory path = .ok other) :
    other.work = tree.work ∧ tree.entry (tree.target path) = none ∧
      ∀ place, other.entry place =
        if place = tree.target path then some .directory else tree.entry place := by
  obtain ⟨name, ends⟩ := endsIn_of_makeDirectory made
  rw [makeDirectory_of_endsIn ends] at made
  split at made
  · next absent =>
    obtain rfl := Except.ok.inj made
    refine ⟨rfl, absent, fun place => ?_⟩
    have parent := ends.entry_tail
    rw [ends.target, List.tail_cons] at parent ⊢
    rw [ends.target] at absent
    exact entry_update _ parent (absent ▸ nofun) place
  · contradiction

theorem grown_makeDirectory (made : tree.makeDirectory path = .ok other) : tree.Grown other := by
  obtain ⟨work, absent, entry⟩ := entry_makeDirectory made
  refine ⟨work, fun place => ?_⟩
  rw [entry place]
  split
  · next same => exact .inr ⟨same ▸ absent, rfl⟩
  · exact .inl rfl

/-- The path to a directory that is made passes to it. -/
theorem passes_makeDirectory (made : tree.makeDirectory path = .ok other) :
    other.Passes (other.route path) := by
  have grown := grown_makeDirectory made
  obtain ⟨work, -, entry⟩ := entry_makeDirectory made
  obtain ⟨name, ends⟩ := endsIn_of_makeDirectory made
  refine passes_route_iff.mpr (.inl ⟨name, ends.congr work fun place => grown.kept, ?_⟩)
  rw [target_congr work, entry, if_pos rfl]

/-- Where a path leads to a directory no other one is made. -/
theorem makeDirectory_of_passes (passes : tree.Passes (tree.route path)) :
    tree.makeDirectory path = .error .alreadyExists := by
  rcases passes_route_iff.mp passes with ⟨name, ends, stands⟩ | ⟨nameless, before⟩
  · rw [makeDirectory_of_endsIn ends, stands]
  · obtain ⟨directory, walked⟩ := exists_walk.mpr before
    have above : tree.above path = .ok directory := walked
    rw [makeDirectory, above, Except.bind]
    cases last : path.last with
    | stay => rfl
    | up => rfl
    | into name => exact absurd last (nameless name)

theorem ensureDirectory_of_passes (passes : tree.Passes (tree.route path)) :
    tree.ensureDirectory path = .ok tree := by
  simp only [ensureDirectory, makeDirectory_of_passes passes, lookup_eq_directory_iff.mpr passes]

theorem grown_ensureDirectory (ensured : tree.ensureDirectory path = .ok other) :
    tree.Grown other ∧ other.Passes (other.route path) := by
  unfold ensureDirectory at ensured
  split at ensured
  · next after made =>
    obtain rfl := Except.ok.inj ensured
    exact ⟨grown_makeDirectory made, passes_makeDirectory made⟩
  · split at ensured
    · next found =>
      obtain rfl := Except.ok.inj ensured
      exact ⟨.refl tree, lookup_eq_directory_iff.mp found⟩
    · contradiction
    · contradiction

/-- Whether or not the last directory can be made, the tree only grows on the way. -/
theorem grown_makeChain (paths : List Path) (tree : FileTree) :
    tree.Grown (makeChain paths tree).2 := by
  induction paths generalizing tree with
  | nil => exact .refl tree
  | cons path above ih =>
    have further := ih tree
    unfold makeChain
    split
    · next after ensured => exact (grown_ensureDirectory ensured).1
    · split
      · next after chained =>
        rw [chained] at further
        cases ensured : after.ensureDirectory path with
        | error failure => exact further
        | ok last => exact further.trans (grown_ensureDirectory ensured).1
      · next failure after chained =>
        rw [chained] at further
        exact further
    · exact .refl tree

/-- A chain that is made leads to a directory. -/
theorem passes_makeChain {above : List Path}
    (made : makeChain (path :: above) tree = (.ok (), other)) : other.Passes (other.route path) := by
  unfold makeChain at made
  split at made
  · next after ensured =>
    obtain rfl := congrArg Prod.snd made
    exact (grown_ensureDirectory ensured).2
  · split at made
    · next after chained =>
      cases ensured : after.ensureDirectory path with
      | error failure => simp [outcome, ensured] at made
      | ok last =>
        rw [ensured] at made
        obtain rfl : last = other := congrArg Prod.snd made
        exact (grown_ensureDirectory ensured).2
    · exact absurd (congrArg Prod.fst made) nofun
  · exact absurd (congrArg Prod.fst made) nofun

/-- The text of a path leads to a directory; the empty one leads to the working directory. -/
def HasDirectory (tree : FileTree) (path : String) : Prop :=
  path.isEmpty = true ∨ ∃ parsed, Path.parse path = .ok parsed ∧ tree.Passes (tree.route parsed)

theorem SameDirectories.hasDirectory {path : String} (same : tree.SameDirectories other)
    (has : tree.HasDirectory path) : other.HasDirectory path := by
  refine has.imp_right fun ⟨parsed, parses, passes⟩ => ⟨parsed, parses, ?_⟩
  rw [route_congr same.work]
  exact passes.mono fun place => (same.directory place).mpr

theorem grown_makeDirectories (tree : FileTree) (path : String) :
    tree.Grown (tree.makeDirectories path).2 := by
  unfold makeDirectories
  split
  · exact .refl tree
  · split
    · exact .refl tree
    · exact grown_makeChain _ tree

theorem hasDirectory_makeDirectories {path : String}
    (made : tree.makeDirectories path = (.ok (), other)) : other.HasDirectory path := by
  unfold makeDirectories at made
  split at made
  · next empty => exact .inl empty
  · split at made
    · exact absurd (congrArg Prod.fst made) nofun
    · next parsed parses => exact .inr ⟨parsed, parses, passes_makeChain made⟩

/-- Where the directories are nothing is made. -/
theorem makeDirectories_of_hasDirectory {path : String} (has : tree.HasDirectory path) :
    tree.makeDirectories path = (.ok (), tree) := by
  unfold makeDirectories
  split
  · rfl
  · next nonempty =>
    obtain ⟨parsed, parses, passes⟩ := has.resolve_left nonempty
    simp only [parses, makeChain, ensureDirectory_of_passes passes]

end ThemeCss.FileTree
