import ThemeCss.Proofs.FileTree.Directories

/-! # Files that are written and read

Whether a file can be written is decided by the directories of a tree alone, and writing leaves them
as they are: it changes one entry. A text that is read stays the same as long as its file does.
-/

namespace ThemeCss.FileTree

variable {tree other : FileTree} {path : Path}

/-- A file can be put where a path leads: there is a directory for it, and none in its place. -/
structure Receives (tree : FileTree) (path : String) : Prop where
  parses : Path.parse path = .ok (.ofList path.toList)
  ends : ∃ name, tree.EndsIn (.ofList path.toList) name
  slash : (Path.ofList path.toList).slash = false
  free : tree.entry (tree.destination path) ≠ some .directory

theorem destination_congr (work : other.work = tree.work) (path : String) :
    other.destination path = tree.destination path := target_congr work _

theorem SameDirectories.receives_iff {path : String} (same : tree.SameDirectories other) :
    other.Receives path ↔ tree.Receives path := by
  have ends : (∃ name, other.EndsIn (.ofList path.toList) name) ↔
      ∃ name, tree.EndsIn (.ofList path.toList) name := exists_congr fun _ => same.endsIn_iff
  have free : other.entry (other.destination path) ≠ some .directory ↔
      tree.entry (tree.destination path) ≠ some .directory := by
    rw [destination_congr same.work, ne_eq, same.directory]
  constructor
  · rintro ⟨parses, found, slash, vacant⟩
    exact ⟨parses, ends.mp found, slash, free.mp vacant⟩
  · rintro ⟨parses, found, slash, vacant⟩
    exact ⟨parses, ends.mpr found, slash, free.mpr vacant⟩

theorem put_of_endsIn {name : String} {bytes : ByteArray} (ends : tree.EndsIn path name)
    (slashless : path.slash = false) :
    tree.put path bytes = match tree.entry (tree.target path) with
      | some .directory => .error .isADirectory
      | none | some (.file _) =>
        .ok (tree.update name (tree.target path).tail (some (.file bytes))) := by
  obtain ⟨directory, above, place, child⟩ := ends.exists_above
  rw [put, above, Except.bind, ends.last, ← place, List.tail_cons]
  simp only [slashless, Bool.false_eq_true, if_false, child, ← place]
  rcases tree.entry (name :: directory.place) with _ | _ | _ <;> rfl

/-- A file that is written is the only entry that is another one. -/
theorem write_of_receives {path : String} (receives : tree.Receives path) (bytes : ByteArray) :
    ∃ after, tree.write path bytes = (.ok (), after) ∧ after.work = tree.work ∧
      ∀ place, after.entry place =
        if place = tree.destination path then some (.file bytes) else tree.entry place := by
  obtain ⟨name, ends⟩ := receives.ends
  have leaf := receives.free
  rw [destination] at leaf ⊢
  have done : tree.put (.ofList path.toList) bytes =
      .ok (tree.update name (tree.target (.ofList path.toList)).tail (some (.file bytes))) := by
    rw [put_of_endsIn ends receives.slash]
    split
    · next stands => exact absurd stands leaf
    · rfl
    · rfl
  have outcome : tree.write path bytes = (.ok (),
      tree.update name (tree.target (.ofList path.toList)).tail (some (.file bytes))) := by
    rw [write, receives.parses, Except.bind, done]
    rfl
  refine ⟨_, outcome, rfl, fun place => ?_⟩
  have parent := ends.entry_tail
  rw [ends.target, List.tail_cons] at parent
  rw [ends.target] at leaf
  rw [ends.target, List.tail_cons]
  exact entry_update _ parent leaf place

/-- Writing a file leaves the directories as they are. -/
theorem sameDirectories_of_write {path : String} {bytes : ByteArray} {after : FileTree}
    (free : tree.entry (tree.destination path) ≠ some .directory) (work : after.work = tree.work)
    (entry : ∀ place, after.entry place =
      if place = tree.destination path then some (.file bytes) else tree.entry place) :
    tree.SameDirectories after := by
  refine ⟨work, fun place => ?_⟩
  rw [entry]
  split
  · next same =>
    subst same
    exact iff_of_false nofun free
  · rfl

/-- Only what can be received is written. -/
theorem receives_of_write {path : String} {bytes : ByteArray}
    (written : tree.write path bytes = (.ok (), other)) : tree.Receives path := by
  cases parses : Path.parse path with
  | error failure => simp [write, parses, Except.bind, outcome] at written
  | ok parsed =>
    rw [write, parses] at written
    obtain rfl := Path.parse_eq_ok parses
    cases done : tree.put (.ofList path.toList) bytes with
    | error failure => simp [Except.bind, done, outcome] at written
    | ok after =>
      obtain ⟨directory, walked, stepped⟩ := bind_eq_ok_iff.mp done
      cases last : (Path.ofList path.toList).last with
      | stay => simp [last] at stepped
      | up => simp [last] at stepped
      | into name =>
        simp only [last] at stepped
        split at stepped
        · contradiction
        next unslashed =>
        have ends : tree.EndsIn (.ofList path.toList) name := by
          refine ⟨last, exists_walk.mp ⟨directory, walked⟩, ?_⟩
          split at stepped
          · contradiction
          all_goals next child => exact directory.short_of_child child
        have slashless := Bool.eq_false_iff.mpr unslashed
        rw [put_of_endsIn ends slashless] at done
        refine ⟨parses, ⟨name, ends⟩, slashless, fun stands => ?_⟩
        rw [destination] at stands
        simp [stands] at done

/-- A text that is read is that of a file at the end of the path. -/
theorem text_eq_ok_iff {path text : String} : tree.text path = .ok text ↔
    Path.parse path = .ok (.ofList path.toList) ∧
      tree.lookup (.ofList path.toList) = .ok (.file text.toUTF8) := by
  have decodes (bytes : ByteArray) : ((String.fromUTF8? bytes).map Except.ok).getD
      (.error FileFailure.notText) = .ok text ↔ bytes = text.toUTF8 := by
    rw [String.fromUTF8?]
    split
    · next valid =>
      rw [Option.map_some, Option.getD_some, Except.ok.injEq]
      constructor
      · rintro rfl
        rfl
      · rintro rfl
        rfl
    · next invalid =>
      refine iff_of_false nofun ?_
      rintro rfl
      exact invalid text.isValidUTF8
  constructor
  · intro read
    unfold FileTree.text at read
    split at read
    · contradiction
    · contradiction
    · next bytes found =>
      obtain ⟨parsed, parses, looked⟩ := bind_eq_ok_iff.mp found
      obtain rfl := Path.parse_eq_ok parses
      exact ⟨parses, (decodes bytes).mp read ▸ looked⟩
  · rintro ⟨parses, looked⟩
    rw [FileTree.text, parses, Except.bind, looked]
    exact (decodes _).mpr rfl

/-- A text is read again as long as the directories stand and its file is the same. -/
theorem text_of_kept {path text : String} (read : tree.text path = .ok text)
    (work : other.work = tree.work)
    (directories : ∀ place, tree.entry place = some .directory →
      other.entry place = some .directory)
    (file : ∀ bytes, tree.entry (tree.destination path) = some (.file bytes) →
      other.entry (tree.destination path) = some (.file bytes)) : other.text path = .ok text := by
  obtain ⟨parses, looked⟩ := text_eq_ok_iff.mp read
  obtain ⟨⟨name, ends⟩, slashless, stands⟩ := lookup_eq_file_iff.mp looked
  refine text_eq_ok_iff.mpr ⟨parses, lookup_eq_file_iff.mpr ⟨⟨name, ?_⟩, slashless, ?_⟩⟩
  · exact ends.congr work directories
  · rw [target_congr work]
    exact file _ stands

/-- The text of a file that is written is read again. -/
theorem text_of_entry {path text : String} (receives : tree.Receives path)
    (work : other.work = tree.work)
    (directories : ∀ place, tree.entry place = some .directory →
      other.entry place = some .directory)
    (stands : other.entry (tree.destination path) = some (.file text.toUTF8)) :
    other.text path = .ok text := by
  obtain ⟨name, ends⟩ := receives.ends
  refine text_eq_ok_iff.mpr ⟨receives.parses, lookup_eq_file_iff.mpr ⟨⟨name, ?_⟩, receives.slash, ?_⟩⟩
  · exact ends.congr work directories
  · rw [target_congr work]
    exact stands

end ThemeCss.FileTree
