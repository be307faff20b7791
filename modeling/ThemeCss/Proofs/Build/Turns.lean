import ThemeCss.Build
import ThemeCss.Proofs.FileTree.Writes

/-! # Writers taking turns

The first turn makes the directories, whichever writer has it, and no later turn makes or removes
one. So from then on the calls of one writer neither help nor hinder those of the other, and what
has been done depends on how many turns each writer has had and not on their order. A failure is
never forgotten.
-/

namespace ThemeCss

namespace Writer

theorem isName_fileName (writer : Writer) : Path.IsName writer.fileName := by
  cases writer <;> decide

theorem fileName_injective : Function.Injective fileName := by
  intro first second same
  cases first <;> cases second <;> first | rfl | exact absurd same (by decide)

/-- The files of the writers stand in the directory that the artifacts are put into. -/
theorem destination_path (tree : FileTree) (directory : String) (writer : Writer) :
    tree.destination (writer.path directory) = writer.fileName :: tree.destination directory :=
  FileTree.destination_inDirectory writer.isName_fileName directory

theorem destination_path_inj {tree : FileTree} {directory : String} {writer other : Writer} :
    tree.destination (writer.path directory) = tree.destination (other.path directory) ↔
      writer = other := by
  rw [destination_path, destination_path, List.cons.injEq, fileName_injective.eq_iff,
    and_iff_left rfl]

end Writer

namespace Writing

variable {writing : Writing} {writer : Writer}

/-- The next call of a writer fails for this cause. -/
def FailsWith (writing : Writing) (writer : Writer) (cause : FileFailure) : Prop :=
  ∃ call calls after, writing.pending writer = call :: calls ∧
    writing.tree.perform call = (.error cause, after)

/-- The next call of a writer fails. -/
def Fails (writing : Writing) (writer : Writer) : Prop := ∃ cause, writing.FailsWith writer cause

theorem turn_of_idle (idle : writing.pending writer = []) : writing.turn writer = writing := by
  rw [turn]
  simp only [idle]

theorem turn_of_ok {call : Call} {calls : List Call} {tree : FileTree}
    (next : writing.pending writer = call :: calls)
    (done : writing.tree.perform call = (.ok (), tree)) :
    writing.turn writer =
      ⟨tree, Function.update writing.pending writer calls, writing.failure⟩ := by
  rw [turn]
  simp only [next, done]
  congr 1
  funext other
  rw [Function.update_apply]

/-- A writer that fails is named with its failure, unless there has been one before. -/
theorem failure_turn_of_failsWith {cause : FileFailure} (fails : writing.FailsWith writer cause) :
    (writing.turn writer).failure = writing.failure.or (some (writer, cause)) := by
  obtain ⟨call, calls, after, next, failed⟩ := fails
  rw [turn]
  simp only [next, failed]

theorem failure_turn_of_fails (fails : writing.Fails writer) :
    (writing.turn writer).failure ≠ none := by
  obtain ⟨cause, fails⟩ := fails
  rw [failure_turn_of_failsWith fails]
  cases writing.failure <;> nofun

theorem failure_turn_eq (writing : Writing) (writer : Writer) :
    (writing.turn writer).failure = writing.failure ∨
      ∃ cause, writing.FailsWith writer cause ∧
        (writing.turn writer).failure = writing.failure.or (some (writer, cause)) := by
  cases next : writing.pending writer with
  | nil => exact .inl (congrArg failure (turn_of_idle next))
  | cons call calls =>
    rcases performed : writing.tree.perform call with ⟨⟨cause⟩ | ⟨⟨⟩⟩, after⟩
    · have fails : writing.FailsWith writer cause := ⟨call, calls, after, next, performed⟩
      exact .inr ⟨cause, fails, failure_turn_of_failsWith fails⟩
    · left
      rw [turn_of_ok next performed]

variable {named : Writer × FileFailure}

/-- The first failure is kept. -/
theorem failure_turn (first : writing.failure = some named) (writer : Writer) :
    (writing.turn writer).failure = some named := by
  rcases failure_turn_eq writing writer with same | ⟨cause, -, other⟩
  · exact same.trans first
  · rw [other, first, Option.some_or]

theorem turns_cons (writing : Writing) (writer : Writer) (rest : List Writer) :
    writing.turns (writer :: rest) = (writing.turn writer).turns rest := List.foldl_cons ..

theorem failure_turns_eq_some (first : writing.failure = some named) (order : List Writer) :
    (writing.turns order).failure = some named := by
  induction order generalizing writing with
  | nil => exact first
  | cons writer rest ih =>
    rw [turns_cons]
    exact ih (failure_turn first writer)

theorem failure_turns (failed : writing.failure ≠ none) (order : List Writer) :
    (writing.turns order).failure ≠ none := by
  obtain ⟨named, first⟩ := Option.ne_none_iff_exists'.mp failed
  rw [failure_turns_eq_some first order]
  nofun

/-- The failure of a run is that of the first turn that failed. -/
theorem exists_failsWith_of_turns {cause : FileFailure} {order : List Writer}
    (unfailed : writing.failure = none)
    (failed : (writing.turns order).failure = some (writer, cause)) :
    ∃ before behind, order = before ++ writer :: behind ∧
      (writing.turns before).failure = none ∧ (writing.turns before).FailsWith writer cause := by
  induction order generalizing writing with
  | nil => cases unfailed.symm.trans failed
  | cons next rest ih =>
    rw [turns_cons] at failed
    rcases failure_turn_eq writing next with same | ⟨other, fails, first⟩
    · obtain ⟨before, behind, rfl, earlier, fails⟩ := ih (same.trans unfailed) failed
      exact ⟨next :: before, behind, rfl, earlier, fails⟩
    · rw [unfailed, Option.none_or] at first
      cases (failure_turns_eq_some first rest).symm.trans failed
      exact ⟨[], rest, rfl, unfailed, fails⟩

theorem turns_append (writing : Writing) (first second : List Writer) :
    writing.turns (first ++ second) = (writing.turns first).turns second :=
  List.foldl_append

end Writing

section Progress

variable {directory : String} {artifacts : Artifacts} {base : FileTree}

/-- Where the writers are after some turns, the first of which has left the tree `base`. A writer
with two turns has put its file into the tree, and nothing else is another one than in `base`. -/
structure Underway (directory : String) (artifacts : Artifacts) (base : FileTree)
    (taken : List Writer) (writing : Writing) : Prop where
  directories : base.SameDirectories writing.tree
  pending : ∀ writer,
    writing.pending writer = (writer.calls directory artifacts).drop (taken.count writer)
  failure : writing.failure = none
  received : ∀ writer, 2 ≤ taken.count writer → base.Receives (writer.path directory)
  file : ∀ writer, 2 ≤ taken.count writer →
    writing.tree.entry (base.destination (writer.path directory)) =
      some (.file (writer.contents artifacts).toUTF8)
  other : ∀ place,
    (∀ writer, 2 ≤ taken.count writer → place ≠ base.destination (writer.path directory)) →
      writing.tree.entry place = base.entry place

variable {taken : List Writer} {writing : Writing}

theorem count_concat (taken : List Writer) (writer other : Writer) :
    (taken ++ [writer]).count other = taken.count other + if writer = other then 1 else 0 := by
  rw [List.count_append, List.count_singleton]
  simp only [beq_iff_eq]

/-- The pending calls of all writers when one of them has had a turn. -/
theorem Underway.pending_turn (underway : Underway directory artifacts base taken writing)
    (writer other : Writer) :
    Function.update writing.pending writer (writing.pending writer).tail other =
      (other.calls directory artifacts).drop ((taken ++ [writer]).count other) := by
  rw [count_concat, Function.update_apply]
  split
  · next same =>
    subst same
    rw [underway.pending, if_pos rfl, List.tail_drop]
  · next apart => rw [underway.pending, if_neg (Ne.symm apart), Nat.add_zero]

/-- A writer whose turn does not complete it leaves what is done as it is. -/
theorem Underway.of_unfinished (underway : Underway directory artifacts base taken writing)
    (writer : Writer) (unfinished : taken.count writer ≠ 1) :
    Underway directory artifacts base (taken ++ [writer])
      ⟨writing.tree, Function.update writing.pending writer (writing.pending writer).tail,
        writing.failure⟩ := by
  have same (other : Writer) : 2 ≤ (taken ++ [writer]).count other ↔ 2 ≤ taken.count other := by
    rw [count_concat]
    split
    · next equal =>
      subst equal
      omega
    · rw [Nat.add_zero]
  exact {
    directories := underway.directories
    pending := underway.pending_turn writer
    failure := underway.failure
    received := fun other done => underway.received other ((same other).mp done)
    file := fun other done => underway.file other ((same other).mp done)
    other := fun place apart => underway.other place fun other done =>
      apart other ((same other).mpr done) }

/-- A writer whose second turn succeeds has its file in the tree. -/
theorem Underway.of_finished (underway : Underway directory artifacts base taken writing)
    {writer : Writer} (second : taken.count writer = 1)
    (receives : base.Receives (writer.path directory)) {after : FileTree}
    (work : after.work = writing.tree.work)
    (entry : ∀ place, after.entry place =
      if place = writing.tree.destination (writer.path directory) then
        some (.file (writer.contents artifacts).toUTF8)
      else writing.tree.entry place) :
    Underway directory artifacts base (taken ++ [writer])
      ⟨after, Function.update writing.pending writer (writing.pending writer).tail,
        writing.failure⟩ := by
  have done (other : Writer) :
      2 ≤ (taken ++ [writer]).count other ↔ other = writer ∨ 2 ≤ taken.count other := by
    rw [count_concat]
    split
    · next equal =>
      subst equal
      exact iff_of_true (by omega) (.inl rfl)
    · next apart => simp [Ne.symm apart]
  have free := (underway.directories.receives_iff.mpr receives).free
  have target := FileTree.destination_congr underway.directories.work (writer.path directory)
  refine ⟨underway.directories.trans (FileTree.sameDirectories_of_write free work entry),
    underway.pending_turn writer, underway.failure, ?_, ?_, ?_⟩
  · intro other finished
    rcases (done other).mp finished with rfl | earlier
    · exact receives
    · exact underway.received other earlier
  · intro other finished
    rw [entry, target]
    by_cases same : other = writer
    · rw [same, if_pos rfl]
    · rw [if_neg (Writer.destination_path_inj.not.mpr same)]
      exact underway.file other (((done other).mp finished).resolve_left same)
  · intro place apart
    rw [entry, target, if_neg (apart writer ((done writer).mpr (.inl rfl)))]
    exact underway.other place fun other earlier => apart other ((done other).mpr (.inr earlier))

/-- After any further turn the writers are where the turns say, unless the tree cannot receive the
file of the writer. -/
theorem Underway.turn (underway : Underway directory artifacts base taken writing)
    (has : base.HasDirectory (Path.trimmed directory)) (writer : Writer) :
    Underway directory artifacts base (taken ++ [writer]) (writing.turn writer) ∨
      ¬ base.Receives (writer.path directory) ∧ (writing.turn writer).failure ≠ none := by
  have pending := underway.pending writer
  match turns : taken.count writer with
  | 0 =>
    rw [turns] at pending
    have made := FileTree.makeDirectories_of_hasDirectory (underway.directories.hasDirectory has)
    rw [Writing.turn_of_ok pending made]
    have further := underway.of_unfinished writer (by omega)
    rw [pending] at further
    exact .inl further
  | 1 =>
    rw [turns] at pending
    by_cases receives : base.Receives (writer.path directory)
    · have received := underway.directories.receives_iff.mpr receives
      obtain ⟨after, written, work, entry⟩ :=
        FileTree.write_of_receives received (writer.contents artifacts).toUTF8
      rw [Writing.turn_of_ok pending written]
      have further := underway.of_finished turns receives work entry
      rw [pending] at further
      exact .inl further
    · right
      refine ⟨receives, Writing.failure_turn_of_fails ?_⟩
      rcases written : writing.tree.write (writer.path directory)
        (writer.contents artifacts).toUTF8 with ⟨⟨failure⟩ | ⟨⟨⟩⟩, after⟩
      · exact ⟨failure, _, _, after, pending, written⟩
      · have received := FileTree.receives_of_write written
        exact absurd (underway.directories.receives_iff.mp received) receives
  | count + 2 =>
    rw [turns, List.drop_of_length_le (by simp [Writer.calls])] at pending
    rw [Writing.turn_of_idle pending]
    have further := underway.of_unfinished writer (by omega)
    have idle : Function.update writing.pending writer (writing.pending writer).tail =
        writing.pending := by
      rw [pending, List.tail_nil, ← pending, Function.update_eq_self]
    rw [idle] at further
    exact .inl further

/-- Any number of further turns, in any order. -/
theorem Underway.turns (underway : Underway directory artifacts base taken writing)
    (has : base.HasDirectory (Path.trimmed directory)) (order : List Writer) :
    Underway directory artifacts base (taken ++ order) (writing.turns order) ∨
      (∃ writer : Writer, ¬ base.Receives (writer.path directory)) ∧
        (writing.turns order).failure ≠ none := by
  induction order generalizing taken writing with
  | nil =>
    rw [List.append_nil]
    exact .inl underway
  | cons writer rest ih =>
    rw [Writing.turns_cons]
    rcases underway.turn has writer with further | ⟨refused, failed⟩
    · have whole := ih further
      rw [List.append_assoc, List.singleton_append] at whole
      exact whole
    · exact .inr ⟨⟨writer, refused⟩, Writing.failure_turns failed rest⟩

/-- The writers before their first turn. -/
def atStart (directory : String) (artifacts : Artifacts) (tree : FileTree) : Writing :=
  ⟨tree, Writer.calls directory artifacts, none⟩

/-- The first turn makes the directories. -/
theorem underway_first (artifacts : Artifacts) {tree : FileTree}
    (made : tree.makeDirectories (Path.trimmed directory) = (.ok (), base)) (writer : Writer) :
    Underway directory artifacts base [writer]
      ((atStart directory artifacts tree).turn writer) := by
  have pending : (atStart directory artifacts tree).pending writer =
      writer.calls directory artifacts := rfl
  have few (other : Writer) : ¬ 2 ≤ [writer].count other := by
    rw [List.count_singleton]
    split <;> omega
  rw [Writing.turn_of_ok pending made]
  refine ⟨.refl base, fun other => ?_, rfl, fun other many => absurd many (few other),
    fun other many => absurd many (few other), fun _ _ => rfl⟩
  by_cases same : other = writer
  · simp [same, Writer.calls]
  · simp [same, Ne.symm same, atStart]

/-- When the directories cannot be made both writers fail. -/
theorem fails_first {tree : FileTree} {failure : FileFailure}
    (refused : tree.makeDirectories (Path.trimmed directory) = (.error failure, base))
    (writer : Writer) : (atStart directory artifacts tree).Fails writer :=
  ⟨failure, _, _, base, rfl, refused⟩

end Progress

end ThemeCss
