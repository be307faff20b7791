import ThemeCss.Proofs.Build.Refusal
import ThemeCss.Proofs.Build.Turns

/-! # Builds do not depend on the order of the turns

As soon as each writer has had its two turns the result is that of any other order: the same report
beside the same entries, or a failure. A build that has succeeded can be repeated, and changes
nothing more.
-/

namespace ThemeCss

namespace Build

/-- Each writer has the turns that it needs. -/
def Fair (order : List Writer) : Prop := ∀ writer, 2 ≤ order.count writer

theorem fair_iff {order : List Writer} :
    Fair order ↔ 2 ≤ order.count .readable ∧ 2 ≤ order.count .minified := by
  constructor
  · intro fair
    exact ⟨fair .readable, fair .minified⟩
  · rintro ⟨readable, minified⟩ (_ | _)
    · exact readable
    · exact minified

theorem Fair.exists_first {order : List Writer} (fair : Fair order) :
    ∃ writer rest, order = writer :: rest := by
  cases order with
  | nil => exact absurd (fair .readable) (by decide)
  | cons writer rest => exact ⟨writer, rest, rfl⟩

section Delivery

variable {directory : String} {artifacts : Artifacts} {order : List Writer}
  {tree base after : FileTree}

/-- The directories for the artifacts are there, and both files can be put. -/
structure Ready (directory : String) (base : FileTree) : Prop where
  has : base.HasDirectory (Path.trimmed directory)
  receives : ∀ writer : Writer, base.Receives (writer.path directory)

/-- Both files stand in the tree, and everything else is as before. -/
structure Delivered (directory : String) (artifacts : Artifacts) (base after : FileTree) :
    Prop where
  directories : base.SameDirectories after
  file : ∀ writer : Writer, after.entry (base.destination (writer.path directory)) =
    some (.file (writer.contents artifacts).toUTF8)
  other : ∀ place, (∀ writer : Writer, place ≠ base.destination (writer.path directory)) →
    after.entry place = base.entry place

theorem Delivered.same {other : FileTree} (first : Delivered directory artifacts base after)
    (second : Delivered directory artifacts base other) : after.Same other := by
  refine ⟨second.directories.work.trans first.directories.work.symm, fun place => ?_⟩
  by_cases output : ∃ writer : Writer, place = base.destination (writer.path directory)
  · obtain ⟨writer, rfl⟩ := output
    rw [first.file, second.file]
  · rw [first.other place (not_exists.mp output), second.other place (not_exists.mp output)]

/-- Delivered once more, the artifacts change nothing. -/
theorem Delivered.again {other : FileTree} (first : Delivered directory artifacts base after)
    (second : Delivered directory artifacts after other) : after.Same other := by
  have target (writer : Writer) :=
    FileTree.destination_congr first.directories.work (writer.path directory)
  refine ⟨second.directories.work, fun place => ?_⟩
  by_cases output : ∃ writer : Writer, place = after.destination (writer.path directory)
  · obtain ⟨writer, rfl⟩ := output
    rw [second.file, target, first.file]
  · exact second.other place (not_exists.mp output)

theorem Ready.of_delivered (ready : Ready directory base)
    (delivered : Delivered directory artifacts base after) : Ready directory after :=
  ⟨delivered.directories.hasDirectory ready.has, fun writer =>
    delivered.directories.receives_iff.mpr (ready.receives writer)⟩

theorem writeIn_of_success
    (success : ((atStart directory artifacts tree).turns order).failure = none) :
    writeIn order directory artifacts tree =
      (.ok (.ofArtifacts artifacts), ((atStart directory artifacts tree).turns order).tree) := by
  rw [atStart] at success ⊢
  simp only [writeIn, success]

/-- The failure is that of the first turn that failed: it names the file of the writer whose turn
that was, and why it failed. -/
def IsFirstFailure (directory : String) (artifacts : Artifacts) (tree : FileTree)
    (order : List Writer) (failure : WriteFailure) : Prop :=
  ∃ before writer behind, order = before ++ writer :: behind ∧
    failure.path = writer.path directory ∧
    ((atStart directory artifacts tree).turns before).failure = none ∧
    ((atStart directory artifacts tree).turns before).FailsWith writer failure

theorem writeIn_of_failure
    (failed : ((atStart directory artifacts tree).turns order).failure ≠ none) :
    ∃ failure, (writeIn order directory artifacts tree).1 = .error (.writing failure) ∧
      IsFirstFailure directory artifacts tree order failure := by
  obtain ⟨⟨writer, cause⟩, first⟩ := Option.ne_none_iff_exists'.mp failed
  obtain ⟨before, behind, same, earlier, fails⟩ := Writing.exists_failsWith_of_turns rfl first
  refine ⟨⟨writer.path directory, cause⟩, ?_, before, writer, behind, same, rfl, earlier, fails⟩
  rw [atStart] at first
  simp only [writeIn, first]

/-- A turn in which a writer fails, at any time and whatever comes behind it, fails the build. -/
theorem writeIn_of_fails {before : List Writer} {writer : Writer}
    (fails : ((atStart directory artifacts tree).turns before).Fails writer)
    (behind : List Writer) :
    ∃ failure, (writeIn (before ++ writer :: behind) directory artifacts tree).1 =
        .error (.writing failure) ∧
      IsFirstFailure directory artifacts tree (before ++ writer :: behind) failure := by
  apply writeIn_of_failure
  rw [Writing.turns_append, Writing.turns_cons]
  exact Writing.failure_turns (Writing.failure_turn_of_fails fails) behind

/-- With turns for both, a tree that is ready for the artifacts receives them. -/
theorem writeIn_of_ready (artifacts : Artifacts) (fair : Fair order)
    (made : tree.makeDirectories (Path.trimmed directory) = (.ok (), base))
    (ready : Ready directory base) :
    ∃ after, writeIn order directory artifacts tree = (.ok (.ofArtifacts artifacts), after) ∧
      Delivered directory artifacts base after := by
  obtain ⟨writer, rest, rfl⟩ := fair.exists_first
  rcases (underway_first artifacts made writer).turns ready.has rest with
    underway | ⟨⟨other, refused⟩, -⟩
  · rw [List.singleton_append, ← Writing.turns_cons] at underway
    exact ⟨_, writeIn_of_success underway.failure, underway.directories,
      fun writer => underway.file writer (fair writer),
      fun place apart => underway.other place fun writer _ => apart writer⟩
  · exact absurd (ready.receives other) refused

/-- With turns for both, only a tree that is ready receives the artifacts. -/
theorem ready_of_writeIn (fair : Fair order) {report : Report}
    (success : writeIn order directory artifacts tree = (.ok report, after)) :
    ∃ base, tree.makeDirectories (Path.trimmed directory) = (.ok (), base) ∧
      Ready directory base := by
  obtain ⟨writer, rest, rfl⟩ := fair.exists_first
  have unfailed {failed : Prop} (refused : ∃ failure,
      (writeIn (writer :: rest) directory artifacts tree).1 = .error (.writing failure) ∧
        IsFirstFailure directory artifacts tree (writer :: rest) failure) : failed := by
    obtain ⟨failure, refused, -⟩ := refused
    rw [success] at refused
    contradiction
  rcases made : tree.makeDirectories (Path.trimmed directory) with ⟨⟨failure⟩ | ⟨⟨⟩⟩, base⟩
  · have fails : ((atStart directory artifacts tree).turns []).Fails writer :=
      fails_first made writer
    exact unfailed (writeIn_of_fails fails rest)
  · have has := FileTree.hasDirectory_makeDirectories made
    rcases (underway_first artifacts made writer).turns has rest with
      underway | ⟨-, failed⟩
    · exact ⟨base, rfl, has, fun other => underway.received other (fair other)⟩
    · rw [← Writing.turns_cons] at failed
      exact unfailed (writeIn_of_failure failed)

end Delivery

/-- The file of a source is none of those that the writers make. -/
def Spares (tree : FileTree) (directory : String) : Source → Prop
  | .given _ => True
  | .file path => ∀ writer : Writer,
      tree.destination path ≠ tree.destination (writer.path directory)

/-- What a build that returns a report has done to a tree. -/
structure Published (theme : Theme) (directory : String) (tree : FileTree) (report : Report)
    (after : FileTree) : Prop where
  readable : after.text (Writer.readable.path directory) = .ok theme.compile.readable
  minified : after.text (Writer.minified.path directory) = .ok theme.compile.minified
  classCount : report.classCount = theme.compile.classCount
  readableBytes : ∃ bytes, report.readableBytes = bytes.size ∧
    after.entry (tree.destination (Writer.readable.path directory)) = some (.file bytes)
  minifiedBytes : ∃ bytes, report.minifiedBytes = bytes.size ∧
    after.entry (tree.destination (Writer.minified.path directory)) = some (.file bytes)
  /-- Nothing else is another one but for directories where nothing was. -/
  other : ∀ place, (∀ writer : Writer, place ≠ tree.destination (writer.path directory)) →
    after.entry place = tree.entry place ∨
      tree.entry place = none ∧ after.entry place = some .directory

section Runs

variable {source : Source} {directory : String} {order : List Writer} {theme : Theme}
  {tree base after : FileTree}

/-- A report is returned for a theme with columns and with the artifacts delivered. -/
theorem exists_of_runIn_ok (fair : Fair order) {report : Report}
    (success : runIn order source directory tree = (.ok report, after)) :
    ∃ theme base, source.load tree = .ok theme ∧ theme.layout.columns ≠ 0 ∧
      tree.makeDirectories (Path.trimmed directory) = (.ok (), base) ∧ Ready directory base ∧
        report = .ofArtifacts theme.compile ∧ Delivered directory theme.compile base after := by
  rcases source.refused_or_loaded tree with ⟨error, refused⟩ | ⟨theme, loaded, columns⟩
  · rw [runIn_of_refused refused] at success
    exact absurd (congrArg Prod.fst success) nofun
  · rw [runIn_of_loaded loaded columns] at success
    obtain ⟨base, made, ready⟩ := ready_of_writeIn fair success
    obtain ⟨_, written, delivered⟩ := writeIn_of_ready theme.compile fair made ready
    obtain ⟨same, rfl⟩ := Prod.mk.inj (written.symm.trans success)
    exact ⟨theme, base, loaded, columns, made, ready, (Except.ok.inj same).symm, delivered⟩

theorem grown_of_made (made : tree.makeDirectories (Path.trimmed directory) = (.ok (), base)) :
    tree.Grown base := by
  have grown := FileTree.grown_makeDirectories tree (Path.trimmed directory)
  rwa [made] at grown

theorem text_of_delivered (ready : Ready directory base) {artifacts : Artifacts}
    (delivered : Delivered directory artifacts base after) (writer : Writer) :
    after.text (writer.path directory) = .ok (writer.contents artifacts) :=
  FileTree.text_of_entry (ready.receives writer) delivered.directories.work
    (fun place => (delivered.directories.directory place).mpr) (delivered.file writer)

theorem published_of_delivered (grown : tree.Grown base) (ready : Ready directory base)
    (delivered : Delivered directory theme.compile base after) :
    Published theme directory tree (.ofArtifacts theme.compile) after := by
  have target (writer : Writer) := FileTree.destination_congr grown.work (writer.path directory)
  have file (writer : Writer) := delivered.file writer
  simp only [target] at file
  refine ⟨text_of_delivered ready delivered .readable, text_of_delivered ready delivered .minified,
    rfl, ⟨theme.compile.readable.toUTF8, rfl, file .readable⟩,
    ⟨theme.compile.minified.toUTF8, rfl, file .minified⟩, fun place apart => ?_⟩
  rw [delivered.other place fun writer => target writer ▸ apart writer]
  exact grown.entry place

/-- A theme is loaded again from a file that has been spared. -/
theorem load_of_delivered (loaded : source.load tree = .ok theme)
    (spared : Spares tree directory source) (grown : tree.Grown base) {artifacts : Artifacts}
    (delivered : Delivered directory artifacts base after) : source.load after = .ok theme := by
  cases source with
  | given own => exact loaded
  | file path =>
    cases read : tree.text path with
    | error failure =>
      rw [Source.load, read] at loaded
      contradiction
    | ok text =>
      have kept : after.text path = .ok text := by
        apply FileTree.text_of_kept read
        · rw [delivered.directories.work, grown.work]
        · exact fun place stands => (delivered.directories.directory place).mpr (grown.kept stands)
        · intro bytes stands
          rw [delivered.other _ fun writer => ?_]
          · exact grown.kept stands
          · rw [FileTree.destination_congr grown.work]
            exact spared writer
      rw [Source.load, read] at loaded
      rw [Source.load, kept]
      exact loaded

end Runs

/-- A build that returns a report has written exactly its artifacts and has kept every other file;
every other order of the turns gives the same report and the same entries, and so does building once
more unless the theme's own file has been written over. A writer that fails, at whatever time, fails
the build, and the first one to fail is named. -/
theorem interleavings_agree (source : Source) (directory : String) (tree : FileTree) :
    (∀ order, Fair order → ∀ report after,
      runIn order source directory tree = (.ok report, after) →
        (∃ theme, source.load tree = .ok theme ∧ Published theme directory tree report after) ∧
        (∀ other, Fair other → ∃ same,
          runIn other source directory tree = (.ok report, same) ∧ after.Same same) ∧
        (Spares tree directory source → ∀ again, Fair again → ∃ same,
          runIn again source directory after = (.ok report, same) ∧ after.Same same)) ∧
    (∀ theme, source.load tree = .ok theme → 1 ≤ theme.layout.columns →
      ∀ before writer behind,
        ((atStart directory theme.compile tree).turns before).Fails writer →
          ∃ failure, (runIn (before ++ writer :: behind) source directory tree).1 =
              .error (.writing failure) ∧
            IsFirstFailure directory theme.compile tree (before ++ writer :: behind) failure) := by
  constructor
  · intro order fair report after success
    obtain ⟨theme, base, loaded, columns, made, ready, rfl, delivered⟩ :=
      exists_of_runIn_ok fair success
    have grown := grown_of_made made
    refine ⟨⟨theme, loaded, published_of_delivered grown ready delivered⟩, ?_, ?_⟩
    · intro other turns
      obtain ⟨same, written, likewise⟩ :=
        writeIn_of_ready theme.compile turns made ready
      exact ⟨same, (runIn_of_loaded loaded columns).trans written, delivered.same likewise⟩
    · intro spared again turns
      have reloaded := load_of_delivered loaded spared grown delivered
      have standing := ready.of_delivered delivered
      have kept := FileTree.makeDirectories_of_hasDirectory standing.has
      obtain ⟨same, written, likewise⟩ :=
        writeIn_of_ready theme.compile turns kept standing
      exact ⟨same, (runIn_of_loaded reloaded columns).trans written, delivered.again likewise⟩
  · intro theme loaded columns before writer behind fails
    rw [runIn_of_loaded loaded (Nat.ne_of_gt columns)]
    exact writeIn_of_fails fails behind

/-- In an empty working directory both writers find what they need, also when one of them has both
of its turns between those of the other. -/
theorem interleavings_agree_dist :
    let theme : Theme := {
      colors := ⟨[("sea", ⟨0, 102, 204⟩)], List.nodup_singleton _⟩
      typography := ⟨"Inter", "Georgia"⟩
      layout := ⟨⟨.ofNat 1200, "px"⟩, 12, .empty⟩
      spacing := ⟨⟨.ofNat 16, "px"⟩, Spacing.defaultLineHeight⟩
      transition := Transition.usual
      darkMode := true
      components := ["card"]
      utilities := ["flex"] }
    let nested : List Writer := [.readable, .minified, .minified, .readable]
    Fair nested ∧ Spares .fresh "dist" (.given theme) ∧ ∃ report after same,
      runIn nested (.given theme) "dist" .fresh = (.ok report, after) ∧
        after.text "dist/breeze.css" = .ok theme.compile.readable ∧
        after.text "dist/breeze.min.css" = .ok theme.compile.minified ∧
        runIn nested.reverse (.given theme) "dist" after = (.ok report, same) ∧ after.Same same := by
  intro theme nested
  have fair : Fair nested := fair_iff.mpr (by decide)
  let base := (FileTree.fresh.makeDirectories (Path.trimmed "dist")).2
  have made : FileTree.fresh.makeDirectories (Path.trimmed "dist") = (.ok (), base) := rfl
  have receives (writer : Writer) : base.Receives (writer.path "dist") := by
    have target : base.destination (writer.path "dist") = [writer.fileName, "dist", "work"] := by
      cases writer <;> decide +kernel
    have way : base.way (.ofList (writer.path "dist").toList) = [.into "dist", .into "work"] := by
      cases writer <;> decide +kernel
    refine ⟨?_, ⟨writer.fileName, ?_, ?_, ?_⟩, ?_, ?_⟩
    · cases writer <;> decide +kernel
    · cases writer <;> decide +kernel
    · rw [way]
      exact ⟨⟨trivial, by decide, rfl⟩, by decide, rfl⟩
    · cases writer <;> decide
    · cases writer <;> decide +kernel
    · have absent : base.entry [writer.fileName, "dist", "work"] = none := by cases writer <;> rfl
      rw [target, absent]
      exact nofun
  have ready : Ready "dist" base := ⟨FileTree.hasDirectory_makeDirectories made, receives⟩
  obtain ⟨after, written, -⟩ := writeIn_of_ready theme.compile fair made ready
  have success : runIn nested (.given theme) "dist" .fresh =
      (.ok (.ofArtifacts theme.compile), after) :=
    (runIn_of_loaded rfl (by decide : theme.layout.columns ≠ 0)).trans written
  obtain ⟨⟨own, loaded, published⟩, -, repeated⟩ :=
    (interleavings_agree (.given theme) "dist" .fresh).1 nested fair _ after success
  obtain rfl : theme = own := Except.ok.inj loaded
  obtain ⟨same, again, entries⟩ := repeated trivial nested.reverse (fair_iff.mpr (by decide))
  have readable : Writer.readable.path "dist" = "dist/breeze.css" := by decide +kernel
  have minified : Writer.minified.path "dist" = "dist/breeze.min.css" := by decide +kernel
  exact ⟨fair, trivial, _, after, same, success, readable ▸ published.readable,
    minified ▸ published.minified, again, entries⟩

end Build

end ThemeCss
