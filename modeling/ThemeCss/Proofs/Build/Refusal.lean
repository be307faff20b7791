import Mathlib
import ThemeCss.Build

/-! # Builds that are refused

A build is refused for its theme alone: the source gives none, or the theme has no columns. That is
found out before the first turn of a writer, so a refused build leaves the tree as it is, and with it
the results of all builds behind it. What is merely doubtful about a theme refuses nothing.
-/

namespace ThemeCss

/-- Why the theme of a source cannot be built. -/
inductive Source.Refused (tree : FileTree) : Source → ThemeError → Prop
  | unreadable {path : String} {failure : FileFailure} (unread : tree.text path = .error failure) :
      Refused tree (.file path) (.unreadable path failure)
  | malformed {path text : String} {error : ThemeError} (read : tree.text path = .ok text)
      (rejected : Theme.ofJson text = .error error) : Refused tree (.file path) error
  | tooFewColumns {source : Source} {theme : Theme} (loaded : source.load tree = .ok theme)
      (none : theme.layout.columns = 0) : Refused tree source (.tooFewColumns 0)

theorem Theme.artifacts_eq_ok {theme : Theme} (columns : theme.layout.columns ≠ 0) :
    theme.artifacts = .ok theme.compile := by
  rw [Theme.artifacts, Theme.check, if_neg columns]
  rfl

theorem Theme.artifacts_eq_error {theme : Theme} (columns : theme.layout.columns = 0) :
    theme.artifacts = .error (.tooFewColumns 0) := by
  rw [Theme.artifacts, Theme.check, if_pos columns, columns]
  rfl

namespace Source

variable {source : Source} {tree : FileTree} {error : ThemeError}

/-- A source gives no theme exactly where its file cannot be read or has another text. -/
theorem load_eq_error_iff : source.load tree = .error error ↔
    ∃ path, source = .file path ∧
      ((∃ failure, tree.text path = .error failure ∧ error = .unreadable path failure) ∨
        ∃ text, tree.text path = .ok text ∧ Theme.ofJson text = .error error) := by
  cases source with
  | given theme => exact iff_of_false nofun (by simp)
  | file path =>
    cases read : tree.text path with
    | error failure =>
      rw [load, read, Theme.ofFile, Except.error.injEq]
      constructor
      · rintro rfl
        exact ⟨path, rfl, .inl ⟨failure, read, rfl⟩⟩
      · rintro ⟨_, ⟨⟩, ⟨_, unread, rfl⟩ | ⟨_, other, -⟩⟩
        · rw [Except.error.inj (read.symm.trans unread)]
        · exact absurd (read.symm.trans other) nofun
    | ok text =>
      rw [load, read, Theme.ofFile]
      constructor
      · intro rejected
        exact ⟨path, rfl, .inr ⟨text, read, rejected⟩⟩
      · rintro ⟨_, ⟨⟩, ⟨_, other, -⟩ | ⟨_, same, rejected⟩⟩
        · exact absurd (read.symm.trans other) nofun
        · rwa [Except.ok.inj (read.symm.trans same)]

theorem refused_iff : source.Refused tree error ↔
    (source.load tree).bind Theme.artifacts = .error error := by
  constructor
  · intro refused
    cases refused with
    | unreadable unread =>
      have failed := load_eq_error_iff.mpr ⟨_, rfl, .inl ⟨_, unread, rfl⟩⟩
      rw [failed]
      rfl
    | malformed read rejected =>
      rw [load_eq_error_iff.mpr ⟨_, rfl, .inr ⟨_, read, rejected⟩⟩]
      rfl
    | tooFewColumns loaded none =>
      rw [loaded]
      exact Theme.artifacts_eq_error none
  · intro failed
    cases loaded : source.load tree with
    | error other =>
      rw [loaded] at failed
      obtain rfl := Except.error.inj failed
      obtain ⟨path, rfl, ⟨failure, unread, rfl⟩ | ⟨text, read, rejected⟩⟩ :=
        load_eq_error_iff.mp loaded
      · exact .unreadable unread
      · exact .malformed read rejected
    | ok theme =>
      rw [loaded, Except.bind] at failed
      by_cases columns : theme.layout.columns = 0
      · rw [Theme.artifacts_eq_error columns] at failed
        obtain rfl := Except.error.inj failed
        exact .tooFewColumns loaded columns
      · rw [Theme.artifacts_eq_ok columns] at failed
        contradiction

/-- Either a source is refused, or it gives a theme with columns. -/
theorem refused_or_loaded (source : Source) (tree : FileTree) :
    (∃ error, source.Refused tree error) ∨
      ∃ theme, source.load tree = .ok theme ∧ theme.layout.columns ≠ 0 := by
  cases loaded : source.load tree with
  | error error =>
    refine .inl ⟨error, refused_iff.mpr ?_⟩
    rw [loaded]
    rfl
  | ok theme =>
    by_cases columns : theme.layout.columns = 0
    · exact .inl ⟨_, .tooFewColumns loaded columns⟩
    · exact .inr ⟨theme, rfl, columns⟩

end Source

namespace Build

variable {order : List Writer} {source : Source} {directory : String} {tree : FileTree}

theorem runIn_of_refused {error : ThemeError} (refused : source.Refused tree error) :
    runIn order source directory tree = (.error (.theme error), tree) := by
  rw [runIn, Source.refused_iff.mp refused]

/-- A theme with columns is compiled and written, whatever the diagnostics say about it. -/
theorem runIn_of_loaded {theme : Theme} (loaded : source.load tree = .ok theme)
    (columns : theme.layout.columns ≠ 0) :
    runIn order source directory tree = writeIn order directory theme.compile tree := by
  rw [runIn, loaded, Except.bind, Theme.artifacts_eq_ok columns]

/-- Writing gives a report or the failure of a writer. -/
theorem writeIn_ne_theme (order : List Writer) (directory : String) (artifacts : Artifacts)
    (tree : FileTree) (error : ThemeError) :
    (writeIn order directory artifacts tree).1 ≠ .error (.theme error) := by
  unfold writeIn
  dsimp only
  split <;> nofun

theorem runIn_eq_theme_iff {error : ThemeError} :
    (runIn order source directory tree).1 = .error (.theme error) ↔ source.Refused tree error := by
  constructor
  · intro failed
    rcases source.refused_or_loaded tree with ⟨other, refused⟩ | ⟨theme, loaded, columns⟩
    · rw [runIn_of_refused refused] at failed
      obtain rfl := BuildError.theme.inj (Except.error.inj failed)
      exact refused
    · rw [runIn_of_loaded loaded columns] at failed
      exact absurd failed (writeIn_ne_theme order directory theme.compile tree error)
  · intro refused
    rw [runIn_of_refused refused]

/-- A build that is asked for, with the order in which its writers happen to take turns. -/
structure Job where
  source : Source
  directory : String
  order : List Writer := alternating

namespace Job

def run (job : Job) (tree : FileTree) : Except BuildError Report × FileTree :=
  runIn job.order job.source job.directory tree

end Job

/-- The tree behind a sequence of builds. -/
def treeAfter (tree : FileTree) (jobs : List Job) : FileTree :=
  jobs.foldl (fun tree job => (job.run tree).2) tree

/-- The result of each build of a sequence, with the tree behind it. -/
def history : FileTree → List Job → List (Except BuildError Report × FileTree)
  | _, [] => []
  | tree, job :: rest => job.run tree :: history (job.run tree).2 rest

theorem history_append (tree : FileTree) (first second : List Job) :
    history tree (first ++ second) = history tree first ++ history (treeAfter tree first) second := by
  induction first generalizing tree with
  | nil => rfl
  | cons job rest ih =>
    rw [List.cons_append, history, history, ih]
    rfl

/-- A build is refused exactly where its source gives no theme or one without columns; it then leaves
the tree alone, and its place in a sequence of builds could be empty. Every other build has its
theme compiled and written, with whatever diagnostics. -/
theorem refused_builds (tree : FileTree) :
    (∀ job : Job, ∀ error, (job.run tree).1 = .error (.theme error) ↔
      job.source.Refused tree error) ∧
    (∀ job : Job, ∀ error, job.source.Refused tree error →
      job.run tree = (.error (.theme error), tree)) ∧
    (∀ job : Job, ∀ theme, job.source.load tree = .ok theme → 1 ≤ theme.layout.columns →
      theme.check = .ok theme.diagnostics ∧
        job.run tree = writeIn job.order job.directory theme.compile tree) ∧
    (∀ before behind : List Job, ∀ job : Job, ∀ error,
      job.source.Refused (treeAfter tree before) error →
        history tree (before ++ job :: behind) =
            history tree before ++ (.error (.theme error), treeAfter tree before) ::
              history (treeAfter tree before) behind ∧
          history tree (before ++ behind) =
            history tree before ++ history (treeAfter tree before) behind) := by
  refine ⟨fun job error => runIn_eq_theme_iff, fun job error => runIn_of_refused, ?_, ?_⟩
  · intro job theme loaded columns
    have some : theme.layout.columns ≠ 0 := Nat.ne_of_gt columns
    exact ⟨if_neg some, runIn_of_loaded loaded some⟩
  · intro before behind job error refused
    have alone : job.run (treeAfter tree before) = (.error (.theme error), treeAfter tree before) :=
      runIn_of_refused refused
    refine ⟨?_, history_append tree before behind⟩
    rw [history_append, history, alone]

/-- Where a configuration is missing the build says so, and the next build finds what it would have
found without it; a theme without columns is refused in the same way. -/
theorem refused_builds_missing :
    let bare : Theme := {
      colors := .empty
      typography := ⟨"Inter", "Georgia"⟩
      layout := ⟨⟨.ofNat 1200, "px"⟩, 0, .empty⟩
      spacing := ⟨⟨.ofNat 16, "px"⟩, Spacing.defaultLineHeight⟩
      transition := Transition.usual
      darkMode := false
      components := []
      utilities := [] }
    let missing : Job := ⟨.file "none.json", "dist", alternating⟩
    let columnless : Job := ⟨.given bare, "dist", alternating⟩
    history .fresh [missing, columnless] =
      [(.error (.theme (.unreadable "none.json" .notFound)), .fresh),
        (.error (.theme (.tooFewColumns 0)), .fresh)] := by
  intro bare missing columnless
  have refused := refused_builds .fresh
  have unread : missing.source.Refused .fresh (.unreadable "none.json" .notFound) :=
    .unreadable rfl
  have second : columnless.run .fresh = (.error (.theme (.tooFewColumns 0)), .fresh) :=
    refused.2.1 columnless _ (.tooFewColumns rfl rfl)
  have inserted := (refused.2.2.2 [] [columnless] missing _ unread).1
  have alone : history .fresh [columnless] = [(.error (.theme (.tooFewColumns 0)), .fresh)] := by
    rw [history, second, history]
  exact inserted.trans (congrArg (List.cons _) alone)

end Build

end ThemeCss
