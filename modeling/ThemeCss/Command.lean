import ThemeCss.Build

/-! # The command

The command takes the path of the theme and the directory for the artifacts from its environment.
It tells on its output what it has built; a failure it tells by its exit code alone.
-/

namespace ThemeCss.Command

/-- The path of the theme when none is given. -/
def defaultTheme : String := "breeze.config.json"

/-- The directory for the artifacts when none is given. -/
def defaultDirectory : String := "dist"

/-- What the command tells after a build. -/
def summary (directory : String) (report : Report) : String :=
  "✓ Built " ++ Writer.readable.path directory ++ " and " ++ Writer.minified.path directory ++
    "\n" ++ report.table

structure Result where
  exitCode : Nat
  output : String

/-- The exit code and the output of a build into a directory. -/
def result (directory : String) : Except BuildError Report → Result
  | .ok report => ⟨0, summary directory report⟩
  | .error _ => ⟨1, ""⟩

/-- Runs the command on a tree. -/
def run (theme directory : Option String) (tree : FileTree) : Result × FileTree :=
  let directory := directory.getD defaultDirectory
  let (report, after) := Build.run (.file (theme.getD defaultTheme)) directory tree
  (result directory report, after)

end ThemeCss.Command
