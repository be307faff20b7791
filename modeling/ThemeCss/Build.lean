import ThemeCss.FileTree.Access
import ThemeCss.Report
import ThemeCss.Theme.Reading

/-! # Builds

A build loads a theme, checks it, compiles it and has two writers put the artifacts into a
directory. The writers share the tree and take turns, in whatever order: each makes the directory
and then its file, and stops at its first failure. Nothing is written before the theme is known to
be good.
-/

namespace ThemeCss

inductive Source where
  | file (path : String)
  | given (theme : Theme)

/-- The theme in the bytes of a file, or in the failure to read them. -/
def Theme.ofFile (path : String) : Except FileFailure String → Except ThemeError Theme
  | .error failure => .error (.unreadable path failure)
  | .ok text => Theme.ofJson text

def Source.load (tree : FileTree) : Source → Except ThemeError Theme
  | .file path => Theme.ofFile path (tree.text path)
  | .given theme => .ok theme

/-- What a theme that passes its check is compiled to. -/
def Theme.artifacts (theme : Theme) : Except ThemeError Artifacts :=
  theme.check.map fun _ => theme.compile

inductive Writer where
  | readable
  | minified
deriving DecidableEq

namespace Writer

/-- The name of the file that a writer makes. -/
def fileName : Writer → String
  | readable => "breeze.css"
  | minified => "breeze.min.css"

def contents (artifacts : Artifacts) : Writer → String
  | readable => artifacts.readable
  | minified => artifacts.minified

/-- The text of the path to a writer's file. -/
def path (directory : String) (writer : Writer) : String :=
  Path.inDirectory directory writer.fileName

end Writer

/-- A call that a writer makes on the tree. -/
inductive Call where
  | makeDirectories (path : String)
  | write (path : String) (bytes : ByteArray)

def FileTree.perform (tree : FileTree) : Call → FileTree.Outcome
  | .makeDirectories path => tree.makeDirectories path
  | .write path bytes => tree.write path bytes

/-- The calls of a writer, in order. -/
def Writer.calls (directory : String) (artifacts : Artifacts) (writer : Writer) : List Call :=
  [.makeDirectories (Path.trimmed directory),
    .write (writer.path directory) (writer.contents artifacts).toUTF8]

/-- Two writers at work: the tree, the calls that are still to be made, and the first failure with
the writer whose it is. -/
structure Writing where
  tree : FileTree
  pending : Writer → List Call
  failure : Option (Writer × FileFailure) := none

namespace Writing

/-- Gives a writer a turn: it makes its next call, and on a failure it stops. -/
def turn (writing : Writing) (writer : Writer) : Writing :=
  let left (calls : List Call) (other : Writer) : List Call :=
    if other = writer then calls else writing.pending other
  match writing.pending writer with
  | [] => writing
  | call :: rest =>
    match writing.tree.perform call with
    | (.ok (), tree) => { writing with tree, pending := left rest }
    | (.error failure, tree) => ⟨tree, left [], writing.failure.or (some (writer, failure))⟩

def turns (writing : Writing) (order : List Writer) : Writing := order.foldl turn writing

end Writing

/-- Which file could not be written, and why. -/
structure WriteFailure where
  path : String
  cause : FileFailure
deriving DecidableEq

/-- Where it does not matter which file it was. -/
instance : Coe WriteFailure FileFailure := ⟨WriteFailure.cause⟩

inductive BuildError where
  | theme (error : ThemeError)
  | writing (failure : WriteFailure)

def BuildError.message : BuildError → String
  | theme error => error.message
  | writing failure => s!"failed to write {failure.path}: {failure.cause.message}"

namespace Build

/-- Turns enough for both writers, which take them by turns. -/
def alternating : List Writer := [.readable, .minified, .readable, .minified]

/-- Has the artifacts written, with the writers' turns in some order. -/
def writeIn (order : List Writer) (directory : String) (artifacts : Artifacts)
    (tree : FileTree) : Except BuildError Report × FileTree :=
  let done := Writing.turns ⟨tree, Writer.calls directory artifacts, none⟩ order
  match done.failure with
  | none => (.ok (.ofArtifacts artifacts), done.tree)
  | some (writer, cause) => (.error (.writing ⟨writer.path directory, cause⟩), done.tree)

/-- Builds the theme of a source into a directory, with the writers' turns in some order. -/
def runIn (order : List Writer) (source : Source) (directory : String) (tree : FileTree) :
    Except BuildError Report × FileTree :=
  match (source.load tree).bind Theme.artifacts with
  | .error error => (.error (.theme error), tree)
  | .ok artifacts => writeIn order directory artifacts tree

/-- Builds the theme of a source into a directory. -/
def run : Source → String → FileTree → Except BuildError Report × FileTree := runIn alternating

end Build

end ThemeCss
