import ThemeCss.FileTree.Basic

/-! # Reading and changing a tree

Each of the operations looks at the place that its path leads to, and then fails and leaves the
tree alone, or changes the one entry there. Only `makeDirectories` changes more: it makes
directories one after the other, and those made before a failure remain.
-/

namespace ThemeCss

namespace FileTree

/-- The entry that a path leads to. -/
def lookup (tree : FileTree) (path : Path) : Except FileFailure Entry :=
  (tree.above path).bind fun directory =>
    match path.last with
    | .stay | .up => .ok .directory
    | .into name =>
      match directory.child name with
      | .error failure => .error failure
      | .ok none => .error .notFound
      | .ok (some (.file bytes)) =>
        if path.slash then .error .notADirectory else .ok (.file bytes)
      | .ok (some .directory) => .ok .directory

/-- Makes a file, or replaces the contents of the one that is there. -/
def put (tree : FileTree) (path : Path) (bytes : ByteArray) : Except FileFailure FileTree :=
  (tree.above path).bind fun directory =>
    match path.last with
    | .stay | .up => .error .isADirectory
    | .into name =>
      if path.slash then .error .isADirectory
      else
        match directory.child name with
        | .error failure => .error failure
        | .ok (some .directory) => .error .isADirectory
        | .ok none | .ok (some (.file _)) =>
          .ok (tree.update name directory.place (some (.file bytes)))

/-- Takes a file away. -/
def erase (tree : FileTree) (path : Path) : Except FileFailure FileTree :=
  (tree.above path).bind fun directory =>
    match path.last with
    | .stay | .up => .error .isADirectory
    | .into name =>
      match directory.child name with
      | .error failure => .error failure
      | .ok none => .error .notFound
      | .ok (some .directory) => .error .isADirectory
      | .ok (some (.file _)) =>
        if path.slash then .error .notADirectory
        else .ok (tree.update name directory.place none)

/-- Makes a directory in the one above it. -/
def makeDirectory (tree : FileTree) (path : Path) : Except FileFailure FileTree :=
  (tree.above path).bind fun directory =>
    match path.last with
    | .stay | .up => .error .alreadyExists
    | .into name =>
      match directory.child name with
      | .error failure => .error failure
      | .ok (some _) => .error .alreadyExists
      | .ok none => .ok (tree.update name directory.place (some .directory))

/-- Makes a directory in the one above it, unless it is there. -/
def ensureDirectory (tree : FileTree) (path : Path) : Except FileFailure FileTree :=
  match tree.makeDirectory path with
  | .ok after => .ok after
  | .error failure =>
    match tree.lookup path with
    | .ok .directory => .ok tree
    | .ok (.file _) | .error _ => .error failure

/-- How a change of a tree went, with the tree after it. -/
abbrev Outcome := Except FileFailure Unit × FileTree

/-- The outcome of a change that leaves the tree alone when it fails. -/
def outcome (tree : FileTree) : Except FileFailure FileTree → Outcome
  | .ok after => (.ok (), after)
  | .error failure => (.error failure, tree)

/-- Makes the first directory of a list. When it has no directory to be made in, those that the
list goes on with are made before it. -/
def makeChain : List Path → FileTree → Outcome
  | [], tree => (.ok (), tree)
  | path :: above, tree =>
    match tree.ensureDirectory path with
    | .ok after => (.ok (), after)
    | .error .notFound =>
      match makeChain above tree with
      | (.ok (), after) => after.outcome (after.ensureDirectory path)
      | (.error failure, after) => (.error failure, after)
    | .error failure => (.error failure, tree)

/-- Whether a path leads to a file or a directory. -/
def holds (tree : FileTree) (path : String) : Bool :=
  ((Path.parse path).bind tree.lookup).toOption.isSome

/-- The text of a file. -/
def text (tree : FileTree) (path : String) : Except FileFailure String :=
  match (Path.parse path).bind tree.lookup with
  | .error failure => .error failure
  | .ok .directory => .error .isADirectory
  | .ok (.file bytes) => ((String.fromUTF8? bytes).map Except.ok).getD (.error .notText)

/-- Makes a file, or replaces the contents of the one that is there. -/
def write (tree : FileTree) (path : String) (bytes : ByteArray) : Outcome :=
  tree.outcome ((Path.parse path).bind (tree.put · bytes))

/-- Takes a file away. -/
def remove (tree : FileTree) (path : String) : Outcome :=
  tree.outcome ((Path.parse path).bind tree.erase)

/-- Makes the directories of a path that are not there yet. The empty text has none. -/
def makeDirectories (tree : FileTree) (path : String) : Outcome :=
  if path.isEmpty then (.ok (), tree)
  else
    match Path.parse path with
    | .error failure => (.error failure, tree)
    | .ok path => makeChain (path :: path.above) tree

end FileTree

end ThemeCss
