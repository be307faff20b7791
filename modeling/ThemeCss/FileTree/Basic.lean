import ThemeCss.FileTree.Node
import ThemeCss.FileTree.Path

/-! # Trees of files and directories

A tree says of each place whether a file or a directory stands there. The root is a directory, and
paths that are not absolute start in the working directory. Moves are followed from directory to
directory, with those passed on the way kept at hand, so that a step takes no search from the root.
-/

namespace ThemeCss

structure FileTree where
  root : Node
  root_isDirectory : root.entry = .directory
  /-- The place of the working directory. -/
  work : Place

namespace FileTree

/-- What stands at a place. -/
def entry (tree : FileTree) (place : Place) : Option Entry := tree.root.entryAt place

/-- The tree in which only the root and an empty working directory stand. -/
def fresh : FileTree := ⟨.directory [("work", .directory [])], rfl, ["work"]⟩

/-- The tree with another entry, or none, under a name in the directory at a place. -/
def update (tree : FileTree) (name : String) (place : Place) (value : Option Entry) : FileTree :=
  ⟨tree.root.replace name (value.map Entry.node) place.reverse,
    Node.isDirectory_replace _ _ _ tree.root_isDirectory, tree.work⟩

/-- Where no directory stood, nothing but the entry there changes. -/
theorem entry_update {tree : FileTree} {name : String} {place : Place} (value : Option Entry)
    (parent : tree.entry place = some .directory)
    (leaf : tree.entry (name :: place) ≠ some .directory) (other : Place) :
    (tree.update name place value).entry other =
      if other = name :: place then value else tree.entry other :=
  Node.entryAt_replace parent leaf other

/-- The way from a root to the node at a place. -/
inductive Trail (root : Node) : Place → Node → Type
  | start : Trail root [] root
  | into {place : Place} {node child : Node} {name : String} (above : Trail root place node)
      (found : node.child? name = some child) : Trail root (name :: place) child

theorem Trail.find? {root : Node} {place : Place} {node : Node} (trail : Trail root place node) :
    root.find? place.reverse = some node := by
  induction trail with
  | start => rfl
  | into _ found ih => rw [Node.find?_reverse_cons, ih, Option.bind_some, found]

/-- A directory of a tree that moves have led to. -/
structure Directory (tree : FileTree) where
  place : Place
  node : Node
  trail : Trail tree.root place node
  isDirectory : node.entry = .directory

namespace Directory

variable {tree : FileTree}

theorem entry_place (directory : tree.Directory) :
    tree.entry directory.place = some .directory := by
  rw [entry, Node.entryAt, directory.trail.find?, Option.map_some, directory.isDirectory]

/-- The directory above, or the root itself. -/
def parent : tree.Directory → tree.Directory
  | ⟨_, _, .start, isDirectory⟩ => ⟨_, _, .start, isDirectory⟩
  | ⟨_, _, .into above found, _⟩ => ⟨_, _, above, Node.isDirectory_of_child? found⟩

theorem place_parent (directory : tree.Directory) :
    directory.parent.place = directory.place.tail := by
  rcases directory with ⟨_, _, _ | _, _⟩ <;> rfl

/-- What stands under a name. Nothing can be looked for under too long a name. -/
def child (directory : tree.Directory) (name : String) : Except FileFailure (Option Entry) :=
  if Path.nameByteLimit < name.utf8ByteSize then .error .nameTooLong
  else .ok ((directory.node.child? name).map Node.entry)

theorem entry_of_child {directory : tree.Directory} {name : String} {found : Option Entry}
    (looked : directory.child name = .ok found) :
    tree.entry (name :: directory.place) = found := by
  unfold child at looked
  split at looked
  · cases looked
  · rw [entry, Node.entryAt, Node.find?_reverse_cons, directory.trail.find?, Option.bind_some]
    exact Except.ok.inj looked

/-- The directory that a move leads to. -/
def enter (directory : tree.Directory) : Move → Except FileFailure tree.Directory
  | .stay => .ok directory
  | .up => .ok directory.parent
  | .into name =>
    if Path.nameByteLimit < name.utf8ByteSize then .error .nameTooLong
    else
      match found : directory.node.child? name with
      | none => .error .notFound
      | some (.file _) => .error .notADirectory
      | some (.directory _) => .ok ⟨_, _, .into directory.trail found, rfl⟩

/-- The directory that moves, last one first, lead to. -/
def walk (start : tree.Directory) : List Move → Except FileFailure tree.Directory
  | [] => .ok start
  | move :: before => (start.walk before).bind (·.enter move)

end Directory

/-- The root, as the directory in which every walk starts. -/
def top (tree : FileTree) : tree.Directory := ⟨[], tree.root, .start, tree.root_isDirectory⟩

/-- The directory in which the last move of a path is made. -/
def above (tree : FileTree) (path : Path) : Except FileFailure tree.Directory :=
  tree.top.walk (path.before ++ if path.absolute then [] else tree.work.map .into)

end FileTree

end ThemeCss
