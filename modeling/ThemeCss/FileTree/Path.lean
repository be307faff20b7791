import ThemeCss.FileTree.Failure

/-! # Paths

A path is a list of moves through a tree of directories, written with a `/` between two moves. A
path that begins with a `/` starts at the root, any other one in the working directory. An empty
name is no move, `.` stays in its directory, and `..` goes to the directory above. What stands at
the end of a path with a `/` behind it has to be a directory.

Moves are kept last one first, so that the path to the directory of an entry is a tail of the path
to the entry.
-/

namespace ThemeCss

inductive Move where
  | stay
  | up
  | into (name : String)
deriving DecidableEq

structure Path where
  /-- Whether the path starts at the root. -/
  absolute : Bool
  /-- The moves before the last one. -/
  before : List Move
  last : Move
  /-- Whether a `/` follows the last move. -/
  slash : Bool
deriving DecidableEq

namespace Path

/-- The pieces of a text between the slashes, one more than there are slashes. -/
def names : List Char → List (List Char)
  | [] => [[]]
  | char :: rest =>
    if char = '/' then [] :: names rest
    else
      match names rest with
      | [] => [[char]]
      | first :: others => (char :: first) :: others

theorem names_ne_nil (text : List Char) : names text ≠ [] := by
  cases text with
  | nil => exact List.cons_ne_nil _ _
  | cons char rest =>
    unfold names
    split
    · exact List.cons_ne_nil _ _
    · split <;> exact List.cons_ne_nil _ _

/-- A slash ends a piece. -/
theorem names_append_slash (left right : List Char) :
    names (left ++ '/' :: right) = names left ++ names right := by
  induction left with
  | nil => simp [names]
  | cons char rest ih =>
    simp only [List.cons_append, names, ih]
    split
    · rfl
    · cases found : names rest with
      | nil => exact absurd found (names_ne_nil rest)
      | cons first others => rfl

def move : List Char → Move
  | ['.'] => .stay
  | ['.', '.'] => .up
  | name => .into (String.ofList name)

/-- The moves that a text asks for, first one first. -/
def moves (text : List Char) : List Move := ((names text).filter (· ≠ [])).map move

/-- The path that a text writes. Without a move it stays where it starts. -/
def ofList (text : List Char) : Path :=
  let absolute := text.head? = some '/'
  let slash := text.getLast? = some '/'
  match (moves text).reverse with
  | [] => ⟨absolute, [], .stay, slash⟩
  | last :: before => ⟨absolute, before, last, slash⟩

/-- The most bytes that the text of a path may have. -/
def byteLimit : Nat := 4095

/-- The most bytes that a name may have. -/
def nameByteLimit : Nat := 255

/-- Reads a path. The empty text leads nowhere. -/
def parse (text : String) : Except FileFailure Path :=
  if text.toList.contains '\x00' then .error .nulInPath
  else if text.isEmpty then .error .notFound
  else if byteLimit < text.utf8ByteSize then .error .nameTooLong
  else .ok (ofList text.toList)

/-- The paths that moves, last one first, and their tails make up. -/
def chain (absolute : Bool) : List Move → List Path
  | [] => []
  | last :: before => ⟨absolute, before, last, false⟩ :: chain absolute before

/-- The paths to the directories above the end of a path, nearest first. A move that stays makes
no directory. -/
def above (path : Path) : List Path :=
  chain path.absolute ((path.last :: path.before).filter (· ≠ .stay)).tail

/-- The text of a path to a name in a directory. -/
def inDirectory (directory name : String) : String :=
  if directory.isEmpty || directory.endsWith "/" then directory ++ name
  else directory ++ "/" ++ name

/-- Takes slashes, and `.`s behind a slash, from a text that is written backwards. -/
def dropStays : List Char → List Char
  | '/' :: rest => dropStays rest
  | '.' :: '/' :: rest => dropStays rest
  | rest => rest

/-- The text of the path to a directory without what stays in it at its end. -/
def trimmed (directory : String) : String :=
  String.ofList (dropStays directory.toList.reverse).reverse

end Path

end ThemeCss
