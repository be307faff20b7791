import Mathlib
import ThemeCss.FileTree.Access

/-! # Where paths lead

There are no links, so the moves of a path spell the place that it leads to, whatever stands there.
Whether the path gets there is decided by the directories on the way. Operations on paths are
described here through the places alone: what they need to stand where, and what changes.
-/

namespace ThemeCss

namespace Place

/-- The place that a move leads to. -/
def step : Move → Place → Place
  | .stay, place => place
  | .up, place => place.tail
  | .into name, place => name :: place

/-- The place that moves, last one first, lead to from the root. -/
def ofMoves (moves : List Move) : Place := moves.foldr step []

@[simp] theorem ofMoves_cons (move : Move) (before : List Move) :
    ofMoves (move :: before) = step move (ofMoves before) := rfl

end Place

namespace FileTree

variable {tree other : FileTree} {path : Path} {name : String}

/-- The moves from the root to where a path starts. -/
def start (tree : FileTree) (absolute : Bool) : List Move :=
  if absolute then [] else tree.work.map .into

/-- The moves from the root to the directory in which the last move of a path is made. -/
def way (tree : FileTree) (path : Path) : List Move := path.before ++ tree.start path.absolute

/-- The moves from the root to the end of a path. -/
def route (tree : FileTree) (path : Path) : List Move := path.last :: tree.way path

/-- The place that a path leads to. -/
def target (tree : FileTree) (path : Path) : Place := Place.ofMoves (tree.route path)

/-- The moves lead from directory to directory, with names that can be looked up. -/
def Passes (tree : FileTree) : List Move → Prop
  | [] => True
  | .stay :: before => tree.Passes before
  | .up :: before => tree.Passes before
  | .into name :: before => tree.Passes before ∧ name.utf8ByteSize ≤ Path.nameByteLimit ∧
      tree.entry (name :: Place.ofMoves before) = some .directory

/-- Moves pass wherever the directories of the tree stand. -/
theorem Passes.mono (kept : ∀ place, tree.entry place = some .directory →
    other.entry place = some .directory) {moves : List Move} (passes : tree.Passes moves) :
    other.Passes moves := by
  induction moves with
  | nil => trivial
  | cons move before ih =>
    cases move with
    | stay => exact ih passes
    | up => exact ih passes
    | into name => exact ⟨ih passes.1, passes.2.1, kept _ passes.2.2⟩

theorem bind_eq_ok_iff {ε α β : Type} {first : Except ε α} {next : α → Except ε β} {value : β} :
    first.bind next = .ok value ↔ ∃ middle, first = .ok middle ∧ next middle = .ok value := by
  cases first <;> simp [Except.bind]

namespace Directory

theorem child_eq_ok {directory : tree.Directory}
    (short : name.utf8ByteSize ≤ Path.nameByteLimit) :
    directory.child name = .ok (tree.entry (name :: directory.place)) := by
  obtain ⟨found, looked⟩ : ∃ found, directory.child name = .ok found := by
    rw [child, if_neg (Nat.not_lt.mpr short)]
    exact ⟨_, rfl⟩
  rw [looked, entry_of_child looked]

theorem short_of_child {directory : tree.Directory} {found : Option Entry}
    (looked : directory.child name = .ok found) : name.utf8ByteSize ≤ Path.nameByteLimit := by
  unfold child at looked
  split at looked
  · contradiction
  · next short => exact Nat.not_lt.mp short

/-- The node under a name is a directory where a directory stands. -/
theorem exists_child? {directory : tree.Directory} :
    (∃ children, directory.node.child? name = some (.directory children)) ↔
      tree.entry (name :: directory.place) = some .directory := by
  rw [entry, Node.entryAt, Node.find?_reverse_cons, directory.trail.find?, Option.bind_some]
  constructor
  · rintro ⟨children, found⟩
    rw [found]
    rfl
  · intro stands
    obtain ⟨child, found, isDirectory⟩ := Option.map_eq_some_iff.mp stands
    cases child with
    | file bytes => contradiction
    | directory children => exact ⟨children, found⟩

theorem exists_enter_into {directory : tree.Directory} :
    (∃ below, directory.enter (.into name) = .ok below) ↔
      name.utf8ByteSize ≤ Path.nameByteLimit ∧
        tree.entry (name :: directory.place) = some .directory := by
  rw [← exists_child?, enter]
  constructor
  · rintro ⟨below, entered⟩
    split at entered
    · contradiction
    · next short =>
      split at entered
      · contradiction
      · contradiction
      · next children found => exact ⟨Nat.not_lt.mp short, children, found⟩
  · rintro ⟨short, children, found⟩
    rw [if_neg (Nat.not_lt.mpr short)]
    split
    · next missing => simp [missing] at found
    · next file => simp [file] at found
    · exact ⟨_, rfl⟩

theorem place_enter {directory below : tree.Directory} {move : Move}
    (entered : directory.enter move = .ok below) :
    below.place = Place.step move directory.place := by
  cases move with
  | stay =>
    obtain rfl := Except.ok.inj entered
    rfl
  | up =>
    obtain rfl := Except.ok.inj entered
    exact directory.place_parent
  | into name =>
    rw [enter] at entered
    split at entered
    · contradiction
    · split at entered
      · contradiction
      · contradiction
      · obtain rfl := Except.ok.inj entered
        rfl

end Directory

theorem place_walk {moves : List Move} {directory : tree.Directory}
    (walked : tree.top.walk moves = .ok directory) : directory.place = Place.ofMoves moves := by
  induction moves generalizing directory with
  | nil =>
    obtain rfl := Except.ok.inj walked
    rfl
  | cons move before ih =>
    obtain ⟨middle, earlier, entered⟩ := bind_eq_ok_iff.mp walked
    rw [Directory.place_enter entered, ih earlier, Place.ofMoves_cons]

theorem exists_walk {moves : List Move} :
    (∃ directory, tree.top.walk moves = .ok directory) ↔ tree.Passes moves := by
  induction moves with
  | nil => exact ⟨fun _ => trivial, fun _ => ⟨_, rfl⟩⟩
  | cons move before ih =>
    have opened : (∃ directory, tree.top.walk (move :: before) = .ok directory) ↔
        ∃ middle, tree.top.walk before = .ok middle ∧
          ∃ directory, middle.enter move = .ok directory := by
      simp only [Directory.walk, bind_eq_ok_iff]
      exact ⟨fun ⟨directory, middle, earlier, entered⟩ => ⟨middle, earlier, directory, entered⟩,
        fun ⟨middle, earlier, directory, entered⟩ => ⟨directory, middle, earlier, entered⟩⟩
    rw [opened]
    cases move with
    | stay =>
      rw [Passes, ← ih]
      exact exists_congr fun middle => and_iff_left ⟨middle, rfl⟩
    | up =>
      rw [Passes, ← ih]
      exact exists_congr fun middle => and_iff_left ⟨middle.parent, rfl⟩
    | into name =>
      rw [Passes, ← ih, ← exists_and_right]
      refine exists_congr fun middle => and_congr_right fun earlier => ?_
      rw [Directory.exists_enter_into, place_walk earlier]

/-- A path leads through directories to a name that can be looked up. -/
structure EndsIn (tree : FileTree) (path : Path) (name : String) : Prop where
  last : path.last = .into name
  passes : tree.Passes (tree.way path)
  short : name.utf8ByteSize ≤ Path.nameByteLimit

theorem EndsIn.target (ends : tree.EndsIn path name) :
    tree.target path = name :: Place.ofMoves (tree.way path) := by
  rw [FileTree.target, route, ends.last]
  rfl

theorem EndsIn.exists_above (ends : tree.EndsIn path name) :
    ∃ directory, tree.above path = .ok directory ∧
      name :: directory.place = tree.target path ∧
        directory.child name = .ok (tree.entry (tree.target path)) := by
  obtain ⟨directory, walked⟩ := exists_walk.mpr ends.passes
  have place : name :: directory.place = tree.target path := by
    rw [place_walk walked, ends.target]
  exact ⟨directory, walked, place, place ▸ Directory.child_eq_ok ends.short⟩

/-- A path to a directory passes to its end. -/
theorem passes_route_iff : tree.Passes (tree.route path) ↔
    (∃ name, tree.EndsIn path name ∧ tree.entry (tree.target path) = some .directory) ∨
      (∀ name, path.last ≠ .into name) ∧ tree.Passes (tree.way path) := by
  constructor
  · intro passes
    cases last : path.last with
    | stay => exact .inr ⟨nofun, by simpa [route, last, Passes] using passes⟩
    | up => exact .inr ⟨nofun, by simpa [route, last, Passes] using passes⟩
    | into name =>
      rw [route, last] at passes
      have ends : tree.EndsIn path name := ⟨last, passes.1, passes.2.1⟩
      exact .inl ⟨name, ends, ends.target ▸ passes.2.2⟩
  · rintro (⟨name, ends, stands⟩ | ⟨nameless, passes⟩)
    · rw [route, ends.last]
      exact ⟨ends.passes, ends.short, ends.target ▸ stands⟩
    · rw [route]
      cases last : path.last with
      | stay => exact passes
      | up => exact passes
      | into name => exact absurd last (nameless name)

theorem lookup_of_endsIn {name : String} (ends : tree.EndsIn path name) :
    tree.lookup path = match tree.entry (tree.target path) with
      | none => .error .notFound
      | some (.file bytes) => if path.slash then .error .notADirectory else .ok (.file bytes)
      | some .directory => .ok .directory := by
  obtain ⟨directory, above, -, child⟩ := ends.exists_above
  rw [lookup, above, Except.bind, ends.last]
  simp only [child]
  rcases tree.entry (tree.target path) with _ | _ | _ <;> rfl

/-- What is found under a name stands where the path leads. -/
theorem endsIn_of_lookup {name : String} {entry : Entry} (last : path.last = .into name)
    (found : tree.lookup path = .ok entry) : tree.EndsIn path name := by
  obtain ⟨directory, walked, looked⟩ := bind_eq_ok_iff.mp found
  simp only [last] at looked
  split at looked
  · contradiction
  all_goals next child => exact ⟨last, exists_walk.mp ⟨directory, walked⟩, directory.short_of_child child⟩

theorem lookup_eq_directory_iff :
    tree.lookup path = .ok .directory ↔ tree.Passes (tree.route path) := by
  rw [passes_route_iff]
  constructor
  · intro found
    by_cases named : ∃ name, path.last = .into name
    · obtain ⟨name, last⟩ := named
      have ends := endsIn_of_lookup last found
      rw [lookup_of_endsIn ends] at found
      refine .inl ⟨name, ends, ?_⟩
      split at found
      · contradiction
      · split at found
        · contradiction
        · exact absurd (Except.ok.inj found) nofun
      · assumption
    · obtain ⟨directory, walked, -⟩ := bind_eq_ok_iff.mp found
      exact .inr ⟨not_exists.mp named, exists_walk.mp ⟨directory, walked⟩⟩
  · rintro (⟨name, ends, stands⟩ | ⟨nameless, passes⟩)
    · rw [lookup_of_endsIn ends, stands]
    · obtain ⟨directory, walked⟩ := exists_walk.mpr passes
      refine bind_eq_ok_iff.mpr ⟨directory, walked, ?_⟩
      cases last : path.last with
      | stay => rfl
      | up => rfl
      | into name => exact absurd last (nameless name)

theorem lookup_eq_file_iff {bytes : ByteArray} :
    tree.lookup path = .ok (.file bytes) ↔
      (∃ name, tree.EndsIn path name) ∧ path.slash = false ∧
        tree.entry (tree.target path) = some (.file bytes) := by
  constructor
  · intro found
    cases last : path.last with
    | stay =>
      obtain ⟨directory, -, looked⟩ := bind_eq_ok_iff.mp found
      simp [last] at looked
    | up =>
      obtain ⟨directory, -, looked⟩ := bind_eq_ok_iff.mp found
      simp [last] at looked
    | into name =>
      have ends := endsIn_of_lookup last found
      rw [lookup_of_endsIn ends] at found
      refine ⟨⟨name, ends⟩, ?_⟩
      split at found
      · contradiction
      · next stands =>
        split at found
        · contradiction
        · next slashless =>
          obtain rfl := Entry.file.inj (Except.ok.inj found)
          exact ⟨Bool.eq_false_iff.mpr slashless, stands⟩
      · exact absurd (Except.ok.inj found) nofun
  · rintro ⟨⟨name, ends⟩, slashless, stands⟩
    rw [lookup_of_endsIn ends, stands]
    simp [slashless]

/-- The place that the text of a path leads to. -/
def destination (tree : FileTree) (path : String) : Place := tree.target (.ofList path.toList)

theorem target_ofList (text : List Char) :
    tree.target (.ofList text) =
      Place.ofMoves ((Path.moves text).reverse ++ tree.start (text.head? = some '/')) := by
  simp only [target, route, way, Path.ofList]
  split
  · next none =>
    rw [none]
    rfl
  · next last before some =>
    rw [some]
    rfl

end FileTree

namespace Path

/-- A name that is one move into what it names. -/
def IsName (name : String) : Prop := '/' ∉ name.toList ∧ moves name.toList = [.into name]

instance (name : String) : Decidable (IsName name) :=
  inferInstanceAs (Decidable ('/' ∉ name.toList ∧ moves name.toList = [.into name]))

theorem moves_append_slash (left right : List Char) :
    moves (left ++ '/' :: right) = moves left ++ moves right := by
  rw [moves, names_append_slash, List.filter_append, List.map_append, moves, moves]

theorem parse_eq_ok {text : String} {parsed : Path} (parses : parse text = .ok parsed) :
    parsed = .ofList text.toList := by
  unfold parse at parses
  split at parses
  · contradiction
  · split at parses
    · contradiction
    · split at parses
      · contradiction
      · exact (Except.ok.inj parses).symm

end Path

/-- A name in a directory leads to the place under that name. -/
theorem FileTree.destination_inDirectory {tree : FileTree} {name : String}
    (single : Path.IsName name) (directory : String) :
    tree.destination (Path.inDirectory directory name) = name :: tree.destination directory := by
  have joined {front : List Char} {absolute : Bool} :
      Place.ofMoves ((Path.moves (front ++ '/' :: name.toList)).reverse ++ tree.start absolute) =
        name :: Place.ofMoves ((Path.moves front).reverse ++ tree.start absolute) := by
    rw [Path.moves_append_slash, single.2, List.reverse_append]
    rfl
  rw [destination, destination, target_ofList, target_ofList, Path.inDirectory]
  split
  · next direct =>
    rw [Bool.or_eq_true, String.isEmpty_iff, String.endsWith, String.Slice.endsWith_string_iff,
      String.copy_toSlice] at direct
    rcases direct with rfl | ⟨front, ends⟩
    · have relative : name.toList.head? ≠ some '/' :=
        fun first => single.1 (List.mem_of_mem_head? first)
      rw [String.empty_append, single.2, decide_eq_false relative, String.toList_empty]
      rfl
    · have slash : "/".toList = ['/'] := rfl
      rw [slash] at ends
      have bare : Path.moves directory.toList = Path.moves front := by
        rw [← ends, Path.moves_append_slash]
        exact List.append_nil _
      have whole : (directory ++ name).toList = front ++ '/' :: name.toList := by
        rw [String.toList_append, ← ends]
        simp
      rw [whole, joined, bare, ← ends]
      cases front <;> rfl
  · next apart =>
    have nonempty : directory.toList ≠ [] := by
      intro empty
      simp [String.toList_eq_nil_iff.mp empty] at apart
    have whole : (directory ++ "/" ++ name).toList = directory.toList ++ '/' :: name.toList := by
      simp
    obtain ⟨first, rest, letters⟩ := List.exists_cons_of_ne_nil nonempty
    rw [whole, joined, letters]
    rfl

end ThemeCss
