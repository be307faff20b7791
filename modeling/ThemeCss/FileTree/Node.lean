/-! # Files, and directories with what stands in them

A node is looked at through its entries: what stands at each place below it, a file or a directory.
Main statement: a replacement changes the entry at one place and none elsewhere
(`entryAt_replace`).
-/

namespace ThemeCss

/-- The names that lead to a place, innermost first. -/
abbrev Place := List String

/-- What stands at a place, without what stands in it. -/
inductive Entry where
  | file (contents : ByteArray)
  | directory

inductive Node where
  | file (contents : ByteArray)
  | directory (children : List (String × Node))

/-- A directory stands empty at first. -/
def Entry.node : Entry → Node
  | file bytes => .file bytes
  | directory => .directory []

namespace Node

def entry : Node → Entry
  | file bytes => .file bytes
  | directory _ => .directory

def children : Node → List (String × Node)
  | file _ => []
  | directory children => children

/-- The node that stands under a name. Nothing stands in a file. -/
def child? (node : Node) (name : String) : Option Node := node.children.lookup name

@[simp] theorem entry_directory (children : List (String × Node)) :
    (directory children).entry = .directory := rfl

@[simp] theorem children_directory (children : List (String × Node)) :
    (directory children).children = children := rfl

@[simp] theorem entry_node (entry : Entry) : entry.node.entry = entry := by
  cases entry <;> rfl

@[simp] theorem child?_node (entry : Entry) (name : String) : entry.node.child? name = none := by
  cases entry <;> rfl

theorem isDirectory_of_child? {node child : Node} {name : String}
    (found : node.child? name = some child) : node.entry = .directory := by
  cases node with
  | file bytes => cases found
  | directory children => rfl

/-- The node that names lead to, outermost first. -/
def find? : Node → List String → Option Node
  | node, [] => some node
  | node, name :: rest => (node.child? name).bind (·.find? rest)

theorem find?_append (node : Node) (names more : List String) :
    node.find? (names ++ more) = (node.find? names).bind (·.find? more) := by
  induction names generalizing node with
  | nil => rfl
  | cons name rest ih =>
    simp only [List.cons_append, find?]
    cases node.child? name with
    | none => rfl
    | some child => exact ih child

/-- What stands at a place below a node. -/
def entryAt (node : Node) (place : Place) : Option Entry := (node.find? place.reverse).map entry

theorem find?_reverse_cons (node : Node) (name : String) (place : Place) :
    node.find? (name :: place).reverse = (node.find? place.reverse).bind (·.child? name) := by
  rw [List.reverse_cons, find?_append]
  congr 1
  funext above
  simp only [find?]
  cases above.child? name <;> rfl

/-- The children with another one, or none, under a name. -/
def assign (children : List (String × Node)) (name : String) (child : Option Node) :
    List (String × Node) :=
  (child.map (name, ·)).toList ++ children.filter (·.1 != name)

theorem lookup_cons (key : String) (child : Node) (rest : List (String × Node)) (other : String) :
    ((key, child) :: rest).lookup other = if other = key then some child else rest.lookup other := by
  by_cases same : other = key
  · simp [same]
  · rw [List.lookup_cons, beq_false_of_ne same, if_neg same]

theorem lookup_filter_ne (children : List (String × Node)) (name other : String) :
    (children.filter (·.1 != name)).lookup other =
      if other = name then none else children.lookup other := by
  induction children with
  | nil => simp
  | cons first rest ih =>
    rcases first with ⟨key, child⟩
    by_cases same : key = name
    · subst same
      rw [List.filter_cons_of_neg (by simp), ih, lookup_cons]
      by_cases wanted : other = key <;> simp [wanted]
    · rw [List.filter_cons_of_pos (by simpa using same), lookup_cons, lookup_cons, ih]
      by_cases wanted : other = key
      · simp [wanted, same]
      · simp [wanted]

theorem lookup_assign (children : List (String × Node)) (name other : String)
    (child : Option Node) :
    (assign children name child).lookup other =
      if other = name then child else children.lookup other := by
  cases child with
  | none => simp [assign, lookup_filter_ne]
  | some child =>
    by_cases wanted : other = name <;> simp [assign, lookup_cons, lookup_filter_ne, wanted]

/-- The node with another child, or none, under a name in the directory that names lead to. -/
def replace (name : String) (child : Option Node) : List String → Node → Node
  | [], node => .directory (assign node.children name child)
  | first :: rest, node =>
    match node.child? first with
    | none => node
    | some above => .directory (assign node.children first (some (replace name child rest above)))

theorem entry_find?_replace {name : String} {value : Option Entry} {names : List String}
    {node directory : Node} (found : node.find? names = some directory)
    (isDirectory : directory.entry = .directory)
    (leaf : (directory.child? name).map entry ≠ some .directory) (other : List String) :
    ((node.replace name (value.map Entry.node) names).find? other).map entry =
      if other = names ++ [name] then value else (node.find? other).map entry := by
  induction names generalizing node other with
  | nil =>
    obtain rfl : node = directory := Option.some.inj found
    cases other with
    | nil => simp [replace, find?, isDirectory]
    | cons first rest =>
      simp only [replace, find?, child?, children_directory, lookup_assign]
      by_cases same : first = name
      · subst same
        cases rest with
        | nil => cases value <;> simp [find?]
        | cons second others =>
          have nothing : (node.children.lookup first).bind (·.find? (second :: others)) = none := by
            cases there : node.children.lookup first with
            | none => rfl
            | some child =>
              cases child with
              | file bytes => rfl
              | directory children => simp [child?, there] at leaf
          rw [nothing]
          cases value <;> simp [find?]
      · simp [same]
  | cons step names ih =>
    cases there : node.child? step with
    | none => simp [find?, there] at found
    | some above =>
      have inner : above.find? names = some directory := by simpa [find?, there] using found
      cases other with
      | nil => simp [replace, there, find?, isDirectory_of_child? there]
      | cons first rest =>
        simp only [replace, there, find?]
        rw [child?, children_directory, lookup_assign]
        by_cases same : first = step
        · subst same
          simp [there, ih inner rest]
        · simp [same, child?]

/-- A replacement changes the entry at one place. -/
theorem entryAt_replace {node : Node} {name : String} {place : Place} {value : Option Entry}
    (parent : node.entryAt place = some .directory)
    (leaf : node.entryAt (name :: place) ≠ some .directory) (other : Place) :
    (node.replace name (value.map Entry.node) place.reverse).entryAt other =
      if other = name :: place then value else node.entryAt other := by
  obtain ⟨directory, found, isDirectory⟩ := Option.map_eq_some_iff.mp parent
  have leafChild : (directory.child? name).map entry ≠ some .directory := by
    simpa [entryAt, find?_append, found, find?] using leaf
  have same : other.reverse = place.reverse ++ [name] ↔ other = name :: place := by
    rw [← List.reverse_cons, List.reverse_inj]
  simp only [entryAt, entry_find?_replace found isDirectory leafChild, same]

theorem isDirectory_replace {node : Node} (name : String) (child : Option Node)
    (names : List String) (isDirectory : node.entry = .directory) :
    (node.replace name child names).entry = .directory := by
  cases names with
  | nil => rfl
  | cons first rest =>
    simp only [replace]
    split
    · exact isDirectory
    · rfl

end Node

end ThemeCss
