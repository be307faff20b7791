import ThemeCss.Proofs.Number.Thousandths
import ThemeCss.Proofs.Sheet.Classes
import ThemeCss.Section.Page
import ThemeCss.Section.Palette
import ThemeCss.Section.Utilities

/-! # What the names of classes begin with

The stem of a class is its name up to the first hyphen, without the label of a breakpoint. Classes
with different stems are different. Names that are made of parts tell their parts: the last hyphen
the number of a column or of a step, the first one the use that a class makes of a colour.
-/

namespace ThemeCss

/-- What stands behind the last colon of a name. -/
def withoutLabel (name : String) : List Char :=
  (name.toList.reverse.takeWhile (· != ':')).reverse

/-- The name of a class up to its first hyphen, without the label of a breakpoint. -/
def stem (name : String) : String := String.ofList ((withoutLabel name).takeWhile (· != '-'))

section Stem

variable {name front : String} {rest : List Char}

theorem withoutLabel_labelled (label : Option String) (plain : ':' ∉ name.toList) :
    withoutLabel (labelled label name) = name.toList := by
  have inside : ∀ c ∈ name.toList.reverse, (c != ':') = true :=
    forall_bne_of_not_mem (by simpa using plain)
  cases label with
  | none =>
    rw [labelled, withoutLabel, List.takeWhile_eq_self_iff.mpr inside, List.reverse_reverse]
  | some label =>
    have letters : (labelled (some label) name).toList.reverse =
        name.toList.reverse ++ ':' :: label.toList.reverse := by simp [toList_labelled_some]
    rw [withoutLabel, letters, takeWhile_append_cons inside (by simp), List.reverse_reverse]

theorem stem_eq (plain : ':' ∉ name.toList) :
    stem name = String.ofList (name.toList.takeWhile (· != '-')) :=
  congrArg (fun letters : List Char => String.ofList (letters.takeWhile (· != '-')))
    (withoutLabel_labelled none plain)

theorem stem_labelled (plain : ':' ∉ name.toList) (label : Option String) :
    stem (labelled label name) = stem name := by
  rw [stem, withoutLabel_labelled label plain, stem_eq plain]

/-- A front without hyphens is the stem. -/
theorem stem_append (letters : name.toList = front.toList ++ '-' :: rest)
    (colon : ':' ∉ name.toList) (hyphen : '-' ∉ front.toList) : stem name = front := by
  rw [stem_eq colon, letters, takeWhile_append_cons (forall_bne_of_not_mem hyphen) (by simp),
    String.ofList_toList]

end Stem

/-- A name that can be read from a selector, has no colon that could be taken for the end of a label,
and has one of the given stems. -/
def IsPlainName (stems : List String) (name : String) : Prop :=
  IsClassName name ∧ ':' ∉ name.toList ∧ stem name ∈ stems

instance (stems : List String) (name : String) : Decidable (IsPlainName stems name) :=
  inferInstanceAs (Decidable (_ ∧ _))

/-- A name with a number behind it. -/
def numbered (front : String) (number : Nat) : String := s!"{front}-{number}"

section Numbered

variable {front other : String} {number further : Nat}

theorem toList_numbered (front : String) (number : Nat) :
    (numbered front number).toList = front.toList ++ '-' :: Nat.toDigits 10 number := by
  simp [numbered, toString]

/-- The last hyphen tells the number. -/
theorem numbered_inj (same : numbered front number = numbered other further) :
    front = other ∧ number = further := by
  rw [← String.toList_inj, toList_numbered, toList_numbered] at same
  obtain ⟨fronts, digits⟩ :=
    append_cons_inj_last (not_mem_toDigits rfl number) (not_mem_toDigits rfl further) same
  rw [← Nat.toList_repr, ← Nat.toList_repr] at digits
  exact ⟨String.toList_inj.mp fronts, Nat.repr_inj.mp (String.toList_inj.mp digits)⟩

/-- A number behind a name changes neither its stem nor how it is read. -/
theorem isPlainName_numbered {stems : List String} (plain : IsPlainName stems front)
    (number : Nat) : IsPlainName stems (numbered front number) := by
  obtain ⟨⟨-, line⟩, colon, known⟩ := plain
  have whole : ':' ∉ (numbered front number).toList := by
    simp [toList_numbered, colon, not_mem_toDigits (c := ':') rfl]
  refine ⟨⟨?_, ?_⟩, whole, ?_⟩
  · intro empty
    simpa [toList_numbered] using congrArg String.toList empty
  · simp [toList_numbered, line, not_mem_toDigits (c := '\n') rfl]
  · have cut : (front.toList ++ '-' :: Nat.toDigits 10 number).takeWhile (· != '-') =
        front.toList.takeWhile (· != '-') := by
      rw [List.takeWhile_append]
      split
      · next whole => simp [(List.takeWhile_prefix _).eq_of_length whole]
      · rfl
    rw [stem_eq whole, toList_numbered, cut, ← stem_eq colon]
    exact known

/-- Different numbers behind different names make different names. -/
theorem nodup_numbered {fronts : List String} {numbers : List Nat} (distinct : fronts.Nodup)
    (once : numbers.Nodup) : (fronts.flatMap fun front => numbers.map (numbered front)).Nodup := by
  refine List.nodup_flatMap.mpr ⟨fun front _ => ?_, distinct.imp fun {front other} different => ?_⟩
  · exact once.map fun number further same => (numbered_inj same).2
  · intro name left right
    obtain ⟨number, -, rfl⟩ := List.mem_map.mp left
    obtain ⟨further, -, same⟩ := List.mem_map.mp right
    exact different (numbered_inj same).1.symm

end Numbered

namespace Page

/-- The names of the classes for one column up to all columns. -/
def columnNames (columns : Nat) : List String :=
  (List.range columns).map fun before => numbered "col" (before + 1)

theorem names_columnClasses (columns : Nat) :
    (columnClasses columns).map (·.name) = columnNames columns := by
  rw [columnClasses, List.map_map]
  exact List.map_congr_left fun before _ => by simp [columnClass, numbered, toString]

theorem nodup_columnNames (columns : Nat) : (columnNames columns).Nodup :=
  List.nodup_range.map fun _ _ same => Nat.succ_injective (numbered_inj same).2

theorem isPlainName_of_mem_columnNames {columns : Nat} :
    ∀ name ∈ columnNames columns, IsPlainName ["col"] name :=
  List.forall_mem_map.mpr fun before _ => isPlainName_numbered (by decide) (before + 1)

end Page

namespace Utilities

/-- What the names of the classes of margins and paddings begin with. -/
def spacingFronts : List String :=
  spacingProperties.flatMap fun (_, letter) => spacingDirections.map fun (direction, _) =>
    letter ++ direction

/-- The names of the classes of margins and paddings. -/
def spacingNames : List String :=
  spacingFronts.flatMap fun front => (List.range spacingSteps.length).map (numbered front)

theorem names_stepClasses (unit : Length) (property letter direction : String)
    (sides : List String) : (stepClasses unit property letter direction sides).map (·.name) =
      (List.range spacingSteps.length).map (numbered (letter ++ direction)) := rfl

theorem names_spacingClasses (unit : Length) :
    (spacingClasses unit).map (·.name) = spacingNames := by
  rw [spacingClasses, spacingNames, spacingFronts, List.map_flatMap, List.flatMap_assoc]
  refine List.flatMap_congr fun entry _ => ?_
  rw [List.map_flatMap, List.flatMap_map]
  exact List.flatMap_congr fun side _ =>
    names_stepClasses unit entry.1 entry.2 side.1 side.2

theorem nodup_spacingNames : spacingNames.Nodup := nodup_numbered (by decide) List.nodup_range

theorem isPlainName_of_mem_spacingNames :
    ∀ name ∈ spacingNames, IsPlainName ["m", "p"] name := by
  have fronts : ∀ front ∈ spacingFronts, IsPlainName ["m", "p"] front := by decide
  exact List.forall_mem_flatMap.mpr fun front member =>
    List.forall_mem_map.mpr fun index _ => isPlainName_numbered (fronts front member) index

/-- The names of the classes of transitions. -/
def transitionNames : List String :=
  ["transition", "transition-colors", "transition-transform", "transition-none"]

theorem names_transitionClasses (timing : String) :
    (transitionClasses timing).map (·.name) = transitionNames := rfl

end Utilities

namespace Palette

/-- What the classes of a colour set, and the variant of the colour that they refer to. -/
def uses : List (String × String) := [
  ("text", ""), ("text", "-light"), ("text", "-dark"),
  ("bg", ""), ("bg", "-light"), ("bg", "-dark"), ("border", "")]

/-- The name of a class of a colour. -/
def className (name : String) (use : String × String) : String :=
  use.1 ++ "-" ++ name ++ use.2

/-- The names that the group for colours gives a meaning of its own. -/
def keywords : List String := ["0", "transparent", "inherit"]

theorem names_classes (name : String) :
    (classes name).map (·.name) = uses.map (className name) := by
  simp [classes, suffixes, uses, className, textClass, backgroundClass, borderClass, toString]

/-- A name and a suffix can be told apart, unless one name is a variant of another one. -/
theorem append_suffix_inj {name other suffix further : String} (known : suffix ∈ suffixes)
    (listed : further ∈ suffixes)
    (apart : ∀ variant ∈ ["-light", "-dark"], name ≠ other ++ variant ∧ other ≠ name ++ variant)
    (same : name ++ suffix = other ++ further) : name = other ∧ suffix = further := by
  -- Of two suffixes that end the same text one is empty, or they are the same.
  have table : ∀ suffix ∈ suffixes, ∀ further ∈ suffixes, suffix.toList <:+ further.toList →
      suffix = further ∨ suffix = "" ∧ further ∈ ["-light", "-dark"] := by decide
  have letters : name.toList ++ suffix.toList = other.toList ++ further.toList := by
    rw [← String.toList_append, same, String.toList_append]
  obtain rfl : suffix = further := by
    rcases List.suffix_or_suffix_of_suffix (List.suffix_append name.toList suffix.toList)
      (letters ▸ List.suffix_append other.toList further.toList) with shorter | shorter
    · rcases table suffix known further listed shorter with equal | ⟨rfl, variant⟩
      · exact equal
      · exact absurd (String.append_empty.symm.trans same) (apart further variant).1
    · rcases table further listed suffix known shorter with equal | ⟨rfl, variant⟩
      · exact equal.symm
      · exact absurd (String.append_empty.symm.trans same.symm) (apart suffix variant).2
  exact ⟨String.toList_inj.mp (List.append_cancel_right letters), rfl⟩

section ClassName

variable {name other : String} {use further : String × String}

theorem toList_className : (className name use).toList =
    use.1.toList ++ '-' :: (name.toList ++ use.2.toList) := by
  simp [className]

theorem plain_of_mem_uses (known : use ∈ uses) : '-' ∉ use.1.toList ∧
    (':' ∉ use.1.toList ∧ '\n' ∉ use.1.toList) ∧ ':' ∉ use.2.toList ∧ '\n' ∉ use.2.toList := by
  have table : ∀ use ∈ uses, '-' ∉ use.1.toList ∧
    (':' ∉ use.1.toList ∧ '\n' ∉ use.1.toList) ∧ ':' ∉ use.2.toList ∧ '\n' ∉ use.2.toList := by
    decide
  exact table use known

theorem isPlainName_className (known : use ∈ uses) (colon : ':' ∉ name.toList)
    (line : '\n' ∉ name.toList) : IsPlainName (uses.map Prod.fst) (className name use) := by
  obtain ⟨hyphen, ⟨frontColon, frontLine⟩, backColon, backLine⟩ := plain_of_mem_uses known
  have plain : ':' ∉ (className name use).toList := by
    simp [toList_className, frontColon, colon, backColon]
  refine ⟨⟨?_, by simp [toList_className, frontLine, line, backLine]⟩, plain, ?_⟩
  · intro empty
    simpa [toList_className] using congrArg String.toList empty
  · rw [stem_append toList_className plain hyphen]
    exact List.mem_map_of_mem known

/-- A name of a class tells the colour and the use, unless one colour is named like a variant of
another one. -/
theorem className_inj (known : use ∈ uses) (listed : further ∈ uses)
    (apart : ∀ suffix ∈ ["-light", "-dark"], name ≠ other ++ suffix ∧ other ≠ name ++ suffix)
    (same : className name use = className other further) : name = other ∧ use = further := by
  have letters := congrArg String.toList same
  rw [toList_className, toList_className] at letters
  obtain ⟨fronts, behind⟩ :=
    append_cons_inj_first (plain_of_mem_uses known).1 (plain_of_mem_uses listed).1 letters
  have suffix : ∀ use ∈ uses, use.2 ∈ suffixes := by decide
  obtain ⟨names, suffixes⟩ := append_suffix_inj (suffix use known) (suffix further listed) apart
    (String.toList_inj.mp (by simpa using behind))
  exact ⟨names, Prod.ext (String.toList_inj.mp fronts) suffixes⟩

/-- The classes of all colours are different. -/
theorem nodup_classNames {names : List String} (distinct : names.Nodup)
    (apart : ∀ name ∈ names, ∀ other ∈ names, ∀ variant ∈ ["-light", "-dark"],
      name ≠ other ++ variant) :
    (names.flatMap fun name => uses.map (className name)).Nodup := by
  have inj {name other : String} {use further : String × String} (member : name ∈ names)
      (mentioned : other ∈ names) (known : use ∈ uses) (listed : further ∈ uses)
      (same : className name use = className other further) : name = other ∧ use = further :=
    className_inj known listed (fun variant suffix =>
      ⟨apart name member other mentioned variant suffix,
        apart other mentioned name member variant suffix⟩) same
  refine List.nodup_flatMap.mpr ⟨fun name member => ?_, ?_⟩
  · refine List.Nodup.map_on ?_ (by decide)
    exact fun use known further listed same => (inj member member known listed same).2
  · refine List.Pairwise.imp_of_mem ?_ distinct
    intro name other member mentioned different text left right
    obtain ⟨use, known, rfl⟩ := List.mem_map.mp left
    obtain ⟨further, listed, same⟩ := List.mem_map.mp right
    exact different (inj mentioned member listed known same).1.symm

/-- No class of a colour is one of the group for colours, unless the colour is named like a keyword
of that group. -/
theorem className_not_mem (known : use ∈ uses) (apart : name ∉ keywords) :
    className name use ∉ Utilities.colorClasses.map (·.name) := by
  intro member
  -- Behind the stem of a colour's class that group has only keywords, and no keyword is a variant.
  have behind : ∀ text ∈ Utilities.colorClasses.map (·.name),
      text.toList.takeWhile (· != '-') ∈ uses.map (·.1.toList) →
        text.toList.dropWhile (· != '-') ∈ [] :: keywords.map ('-' :: ·.toList) := by decide
  have whole : ∀ keyword ∈ keywords, ∀ use ∈ uses, use.2.toList <:+ keyword.toList → use.2 = "" := by
    decide
  have inside := forall_bne_of_not_mem (plain_of_mem_uses known).1
  have letters := behind _ member
  rw [toList_className, takeWhile_append_cons inside (by simp),
    dropWhile_append_cons inside (by simp)] at letters
  obtain ⟨keyword, reserved, same⟩ := List.mem_map.mp
    ((List.mem_cons.mp (letters (List.mem_map_of_mem known))).resolve_left (List.cons_ne_nil _ _))
  have ends := (List.cons.inj same).2
  have empty := whole keyword reserved use known ⟨name.toList, ends.symm⟩
  rw [empty, String.toList_empty, List.append_nil] at ends
  exact apart (String.toList_inj.mp ends ▸ reserved)

end ClassName

end Palette

end ThemeCss
