import Mathlib
import ThemeCss.Json.Record

/-! # What holds of all values that are read

A reader *yields* a property if every value that it reads has it, whatever the text. Containers
yield what their members yield, and a record has what its fields guarantee about the draft.
-/

namespace ThemeCss.Json

variable {α β σ : Type}

namespace Reader

/-- Every value that is read has the property. -/
def Yields (reader : Reader α) (property : α → Prop) : Prop :=
  ∀ ⦃text value rest⦄, reader.run text = .ok (value, rest) → property value

variable {reader : Reader α} {property : α → Prop}

theorem yields_andThen {next : α → List Char → Outcome β} {keeps} {property : β → Prop}
    (follows : ∀ {value text result rest}, next value text = .ok (result, rest) → property result) :
    (reader.andThen next keeps).Yields property := by
  intro text value rest success
  simp only [andThen] at success
  split at success
  · cases success
  · exact follows success

theorem Yields.map {f : α → β} {image : β → Prop} (yields : reader.Yields property)
    (maps : ∀ value, property value → image (f value)) : (reader.map f).Yields image := by
  intro text value rest success
  simp only [Reader.map, andThen] at success
  split at success
  · cases success
  · next read =>
    cases success
    exact maps _ (yields read)

/-- What is known of all meanings holds of a value that is interpreted. -/
theorem yields_interpret {f : α → Except ValueError β} {property : β → Prop}
    (meant : ∀ {value meaning}, f value = .ok meaning → property meaning) :
    (reader.interpret f).Yields property := by
  apply yields_andThen
  intro value text result rest success
  split at success
  · next meaning =>
    cases success
    exact meant meaning
  · cases success

theorem yields_number {expected : String} {meaning : Number → Except Cause α}
    (meant : ∀ {text number rest value}, takeNumber text = .ok (number, rest) →
      meaning number = .ok value → property value) :
    (number expected meaning).Yields property := by
  intro text value rest success
  simp only [number] at success
  split at success
  · cases success
  · split at success
    · split at success
      · cases success
      · next taken =>
        split at success
        · next meaning =>
          cases success
          exact meant taken meaning
        · cases success
    · cases success

theorem yields_count : count.Yields (· < 0x100000000) := by
  apply yields_number
  intro text number rest value taken meant
  cases number with
  | whole whole =>
    dsimp only at meant
    split at meant
    · next range =>
      cases meant
      omega
    · cases meant
  | floating _ => cases meant

theorem Yields.member (yields : reader.Yields property) : (member reader).Yields property := by
  intro text value rest success
  simp only [Reader.member, behindKey] at success
  split at success
  · cases success
  · exact yields success

end Reader

/-- What every member preserves holds behind all members. -/
theorem yields_takeMembers {member : σ → String → Reader σ} {property : σ → Prop}
    (preserves : ∀ state name, property state → (member state name).Yields property) {first : Bool}
    {state result : σ} {text rest : List Char} (start : property state)
    (success : takeMembers member first state text = .ok (result, rest)) : property result := by
  revert start
  refine takeMembers_induction ?closed ?named success
  case closed => exact fun _ holds => holds
  case named =>
    intro first state text start name behind next others more key read further holds
    exact further (preserves state name holds read)

theorem forall_mem_insert {property : α → Prop} {catalog : Catalog α}
    (all : ∀ entry ∈ catalog.entries, property entry.2) (name : String) {value : α}
    (holds : property value) : ∀ entry ∈ (catalog.insert name value).entries, property entry.2 := by
  rw [Catalog.insert]
  split
  · intro entry member
    obtain ⟨old, known, rfl⟩ := List.mem_map.mp member
    split
    · exact holds
    · exact all old known
  · intro entry member
    rcases List.mem_append.mp member with known | new
    · exact all entry known
    · rw [List.mem_singleton.mp new]
      exact holds

/-- The values of a catalog are values of its reader. -/
theorem yields_catalog {reader : Reader α} {property : α → Prop} (yields : reader.Yields property) :
    (Reader.catalog reader).Yields fun catalog => ∀ entry ∈ catalog.entries, property entry.2 := by
  have preserves (entries : Catalog α) (name : String)
      (all : ∀ entry ∈ entries.entries, property entry.2) :
      ((Reader.member reader).map (entries.insert name)).Yields fun catalog =>
        ∀ entry ∈ catalog.entries, property entry.2 :=
    yields.member.map fun _ holds => forall_mem_insert all name holds
  intro text catalog rest success
  simp only [Reader.catalog] at success
  split at success
  · obtain ⟨behind, members, -⟩ := Bracket.exists_of_enclosed success
    exact yields_takeMembers preserves (List.forall_mem_nil _) members
  · cases success

/-- Filling the field keeps a property of the draft. -/
def Field.Keeps (field : Field σ) (property : σ → Prop) : Prop :=
  ∀ draft, property draft → (field.fill draft).Yields property

theorem Field.keeps_slot {name : String} {get : σ → Option α} {set : σ → α → σ} {reader : Reader α}
    {property : σ → Prop} {filled : α → Prop} (yields : reader.Yields filled)
    (sets : ∀ draft value, property draft → filled value → property (set draft value)) :
    (Field.slot name get set reader).Keeps property :=
  fun draft holds => yields.map fun value filled => sets draft value holds filled

/-- A field that has nothing to do with a property. -/
theorem Field.keeps_slot_of_forall {name : String} {get : σ → Option α} {set : σ → α → σ}
    {reader : Reader α} {property : σ → Prop}
    (sets : ∀ draft value, property draft → property (set draft value)) :
    (Field.slot name get set reader).Keeps property :=
  Field.keeps_slot (fun _ _ _ _ => trivial) fun draft value holds (_ : True) =>
    sets draft value holds

namespace Form

variable {form : Form σ α} {property : σ → Prop}

theorem yields_member (keeps : ∀ field ∈ form.fields, field.Keeps property) (draft : σ)
    (name : String) (holds : property draft) : (form.member draft name).Yields property := by
  intro text value rest success
  simp only [member] at success
  split at success
  · exact (Reader.yields_andThen fun same => by cases same; exact holds) success
  · next field found =>
    split at success
    · cases success
    · exact (keeps field (List.mem_of_find?_eq_some found) draft holds).member success

theorem yields_takeFields {fields : List (Field σ)} (keeps : ∀ field ∈ fields, field.Keeps property)
    {first : Bool} {draft result : σ} {text rest : List Char} (holds : property draft)
    (success : takeFields fields first draft text = .ok (result, rest)) : property result := by
  induction fields generalizing first draft text with
  | nil => cases success; exact holds
  | cons field others ih =>
    obtain ⟨keep, keeps⟩ := List.forall_mem_cons.mp keeps
    unfold takeFields at success
    split at success
    · cases success
    · cases success; exact holds
    · split at success
      · cases success
      · next read => exact ih keeps (keep draft holds read) success

/-- A record has what follows from a property that holds of the blank draft and that every field
keeps. -/
theorem yields_reader {record : α → Prop} (blank : property form.blank)
    (keeps : ∀ field ∈ form.fields, field.Keeps property)
    (finish : ∀ {draft value}, property draft → form.finish draft = .ok value → record value) :
    form.reader.Yields record := by
  intro text value rest success
  simp only [reader] at success
  split at success
  · obtain ⟨behind, object, -⟩ := Bracket.exists_of_enclosed success
    obtain ⟨draft, members, finished⟩ := exists_of_complete object
    exact finish (yields_takeMembers (yields_member keeps) blank members) finished
  · obtain ⟨behind, array, -⟩ := Bracket.exists_of_enclosed success
    obtain ⟨draft, fields, finished⟩ := exists_of_complete array
    exact finish (yields_takeFields keeps blank fields) finished
  · cases success

end Form

/-- A text is read as a value that has the property. -/
theorem Reader.Yields.parse {reader : Reader α} {property : α → Prop}
    (yields : reader.Yields property) {text : String} {value : α}
    (success : Json.parse reader text = .ok value) : property value := by
  unfold Json.parse at success
  split at success
  · cases success
  · next read =>
    split at success
    · cases success
      exact yields read
    · cases success

end ThemeCss.Json
