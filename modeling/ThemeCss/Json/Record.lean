import ThemeCss.Json.Container

/-! # Records

A record has named fields. It is written as an object whose members stand in any order, or as an
array of the fields in their declared order. Unknown members are skipped, a field may be given
once, and only fields with a default may be missing.
-/

namespace ThemeCss.Json

/-- A field of a record that is being filled in: `σ` holds what was read so far. -/
structure Field (σ : Type) where
  name : String
  filled : σ → Bool
  fill : σ → Reader σ

/-- A field that is kept as an optional value until the record is complete. -/
def Field.slot {σ α : Type} (name : String) (get : σ → Option α) (set : σ → α → σ)
    (value : Reader α) : Field σ where
  name := name
  filled draft := (get draft).isSome
  fill draft := value.map (set draft)

/-- The fields of a record, and how a filled-in draft becomes the record. -/
structure Form (σ α : Type) where
  /-- What the record is called in messages. -/
  title : String
  /-- The fields in declared order. -/
  fields : List (Field σ)
  blank : σ
  /-- The record, or the name of the first field that is missing. -/
  finish : σ → Except String α

/-- The value of a field that has no default. -/
def required {α : Type} (name : String) : Option α → Except String α
  | some value => .ok value
  | none => .error name

namespace Form

variable {σ α : Type}

/-- Goes on behind the key of a member. -/
def member (form : Form σ α) (draft : σ) (name : String) : Reader σ where
  run text :=
    match form.fields.find? (·.name == name) with
    | none => ((Reader.member .ignore).map fun () => draft).run text
    | some field =>
      if field.filled draft then .error (.pending (.duplicateField name) text)
      else (Reader.member (field.fill draft)).run text
  shorter := by
    intro text value rest success
    split at success
    · exact Reader.shorter _ success
    · split at success
      · cases success
      · exact Reader.shorter _ success

/-- The record that a draft is finished to, or the fault that its first missing field makes. -/
def complete (form : Form σ α) (missing : String → Cause) (read : Outcome σ) : Outcome α :=
  match read with
  | .error fault => .error fault
  | .ok (draft, rest) =>
    match form.finish draft with
    | .ok record => .ok (record, rest)
    | .error name => .error (.pending (missing name) rest)

/-- Reads the members of an object into the record. -/
def takeObject (form : Form σ α) (text : List Char) : Outcome α :=
  form.complete .missingField (takeMembers form.member true form.blank text)

/-- Reads elements into the fields, in their order, as long as there are any. -/
def takeFields (fields : List (Field σ)) (first : Bool) (draft : σ) (text : List Char) :
    Outcome σ :=
  match fields with
  | [] => .ok (draft, text)
  | field :: others =>
    match nextElement first text with
    | .error fault => .error fault
    | .ok (false, rest) => .ok (draft, rest)
    | .ok (true, start) =>
      match (field.fill draft).run start with
      | .error fault => .error fault
      | .ok (next, rest) => takeFields others false next rest

/-- The cause of a fault where an array has too few elements for a field. -/
def fewElements (form : Form σ α) (name : String) : Cause :=
  .tooFewElements (form.fields.findIdx (·.name == name))
    s!"{form.title} with {form.fields.length} elements"

/-- Reads the elements of an array into the record. -/
def takeArray (form : Form σ α) (text : List Char) : Outcome α :=
  form.complete form.fewElements (takeFields form.fields true form.blank text)

theorem exists_of_complete {form : Form σ α} {missing : String → Cause} {read : Outcome σ}
    {rest : List Char} {record : α} (success : form.complete missing read = .ok (record, rest)) :
    ∃ draft, read = .ok (draft, rest) ∧ form.finish draft = .ok record := by
  unfold complete at success
  split at success
  · cases success
  · next draft _ =>
    split at success <;> cases success
    next whole => exact ⟨draft, rfl, whole⟩

theorem takeObject_keeps {form : Form σ α} {text rest : List Char} {record : α}
    (success : form.takeObject text = .ok (record, rest)) : rest.length ≤ text.length := by
  obtain ⟨draft, members, -⟩ := exists_of_complete success
  exact takeMembers_keeps members

theorem takeFields_keeps {fields : List (Field σ)} {first : Bool} {draft result : σ}
    {text rest : List Char} (success : takeFields fields first draft text = .ok (result, rest)) :
    rest.length ≤ text.length := by
  induction fields generalizing first draft text with
  | nil => cases success; exact Nat.le_refl _
  | cons field others ih =>
    unfold takeFields at success
    split at success
    · cases success
    · next step =>
      have := nextElement_keeps step
      cases success
      exact this
    · next step =>
      have := nextElement_keeps step
      split at success
      · cases success
      · next filled =>
        have := (field.fill draft).shorter filled
        have := ih success
        omega

theorem takeArray_keeps {form : Form σ α} {text rest : List Char} {record : α}
    (success : form.takeArray text = .ok (record, rest)) : rest.length ≤ text.length := by
  obtain ⟨draft, fields, -⟩ := exists_of_complete success
  exact takeFields_keeps fields

/-- Reads the record from an object or from an array. -/
def reader (form : Form σ α) : Reader α where
  run text :=
    match skipSpace text with
    | '{' :: rest => Bracket.object.enclosed form.takeObject rest
    | '[' :: rest => Bracket.list.enclosed form.takeArray rest
    | other => .error (mismatch form.title other)
  shorter := by
    intro text value rest success
    have spaces := length_skipSpace_le text
    split at success
    · next tail spaced =>
      rw [spaced, List.length_cons] at spaces
      have := Bracket.enclosed_shorter takeObject_keeps success
      omega
    · next tail spaced =>
      rw [spaced, List.length_cons] at spaces
      have := Bracket.enclosed_shorter takeArray_keeps success
      omega
    · cases success

end Form

/-- Reads a text that holds one value and nothing else. -/
def parse {α : Type} (value : Reader α) (text : String) : Except Error α :=
  match value.run text.toList with
  | .error fault => .error (.ofFault text.toList fault)
  | .ok (result, rest) =>
    match skipSpace rest with
    | [] => .ok result
    | other => .error (.ofFault text.toList (.next .trailingCharacters other))

end ThemeCss.Json
