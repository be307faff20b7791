import ThemeCss.Json.Record
import ThemeCss.Proofs.Json.Steady

/-! # Objects and records that are read

The members of an object lead from state to state, each by its name and by the text of its value.
So what is read of a catalog or of a record is a fold over the members of its object, and does not
depend on what stands around it.
-/

namespace ThemeCss.Json

variable {α β σ : Type}

namespace RawMember

/-- The name that the key stands for, if it stands for one. -/
def name? (member : RawMember) : Option String :=
  Reader.string.whole? ('"' :: (member.key ++ ['"']))

theorem name?_eq_some_iff {member : RawMember} {name : String} :
    member.name? = some name ↔ Spells member.key name.toList := by
  constructor
  · exact Reader.spells_of_whole? member.isBody
  · intro spells
    rw [name?, Reader.whole?_of_spells spells, String.ofList_toList]

/-- The state behind a member, if the member can be read there. -/
def lead? (step : σ → String → List Char → Option σ) (state : σ) (member : RawMember) : Option σ :=
  member.name?.bind fun name => step state name member.value

end RawMember

/-- What goes on behind a key is told by the name and the text of the value. -/
def Follows (member : σ → String → Reader σ) (step : σ → String → List Char → Option σ) : Prop :=
  ∀ state name {value}, IsValue value → ∀ (middle ahead : Gap) {rest}, Stops rest →
    ((member state name).run (middle.text ++ ':' :: (ahead.text ++ (value ++ rest)))).toOption =
      (step state name value).map fun next => (next, rest)

theorem Reader.run_member {reader : Reader α} (steady : reader.Steady) {value : List Char}
    (isValue : IsValue value) (middle ahead : Gap) {rest : List Char} (stops : Stops rest) :
    ((Reader.member reader).run
      (middle.text ++ ':' :: (ahead.text ++ (value ++ rest)))).toOption =
        (reader.whole? value).map fun result => (result, rest) := by
  simp only [Reader.member, behindKey, takeColon_gap, steady.skips]
  exact steady.run_append isValue stops

section Members

variable {text rest : List Char}

theorem nextKey_separated (member : RawMember) (first : Bool) (gap : Gap)
    (members : List RawMember) (rest : List Char) :
    nextKey first (gap.text ++
      (separated first ((member :: members).map RawMember.text) ++ '}' :: rest)) =
        .ok (true, member.key ++ '"' :: (member.middle.text ++ ':' :: (member.ahead.text ++
          (member.value ++ (member.back.text ++
            (separated false (members.map RawMember.text) ++ '}' :: rest)))))) := by
  have spaced (more : List Char) : skipSpace (member.front.text ++ '"' :: more) = '"' :: more := by
    rw [member.front.skipSpace_append, skipSpace_of_not_isSpace rfl]
  rw [nextKey, gap.skipSpace_append]
  cases first with
  | true => simp [separated, RawMember.text, spaced]
  | false => simp [separated, RawMember.text, spaced, skipSpace_of_not_isSpace (c := ',') rfl]

theorem nextKey_closer (first : Bool) (gap : Gap) (rest : List Char) :
    nextKey first (gap.text ++ '}' :: rest) = .ok (false, '}' :: rest) := by
  rw [nextKey, gap.skipSpace_append, skipSpace_of_not_isSpace rfl]
  rfl

theorem toOption_takeMembers_of_member {member : σ → String → Reader σ} {first : Bool} {state : σ}
    {start : List Char} (more : nextKey first text = .ok (true, start)) :
    (takeMembers member first state text).toOption = (takeBody [] start).toOption.bind fun key =>
      ((member state key.1).run key.2).toOption.bind fun read =>
        (takeMembers member false read.1 read.2).toOption := by
  cases named : takeBody [] start with
  | error fault =>
    rw [takeMembers]
    split
    · next other => cases more.symm.trans other
    · next other => cases more.symm.trans other
    · next same =>
      cases more.symm.trans same
      split
      · rfl
      · next other => cases named.symm.trans other
  | ok key =>
    change _ = ((member state key.1).run key.2).toOption.bind fun read =>
      (takeMembers member false read.1 read.2).toOption
    cases run : (member state key.1).run key.2 with
    | ok read => rw [takeMembers_of_member more named run]; rfl
    | error fault =>
      rw [takeMembers]
      split
      · next other => cases more.symm.trans other
      · next other => cases more.symm.trans other
      · next same =>
        cases more.symm.trans same
        split
        · next other => cases named.symm.trans other
        · next same =>
          cases named.symm.trans same
          split
          · rfl
          · next other => cases run.symm.trans other

/-- The members of an object are read one by one, each from its name and the text of its value. -/
theorem toOption_takeMembers {member : σ → String → Reader σ}
    {step : σ → String → List Char → Option σ} (follows : Follows member step)
    {members : List RawMember} (values : ∀ member ∈ members, IsValue member.value) (first : Bool)
    (state : σ) (gap : Gap) (rest : List Char) :
    (takeMembers member first state
      (gap.text ++ (separated first (members.map RawMember.text) ++ '}' :: rest))).toOption =
      (members.foldlM (RawMember.lead? step) state).map fun result => (result, '}' :: rest) := by
  induction members generalizing first state gap with
  | nil =>
    have closed : nextKey first (gap.text ++ '}' :: rest) = .ok (false, '}' :: rest) :=
      nextKey_closer first gap rest
    rw [List.map_nil, separated, List.nil_append, takeMembers_of_end closed]
    rfl
  | cons item members ih =>
    obtain ⟨isValue, values⟩ := List.forall_mem_cons.mp values
    have stops := item.back.stops_append (stops_separated .object (members.map RawMember.text) rest)
    have behind (state : σ) := ih values false state item.back
    rw [toOption_takeMembers_of_member (nextKey_separated item first gap members rest),
      Reader.toOption_takeBody item.isBody, List.foldlM_cons, RawMember.lead?, RawMember.name?]
    cases Reader.string.whole? ('"' :: (item.key ++ ['"'])) with
    | none => rfl
    | some name =>
      have read := follows state name isValue item.middle item.ahead stops
      simp only [Bracket.closer] at read
      simp only [Option.map_some, Option.bind_some, read]
      cases step state name item.value with
      | none => rfl
      | some next => exact behind next

theorem objectText_append (gap : Gap) (members : List RawMember) (rest : List Char) :
    objectText gap members ++ rest =
      '{' :: (gap.text ++ (separated true (members.map RawMember.text) ++ '}' :: rest)) := by
  simp [objectText]

end Members

namespace Reader

variable {reader : Reader α}

/-- A member of a catalog enters its value under its name. -/
def enter? (reader : Reader α) (entries : Catalog α) (name : String) (value : List Char) :
    Option (Catalog α) :=
  (reader.whole? value).map (entries.insert name)

theorem follows_enter? (steady : reader.Steady) :
    Follows (fun entries name => (Reader.member reader).map (entries.insert name))
      reader.enter? := by
  intro entries name value isValue middle ahead rest stops
  refine toOption_andThen.trans ?_
  rw [run_member steady isValue middle ahead stops, enter?]
  cases reader.whole? value <;> rfl

theorem refuses_catalog : (catalog reader).RefusesNumbers := by
  intro first rest number
  simp only [catalog, skipSpace_of_not_isSpace (not_isSpace_of_number number)]
  split
  · next same =>
    obtain ⟨rfl, -⟩ := List.cons.inj same
    exact absurd number (by decide)
  · rfl

theorem settles_catalog (steady : reader.Steady) (gap : Gap) {members : List RawMember}
    (values : ∀ member ∈ members, IsValue member.value) :
    (catalog reader).Settles (objectText gap members)
      (members.foldlM (RawMember.lead? reader.enter?) .empty) := by
  intro rest _
  rw [objectText_append]
  refine Bracket.toOption_enclosed.trans ?_
  rw [toOption_takeMembers (follows_enter? steady) values]
  cases members.foldlM (RawMember.lead? reader.enter?) .empty <;> rfl

theorem steady_catalog (steady : reader.Steady) : (catalog reader).Steady where
  skips gap text := by simp only [catalog, gap.skipSpace_append]
  settles isValue := by
    cases isValue with
    | null | yes | no | string | array => exact ⟨none, fun rest _ => rfl⟩
    | object gap values => exact ⟨_, settles_catalog steady gap values⟩
    | numeral isNumeral => exact ⟨none, refuses_catalog.settles isNumeral⟩

end Reader

/-- The draft with a field filled from a text, if the field is not filled already. -/
def Field.fillOnce? (field : Field σ) (draft : σ) (value : List Char) : Option σ :=
  if field.filled draft then none else (field.fill draft).whole? value

namespace Form

variable {form : Form σ α}

/-- A field is filled once, and a member without a field changes nothing. -/
def fill? (form : Form σ α) (draft : σ) (name : String) (value : List Char) : Option σ :=
  match form.fields.find? (·.name == name) with
  | none => some draft
  | some field => field.fillOnce? draft value

/-- What the members of an object fill. -/
def draft? (form : Form σ α) (members : List RawMember) : Option σ :=
  members.foldlM (RawMember.lead? form.fill?) form.blank

/-- The record that the members of an object make. -/
def record? (form : Form σ α) (members : List RawMember) : Option α :=
  (form.draft? members).bind fun draft => (form.finish draft).toOption

/-- All fields are filled from values that are read the same wherever they stand. -/
def Steady (form : Form σ α) : Prop := ∀ field ∈ form.fields, ∀ draft, (field.fill draft).Steady

theorem fill?_of_unknown {name : String} (unknown : form.fields.find? (·.name == name) = none)
    (draft : σ) (value : List Char) : form.fill? draft name value = some draft := by
  rw [fill?, unknown]

theorem fill?_of_field {field : Field σ} {name : String}
    (found : form.fields.find? (·.name == name) = some field) (draft : σ) (value : List Char) :
    form.fill? draft name value = field.fillOnce? draft value := by
  rw [fill?, found]

theorem follows_fill? (steady : form.Steady) : Follows form.member form.fill? := by
  intro draft name value isValue middle ahead rest stops
  cases found : form.fields.find? (·.name == name) with
  | none =>
    simp only [member, found, fill?_of_unknown found]
    refine Reader.toOption_andThen.trans ?_
    rw [Reader.run_member Reader.steady_ignore isValue middle ahead stops,
      (Reader.settles_ignore isValue).whole?]
    rfl
  | some field =>
    simp only [member, found, fill?_of_field found, Field.fillOnce?]
    split
    · rfl
    · exact Reader.run_member (steady field (List.mem_of_find?_eq_some found) draft) isValue middle
        ahead stops

theorem toOption_complete {missing : String → Cause} {read : Outcome σ} :
    (form.complete missing read).toOption = read.toOption.bind fun read =>
      (form.finish read.1).toOption.map fun record => (record, read.2) := by
  unfold complete
  cases read with
  | error fault => rfl
  | ok read =>
    change _ = (form.finish read.1).toOption.map fun record => (record, read.2)
    dsimp only
    cases form.finish read.1 <;> rfl

/-- A record is read from the members of its object. -/
theorem settles_object (steady : form.Steady) (gap : Gap) {members : List RawMember}
    (values : ∀ member ∈ members, IsValue member.value) :
    form.reader.Settles (objectText gap members) (form.record? members) := by
  intro rest _
  rw [objectText_append]
  refine Bracket.toOption_enclosed.trans ?_
  rw [takeObject, toOption_complete, toOption_takeMembers (follows_fill? steady) values, record?,
    draft?]
  cases members.foldlM (RawMember.lead? form.fill?) form.blank with
  | none => rfl
  | some draft =>
    simp only [Option.map_some, Option.bind_some]
    cases (form.finish draft).toOption <;> rfl

/-- Where another element stands, the array does not end. -/
theorem closeList_of_nextElement {text start : List Char} {first : Bool}
    (more : nextElement first text = .ok (true, start)) : (closeList text).toOption = none := by
  unfold closeList
  split
  · next spaced =>
    rw [nextElement, spaced] at more
    cases more
  · split <;> rfl
  · rfl
  · rfl

theorem toOption_takeFields_cons {field : Field σ} {fields : List (Field σ)} {first : Bool} {draft : σ}
    {text start : List Char} (more : nextElement first text = .ok (true, start)) :
    (takeFields (field :: fields) first draft text).toOption =
      ((field.fill draft).run start).toOption.bind fun read =>
        (takeFields fields false read.1 read.2).toOption := by
  rw [takeFields, more]
  dsimp only
  cases (field.fill draft).run start <;> rfl

/-- What the elements of an array fill does not depend on what stands around the array. -/
theorem exists_takeFields {fields : List (Field σ)}
    (steady : ∀ field ∈ fields, ∀ draft, (field.fill draft).Steady) {elements : List Element}
    (values : ∀ element ∈ elements, IsValue element.value) (first : Bool) (draft : σ) :
    ∃ draft? : Option σ, ∀ (gap : Gap) rest,
      ((takeFields fields first draft
        (gap.text ++ (separated first (elements.map Element.text) ++ ']' :: rest))).toOption.bind
          fun read => (closeList read.2).toOption.map fun close => (read.1, close.2)) =
        draft?.map fun result => (result, rest) := by
  induction fields generalizing elements first draft with
  | nil =>
    cases elements with
    | nil =>
      refine ⟨some draft, fun gap rest => ?_⟩
      have closed : closeList (gap.text ++ ']' :: rest) = .ok ((), rest) := by
        rw [closeList, gap.skipSpace_append]
        rfl
      change (closeList (gap.text ++ ']' :: rest)).toOption.map _ = _
      rw [closed]
      rfl
    | cons element elements =>
      -- There are more elements than fields.
      refine ⟨none, fun gap rest => ?_⟩
      have isValue := values element List.mem_cons_self
      change (closeList _).toOption.map _ = none
      rw [closeList_of_nextElement (nextElement_separated isValue first gap elements rest)]
      rfl
  | cons field fields ih =>
    obtain ⟨steady, others⟩ := List.forall_mem_cons.mp steady
    cases elements with
    | nil =>
      refine ⟨some draft, fun gap rest => ?_⟩
      rw [List.map_nil, separated, List.nil_append, takeFields, nextElement_closer]
      rfl
    | cons element elements =>
      obtain ⟨isValue, values⟩ := List.forall_mem_cons.mp values
      cases filled : (field.fill draft).whole? element.value with
      | none =>
        refine ⟨none, fun gap rest => ?_⟩
        have stops := element.back.stops_append
          (stops_separated .list (elements.map Element.text) rest)
        have read := (steady draft).run_append isValue stops
        simp only [Bracket.closer] at read
        rw [toOption_takeFields_cons (nextElement_separated isValue first gap elements rest), read,
          filled]
        rfl
      | some next =>
        obtain ⟨draft?, fills⟩ := ih others values false next
        refine ⟨draft?, fun gap rest => ?_⟩
        have stops := element.back.stops_append
          (stops_separated .list (elements.map Element.text) rest)
        have read := (steady draft).run_append isValue stops
        simp only [Bracket.closer] at read
        rw [toOption_takeFields_cons (nextElement_separated isValue first gap elements rest), read,
          filled]
        exact fills element.back rest

/-- Whether the record is finished in front of the end of the array or behind it does not matter. -/
theorem finish_bind_close (read? : Option (σ × List Char)) (finish : σ → Option α)
    (close : List Char → Option (Unit × List Char)) :
    ((read?.bind fun read => (finish read.1).map fun record => (record, read.2)).bind fun inside =>
      (close inside.2).map fun close => (inside.1, close.2)) =
      (read?.bind fun read => (close read.2).map fun close => (read.1, close.2)).bind fun result =>
        (finish result.1).map fun record => (record, result.2) := by
  cases read? with
  | none => rfl
  | some read =>
    cases finished : finish read.1 <;> cases closed : close read.2 <;> simp [finished, closed]

theorem exists_settles_array (steady : form.Steady) (gap : Gap) {elements : List Element}
    (values : ∀ element ∈ elements, IsValue element.value) :
    ∃ record?, form.reader.Settles (arrayText gap elements) record? := by
  obtain ⟨draft?, fills⟩ := exists_takeFields steady values true form.blank
  refine ⟨draft?.bind fun draft => (form.finish draft).toOption, fun rest _ => ?_⟩
  rw [arrayText_append]
  refine Bracket.toOption_enclosed.trans ?_
  rw [takeArray, toOption_complete]
  refine (finish_bind_close _ (fun draft => (form.finish draft).toOption)
    fun text => (closeList text).toOption).trans ?_
  rw [fills]
  cases draft? <;> rfl

theorem refuses_reader : form.reader.RefusesNumbers := by
  intro first rest number
  simp only [reader, skipSpace_of_not_isSpace (not_isSpace_of_number number)]
  split
  · next same =>
    obtain ⟨rfl, -⟩ := List.cons.inj same
    exact absurd number (by decide)
  · next same =>
    obtain ⟨rfl, -⟩ := List.cons.inj same
    exact absurd number (by decide)
  · rfl

theorem steady_reader (steady : form.Steady) : form.reader.Steady where
  skips gap text := by simp only [reader, gap.skipSpace_append]
  settles isValue := by
    cases isValue with
    | null | yes | no | string => exact ⟨none, fun rest _ => rfl⟩
    | object gap values => exact ⟨_, settles_object steady gap values⟩
    | array gap values => exact exists_settles_array steady gap values
    | numeral isNumeral => exact ⟨none, refuses_reader.settles isNumeral⟩

end Form

end ThemeCss.Json
