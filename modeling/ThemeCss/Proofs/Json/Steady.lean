import ThemeCss.Proofs.Json.Passed

/-! # Values that are read the same wherever they stand

A reader *settles* a text if what it reads there does not depend on what stands behind: always the
same value, which takes the whole text, or none. A reader is *steady* if it settles all values and
skips the spaces in front of them.
-/

namespace ThemeCss.Json

variable {α β σ : Type}

namespace Reader

/-- The value of a text that holds nothing else. -/
def whole? (reader : Reader α) (text : List Char) : Option α :=
  match reader.run text with
  | .ok (value, []) => some value
  | _ => none

/-- Whatever stands behind the text, this is read there, if anything is. -/
def Settles (reader : Reader α) (text : List Char) (value? : Option α) : Prop :=
  ∀ rest, Stops rest → (reader.run (text ++ rest)).toOption = value?.map fun value => (value, rest)

/-- Every value is read the same wherever it stands. -/
structure Steady (reader : Reader α) : Prop where
  skips : ∀ (gap : Gap) text, reader.run (gap.text ++ text) = reader.run text
  settles : ∀ {text}, IsValue text → ∃ value?, reader.Settles text value?

variable {reader : Reader α} {text : List Char} {value? : Option α}

theorem Settles.whole? (settles : reader.Settles text value?) : reader.whole? text = value? := by
  have alone := settles [] (by simp [Stops])
  rw [List.append_nil] at alone
  rw [Reader.whole?]
  cases run : reader.run text with
  | error fault =>
    rw [run] at alone
    cases value? with
    | none => rfl
    | some value => cases alone
  | ok result =>
    rw [run] at alone
    cases value? with
    | none => cases alone
    | some value =>
      obtain rfl : result = (value, []) := Option.some.inj alone
      rfl

theorem Takes.whole? {value : α} (taken : reader.Takes text value) :
    reader.whole? text = some value := by
  have alone := taken [] (by simp [Ends])
  rw [List.append_nil] at alone
  rw [Reader.whole?, alone]

theorem Steady.run_append (steady : reader.Steady) (isValue : IsValue text) {rest : List Char}
    (stops : Stops rest) :
    (reader.run (text ++ rest)).toOption =
      (reader.whole? text).map fun value => (value, rest) := by
  obtain ⟨value?, settles⟩ := steady.settles isValue
  rw [settles.whole?, settles rest stops]

theorem toOption_andThen {next : α → List Char → Outcome β} {keeps} :
    ((reader.andThen next keeps).run text).toOption =
      (reader.run text).toOption.bind fun read => (next read.1 read.2).toOption := by
  simp only [Reader.andThen]
  cases reader.run text <;> rfl

theorem Settles.andThen {next : α → List Char → Outcome β} {keeps} {f : α → Option β}
    (settles : reader.Settles text value?)
    (goes : ∀ value rest, (next value rest).toOption = (f value).map fun result => (result, rest)) :
    (reader.andThen next keeps).Settles text (value?.bind f) := by
  intro rest stops
  rw [toOption_andThen, settles rest stops]
  cases value? with
  | none => rfl
  | some value => exact goes value rest

theorem Settles.map (settles : reader.Settles text value?) (f : α → β) :
    (reader.map f).Settles text (value?.map f) := by
  rw [Option.map_eq_bind]
  exact settles.andThen fun value rest => rfl

theorem Settles.interpret (settles : reader.Settles text value?)
    (f : α → Except ValueError β) :
    (reader.interpret f).Settles text (value?.bind fun value => (f value).toOption) := by
  refine settles.andThen fun value rest => ?_
  cases f value <;> rfl

theorem Steady.map (steady : reader.Steady) (f : α → β) : (reader.map f).Steady where
  skips gap text := by simp only [Reader.map, Reader.andThen, steady.skips]
  settles isValue := by
    obtain ⟨value?, settles⟩ := steady.settles isValue
    exact ⟨_, settles.map f⟩

theorem whole?_map (f : α → β) : (reader.map f).whole? text = (reader.whole? text).map f := by
  simp only [Reader.whole?, Reader.map, Reader.andThen]
  cases reader.run text with
  | error fault => rfl
  | ok read =>
    obtain ⟨value, rest⟩ := read
    cases rest <;> rfl

theorem Steady.interpret (steady : reader.Steady) (f : α → Except ValueError β) :
    (reader.interpret f).Steady where
  skips gap text := by simp only [Reader.interpret, Reader.andThen, steady.skips]
  settles isValue := by
    obtain ⟨value?, settles⟩ := steady.settles isValue
    exact ⟨_, settles.interpret f⟩

theorem settles_ignore (isValue : IsValue text) : ignore.Settles text (some ()) := by
  intro rest stops
  have passed : ignore.run (text ++ rest) = passBehind [] rest := isValue.passable [] rest stops
  rw [passed, passBehind_nil]
  rfl

theorem steady_ignore : ignore.Steady where
  skips gap text := passValue_congr (gap.skipSpace_append text)
  settles isValue := ⟨some (), settles_ignore isValue⟩

/-- What begins like a number is not read. -/
def RefusesNumbers (reader : Reader α) : Prop :=
  ∀ {first : Char} (rest : List Char), first = '-' ∨ first.isDigit = true →
    (reader.run (first :: rest)).toOption = none

theorem RefusesNumbers.settles (refuses : reader.RefusesNumbers) (isNumeral : IsNumeral text) :
    reader.Settles text none := by
  obtain ⟨first, others, rfl, number⟩ := isNumeral.exists_cons
  exact fun rest _ => refuses (others ++ rest) number

theorem refuses_string : string.RefusesNumbers := by
  intro first rest number
  simp only [string, skipSpace_of_not_isSpace (not_isSpace_of_number number)]
  split
  · next same =>
    obtain ⟨rfl, -⟩ := List.cons.inj same
    exact absurd number (by decide)
  · rfl

theorem whole?_string (body : List Char) :
    string.whole? ('"' :: (body ++ ['"'])) =
      (takeBody [] (body ++ ['"'])).toOption.bind fun read =>
        if read.2 = [] then some read.1 else none := by
  have run : string.run ('"' :: (body ++ ['"'])) = takeBody [] (body ++ ['"']) := rfl
  rw [whole?, run]
  cases takeBody [] (body ++ ['"']) with
  | error fault => rfl
  | ok read =>
    obtain ⟨value, rest⟩ := read
    cases rest <;> rfl

theorem whole?_of_spells {body name : List Char} (spells : Spells body name) :
    string.whole? ('"' :: (body ++ ['"'])) = some (String.ofList name) := by
  rw [whole?_string, takeBody_of_spells spells]
  rfl

theorem spells_of_whole? {body : List Char} {name : String} (isBody : IsBody body)
    (read : string.whole? ('"' :: (body ++ ['"'])) = some name) : Spells body name.toList := by
  obtain ⟨other, spells⟩ | fails := spells_or_fails isBody
  · rw [whole?_of_spells spells] at read
    obtain rfl := Option.some.inj read
    rwa [String.toList_ofList]
  · rw [whole?_string, fails] at read
    cases read

/-- What is read of a string in quotes. -/
theorem toOption_takeBody {body : List Char} (isBody : IsBody body) (rest : List Char) :
    (takeBody [] (body ++ '"' :: rest)).toOption =
      (string.whole? ('"' :: (body ++ ['"']))).map fun value => (value, rest) := by
  obtain ⟨name, spells⟩ | fails := spells_or_fails isBody
  · rw [takeBody_of_spells spells, whole?_of_spells spells]
    rfl
  · rw [whole?_string, fails, fails]
    rfl

theorem steady_string : string.Steady where
  skips gap text := by simp only [string, gap.skipSpace_append]
  settles isValue := by
    cases isValue with
    | null | yes | no | array | object => exact ⟨none, fun rest _ => rfl⟩
    | @string body isBody =>
      refine ⟨string.whole? ('"' :: (body ++ ['"'])), fun rest _ => ?_⟩
      rw [List.cons_append, List.append_assoc]
      exact toOption_takeBody isBody rest
    | numeral isNumeral => exact ⟨none, refuses_string.settles isNumeral⟩

theorem refuses_boolean : boolean.RefusesNumbers := by
  intro first rest number
  simp only [boolean, skipSpace_of_not_isSpace (not_isSpace_of_number number)]
  split
  · next same =>
    obtain ⟨rfl, -⟩ := List.cons.inj same
    exact absurd number (by decide)
  · next same =>
    obtain ⟨rfl, -⟩ := List.cons.inj same
    exact absurd number (by decide)
  · rfl

theorem steady_boolean : boolean.Steady where
  skips gap text := by simp only [boolean, gap.skipSpace_append]
  settles isValue := by
    cases isValue with
    | null | array | object | string => exact ⟨none, fun rest _ => rfl⟩
    | yes => exact ⟨some true, fun rest _ => rfl⟩
    | no => exact ⟨some false, fun rest _ => rfl⟩
    | numeral isNumeral => exact ⟨none, refuses_boolean.settles isNumeral⟩

end Reader

/-- Whether a numeral has a value, and which, does not depend on what stands behind it. -/
theorem Numeral.toOption_value (numeral : Numeral) (rest : List Char) :
    (numeral.value rest).toOption = (numeral.value []).toOption := by
  unfold value
  dsimp only
  split
  · split
    · split <;> rfl
    · rfl
  · split <;> rfl
  · split
    · split <;> rfl
    · split <;> rfl

theorem toOption_takeNumber {numeral : Numeral} {text rest : List Char}
    (wellFormed : numeral.WellFormed) (spelled : numeral.Spelled text) (stops : Stops rest) :
    (takeNumber (text ++ rest)).toOption =
      (numeral.value []).toOption.map fun number => (number, rest) := by
  rw [takeNumber, takeNumeral_of_spelled _ wellFormed spelled stops, ← numeral.toOption_value rest]
  dsimp only
  cases numeral.value rest <;> rfl

namespace Reader

section Numbers

variable {expected : String} {meaning : Number → Except Cause α} {first : Char}

theorem run_number (solid : isSpace first = false) (other : ¬ (first = '-' ∨ first.isDigit = true))
    (rest : List Char) : ((number expected meaning).run (first :: rest)).toOption = none := by
  simp only [number, skipSpace_of_not_isSpace solid, if_neg other]
  rfl

theorem toOption_number (opening : first = '-' ∨ first.isDigit = true) (rest : List Char) :
    ((number expected meaning).run (first :: rest)).toOption =
      (takeNumber (first :: rest)).toOption.bind fun taken =>
        (meaning taken.1).toOption.map fun value => (value, taken.2) := by
  simp only [number, skipSpace_of_not_isSpace (not_isSpace_of_number opening), if_pos opening]
  cases takeNumber (first :: rest) with
  | error fault => rfl
  | ok taken =>
    change _ = (meaning taken.1).toOption.map fun value => (value, taken.2)
    dsimp only
    cases meaning taken.1 <;> rfl

theorem steady_number : (number expected meaning).Steady where
  skips gap text := by simp only [number, gap.skipSpace_append]
  settles isValue := by
    cases isValue with
    | null | yes | no | array | object | string =>
      exact ⟨none, fun rest _ => run_number rfl (by decide) _⟩
    | numeral isNumeral =>
      obtain ⟨first, others, rfl, opening⟩ := isNumeral.exists_cons
      obtain ⟨numeral, wellFormed, spelled⟩ := isNumeral
      refine ⟨(numeral.value []).toOption.bind fun number => (meaning number).toOption,
        fun rest stops => ?_⟩
      have taken := toOption_takeNumber wellFormed spelled stops
      rw [List.cons_append] at taken ⊢
      rw [toOption_number opening, taken]
      cases (numeral.value []).toOption <;> rfl

end Numbers

end Reader

section Elements

variable {body : List Char → Outcome α} {text rest : List Char}

theorem Bracket.toOption_enclosed {bracket : Bracket} : (bracket.enclosed body text).toOption =
    (body text).toOption.bind fun inside =>
      (bracket.close inside.2).toOption.map fun close => (inside.1, close.2) := by
  unfold enclosed
  cases body text with
  | error fault => rfl
  | ok inside =>
    change _ = (bracket.close inside.2).toOption.map fun close => (inside.1, close.2)
    dsimp only
    cases bracket.close inside.2 <;> rfl

/-- The next element begins with its value. -/
theorem nextElement_separated {element : Element} (isValue : IsValue element.value)
    (first : Bool) (gap : Gap) (elements : List Element) (rest : List Char) :
    nextElement first (gap.text ++
      (separated first ((element :: elements).map Element.text) ++ ']' :: rest)) =
        .ok (true, element.value ++ (element.back.text ++
          (separated false (elements.map Element.text) ++ ']' :: rest))) := by
  obtain ⟨c, others, text, solid, apart⟩ := isValue.exists_cons
  have spaced (more : List Char) :
      skipSpace (element.front.text ++ (c :: (others ++ more))) = c :: (others ++ more) := by
    rw [element.front.skipSpace_append, skipSpace_of_not_isSpace solid]
  rw [nextElement, gap.skipSpace_append]
  cases first with
  | true => simp [separated, Element.text, text, spaced, apart]
  | false =>
    simp [separated, Element.text, text, spaced, apart, skipSpace_of_not_isSpace (c := ',') rfl]

theorem nextElement_closer (first : Bool) (gap : Gap) (rest : List Char) :
    nextElement first (gap.text ++ ']' :: rest) = .ok (false, ']' :: rest) := by
  rw [nextElement, gap.skipSpace_append, skipSpace_of_not_isSpace rfl]
  rfl

theorem toOption_takeElements_of_element {element : Reader α} {first : Bool} {done : List α}
    {start : List Char} (more : nextElement first text = .ok (true, start)) :
    (takeElements element first done text).toOption = (element.run start).toOption.bind fun read =>
      (takeElements element false (read.1 :: done) read.2).toOption := by
  cases run : element.run start with
  | ok read => rw [takeElements_of_element more run]; rfl
  | error fault =>
    rw [takeElements]
    split
    · next other => cases more.symm.trans other
    · next other => cases more.symm.trans other
    · next same =>
      cases more.symm.trans same
      split
      · rfl
      · next other => cases run.symm.trans other

/-- The elements of an array are read one by one, each from its own text. -/
theorem toOption_takeElements {element : Reader α} (steady : element.Steady)
    {elements : List Element} (values : ∀ element ∈ elements, IsValue element.value) (first : Bool)
    (done : List α) (gap : Gap) (rest : List Char) :
    (takeElements element first done
      (gap.text ++ (separated first (elements.map Element.text) ++ ']' :: rest))).toOption =
      (elements.mapM fun item => element.whole? item.value).map fun values =>
        (done.reverse ++ values, ']' :: rest) := by
  induction elements generalizing first done gap with
  | nil =>
    have closed : nextElement first (gap.text ++ ']' :: rest) = .ok (false, ']' :: rest) :=
      nextElement_closer first gap rest
    rw [List.map_nil, separated, List.nil_append, takeElements_of_end closed]
    simp [Except.toOption]
  | cons item elements ih =>
    obtain ⟨isValue, values⟩ := List.forall_mem_cons.mp values
    have stops := item.back.stops_append (stops_separated .list (elements.map Element.text) rest)
    have behind (done : List α) := ih values false done item.back
    rw [toOption_takeElements_of_element (nextElement_separated isValue first gap elements rest)]
    have read := steady.run_append isValue stops
    simp only [Bracket.closer] at read
    rw [read, List.mapM_cons]
    cases element.whole? item.value with
    | none => simp
    | some value => simp [behind, Option.map_eq_bind, Option.bind_assoc]

end Elements

theorem arrayText_append (gap : Gap) (elements : List Element) (rest : List Char) :
    arrayText gap elements ++ rest =
      '[' :: (gap.text ++ (separated true (elements.map Element.text) ++ ']' :: rest)) := by
  simp [arrayText]

namespace Reader

theorem refuses_list {element : Reader α} : (list element).RefusesNumbers := by
  intro first rest number
  simp only [list, skipSpace_of_not_isSpace (not_isSpace_of_number number)]
  split
  · next same =>
    obtain ⟨rfl, -⟩ := List.cons.inj same
    exact absurd number (by decide)
  · rfl

/-- An array is read if all its elements are. -/
theorem settles_list {element : Reader α} (steady : element.Steady) (gap : Gap)
    {elements : List Element} (values : ∀ element ∈ elements, IsValue element.value) :
    (list element).Settles (arrayText gap elements)
      (elements.mapM fun item => element.whole? item.value) := by
  intro rest _
  rw [arrayText_append]
  refine Bracket.toOption_enclosed.trans ?_
  rw [toOption_takeElements steady values]
  cases elements.mapM fun item => element.whole? item.value <;> rfl

theorem steady_list {element : Reader α} (steady : element.Steady) : (list element).Steady where
  skips gap text := by simp only [list, gap.skipSpace_append]
  settles isValue := by
    cases isValue with
    | null | yes | no | string | object => exact ⟨none, fun rest _ => rfl⟩
    | array gap values => exact ⟨_, settles_list steady gap values⟩
    | numeral isNumeral => exact ⟨none, refuses_list.settles isNumeral⟩

end Reader

end ThemeCss.Json
