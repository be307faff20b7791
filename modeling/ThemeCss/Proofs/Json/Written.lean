import ThemeCss.Json.Record
import ThemeCss.Proofs.Json.Double
import ThemeCss.Proofs.Text.Characters

/-! # Written values are read

A reader *takes* a text as a value if it reads the text as that value wherever a value may end. The
texts of strings, of truth values and of numbers are taken, and so are arrays and objects of texts
that are taken.
-/

namespace ThemeCss.Json

variable {α β σ : Type}

namespace Reader

/-- The reader reads the text as the value, whatever stands behind it. -/
def Takes (reader : Reader α) (text : List Char) (value : α) : Prop :=
  ∀ rest, Ends rest → reader.run (text ++ rest) = .ok (value, rest)

variable {reader : Reader α} {text : List Char} {value : α}

theorem Takes.map (taken : reader.Takes text value) (f : α → β) :
    (reader.map f).Takes text (f value) := by
  intro rest ends
  simp [Reader.map, andThen, taken rest ends]

theorem Takes.interpret {f : α → Except ValueError β} {meaning : β}
    (taken : reader.Takes text value) (meant : f value = .ok meaning) :
    (reader.interpret f).Takes text meaning := by
  intro rest ends
  simp [Reader.interpret, andThen, taken rest ends, meant]

/-- A text that is taken is the text of the whole value. -/
theorem Takes.parse {text : String} (taken : reader.Takes text.toList value) :
    Json.parse reader text = .ok value := by
  have whole := taken [] (by simp [Ends])
  rw [List.append_nil] at whole
  rw [Json.parse, whole]
  rfl

end Reader

theorem skipSpace_of_not_isSpace {c : Char} (solid : isSpace c = false) (rest : List Char) :
    skipSpace (c :: rest) = c :: rest := by
  rw [skipSpace, List.dropWhile_cons_of_neg (by simp [solid])]

theorem takeBody_of_takeEscape {rest behind : List Char} {meant : Char} (done : List Char)
    (escape : takeEscape rest = .ok (meant, behind)) :
    takeBody done ('\\' :: rest) = takeBody (meant :: done) behind := by
  rw [takeBody]
  simp only [Char.reduceEq, ↓reduceIte]
  split
  · next fault => rw [escape] at fault; cases fault
  · next same =>
    obtain ⟨rfl, rfl⟩ := Prod.mk.inj (Except.ok.inj (escape.symm.trans same))
    rfl

theorem hexUnit?_control {c : Char} (control : c.toNat < 0x20) :
    hexUnit? '0' '0' (Nat.digitChar (c.toNat / 16)) (Nat.digitChar (c.toNat % 16)) =
      some c.toNat := by
  have zero : hexDigit? '0' = some 0 := rfl
  rw [hexUnit?, zero, hexDigit?_digitChar (by omega), hexDigit?_digitChar (by omega)]
  simp
  omega

theorem not_isSurrogate_of_control {c : Char} (control : c.toNat < 0x20) :
    isLeading c.toNat = false ∧ isTrailing c.toNat = false := by
  simp [isTrailing, isLeading]
  omega

/-- A control character is read from the four digits of its code. -/
theorem takeEscape_unicode {c : Char} (control : c.toNat < 0x20) (rest : List Char) :
    takeEscape ('u' :: '0' :: '0' :: Nat.digitChar (c.toNat / 16) ::
      Nat.digitChar (c.toNat % 16) :: rest) = .ok (c, rest) := by
  simp [takeEscape, takeUnicode, takeUnit, hexUnit?_control control,
    not_isSurrogate_of_control control]

/-- An escaped character is read as itself. -/
theorem takeBody_escapeChar (done : List Char) (c : Char) (rest : List Char) :
    takeBody done (escapeChar c ++ rest) = takeBody (c :: done) rest := by
  unfold escapeChar
  split
  case h_8 quote backslash _ _ _ _ _ =>
    split
    · next control => exact takeBody_of_takeEscape done (takeEscape_unicode control rest)
    · next plain =>
      rw [List.singleton_append, takeBody, if_neg quote, if_neg backslash, if_neg plain]
  all_goals exact takeBody_of_takeEscape done rfl

theorem takeBody_escaped (done text rest : List Char) :
    takeBody done (text.flatMap escapeChar ++ '"' :: rest) =
      .ok (String.ofList (done.reverse ++ text), rest) := by
  induction text generalizing done with
  | nil => simp [takeBody]
  | cons c text ih =>
    rw [List.flatMap_cons, List.append_assoc, takeBody_escapeChar, ih]
    simp

theorem toList_quote (text : String) :
    (quote text).toList = '"' :: (text.toList.flatMap escapeChar ++ ['"']) := by
  rw [quote, String.toList_ofList]

theorem takeBody_quote (text : String) (rest : List Char) :
    takeBody [] (text.toList.flatMap escapeChar ++ '"' :: rest) = .ok (text, rest) := by
  rw [takeBody_escaped, List.reverse_nil, List.nil_append, String.ofList_toList]

theorem takes_string (text : String) : Reader.string.Takes (quote text).toList text := by
  intro rest _
  rw [toList_quote, List.cons_append, List.append_assoc, List.singleton_append]
  simp only [Reader.string, skipSpace_of_not_isSpace (c := '"') rfl, takeBody_quote]

theorem takes_boolean (value : Bool) : Reader.boolean.Takes (writeBool value).toList value := by
  intro rest _
  cases value <;>
    simp [writeBool, Reader.boolean, skipSpace, isSpace, takeWord]

/-- A numeral begins with a sign or with a digit. -/
theorem Numeral.WellFormed.exists_text {numeral : Numeral} (wellFormed : numeral.WellFormed) :
    ∃ first others, numeral.text = first :: others ∧ (first = '-' ∨ first.isDigit = true) := by
  obtain ⟨first, others, whole⟩ := List.exists_cons_of_ne_nil wellFormed.whole.1
  cases sign : numeral.negative with
  | true => exact ⟨'-', _, by rw [Numeral.text, sign]; rfl, .inl rfl⟩
  | false =>
    refine ⟨first, _, by rw [Numeral.text, sign, whole]; rfl, .inr ?_⟩
    exact wellFormed.whole.2 first (whole ▸ List.mem_cons_self)

theorem not_isSpace_of_number {c : Char} (number : c = '-' ∨ c.isDigit = true) :
    isSpace c = false := by
  rcases number with rfl | digit
  · rfl
  · rw [Char.isDigit_iff_toNat] at digit
    have ne (space : Char) (low : space.toNat < '0'.toNat) : c ≠ space := by
      rintro rfl
      omega
    simp [isSpace, ne ' ' (by decide), ne '\n' (by decide), ne '\t' (by decide),
      ne '\r' (by decide)]

theorem takes_number {expected : String} {meaning : Number → Except Cause α} {numeral : Numeral}
    {number : Number} {value : α} (wellFormed : numeral.WellFormed)
    (valued : ∀ rest, numeral.value rest = .ok number) (meant : meaning number = .ok value) :
    (Reader.number expected meaning).Takes numeral.text value := by
  intro rest ends
  have taken : takeNumber (numeral.text ++ rest) = .ok (number, rest) := by
    rw [takeNumber, takeNumeral_text _ wellFormed ends]
    simp only [valued rest]
  obtain ⟨first, others, text, opening⟩ := wellFormed.exists_text
  rw [text, List.cons_append] at taken ⊢
  simp only [Reader.number, skipSpace_of_not_isSpace (not_isSpace_of_number opening), opening,
    ↓reduceIte, taken, meant]

theorem takes_count {n : Nat} (small : n < 0x100000000) :
    Reader.count.Takes (toString n).toList n := by
  have text : (toString n).toList = (Numeral.ofNat n).text := by
    rw [Numeral.text_ofNat, Nat.toString_eq_repr, Nat.toList_repr]
  have fits : n ≤ greatestSignificand := small.le.trans (by decide)
  rw [text]
  apply takes_number (Numeral.wellFormed_ofNat n) (Numeral.value_ofNat fits)
  simp [small]

/-- The text of a double is read as some double. -/
theorem exists_takes_double {value : Binary64}
    (small : value.abs.le (.ofDecimal false 1 300) = true) :
    ∃ again, Reader.double.Takes (writeDouble value).toList again := by
  obtain ⟨numeral, text, wellFormed, near⟩ := exists_writeDouble small
  obtain ⟨number, valued⟩ := Numeral.exists_value wellFormed near
  rw [← text]
  cases number with
  | whole count => exact ⟨_, takes_number wellFormed valued rfl⟩
  | floating again => exact ⟨_, takes_number wellFormed valued rfl⟩

/-- Items with commas between them, and one in front unless they are the first ones. -/
def separated (first : Bool) : List (List Char) → List Char
  | [] => []
  | item :: others => (if first then [] else [',']) ++ (item ++ separated false others)

theorem toList_intercalate (items : List String) :
    (String.intercalate "," items).toList = separated true (items.map String.toList) := by
  have behind (front : String) (others : List String) :
      (String.intercalate "," (front :: others)).toList =
        front.toList ++ separated false (others.map String.toList) := by
    induction others generalizing front with
    | nil => simp [separated]
    | cons second others ih =>
      rw [String.intercalate_cons_cons, String.toList_append, String.toList_append, ih second]
      simp [separated]
  cases items with
  | nil => rfl
  | cons front others => exact behind front others

/-- Behind an item comes a comma or the end. -/
theorem ends_separated {close : Char} (items : List (List Char)) (rest : List Char)
    (closing : close = ']' ∨ close = '}') : Ends (separated false items ++ close :: rest) := by
  cases items with
  | nil =>
    intro c first
    obtain rfl := Option.some.inj first
    exact .inr closing
  | cons item others =>
    intro c first
    obtain rfl := Option.some.inj first
    exact .inl rfl

section Elements

variable {element : Reader α} {first : Bool} {done : List α} {text start rest : List Char}
  {value : α}

theorem takeElements_of_end (closed : nextElement first text = .ok (false, rest)) :
    takeElements element first done text = .ok (done.reverse, rest) := by
  rw [takeElements]
  split
  · next fault => rw [closed] at fault; cases fault
  · next same => cases closed.symm.trans same; rfl
  · next other => cases closed.symm.trans other

theorem takeElements_of_element (more : nextElement first text = .ok (true, start))
    (read : element.run start = .ok (value, rest)) :
    takeElements element first done text = takeElements element false (value :: done) rest := by
  rw [takeElements]
  split
  · next fault => cases more.symm.trans fault
  · next other => cases more.symm.trans other
  · next same =>
    cases more.symm.trans same
    split
    · next fault => cases read.symm.trans fault
    · next result => cases read.symm.trans result; rfl

end Elements

theorem nextElement_quote (first : Bool) (rest : List Char) :
    nextElement first ((if first then [] else [',']) ++ '"' :: rest) = .ok (true, '"' :: rest) := by
  cases first <;> simp [nextElement, skipSpace, isSpace]

theorem takeElements_strings (first : Bool) (done items : List String) (rest : List Char) :
    takeElements Reader.string first done
      (separated first (items.map fun item => (quote item).toList) ++ ']' :: rest) =
        .ok (done.reverse ++ items, ']' :: rest) := by
  induction items generalizing first done with
  | nil =>
    have closed :
        nextElement first (separated first [] ++ ']' :: rest) = .ok (false, ']' :: rest) := by
      simp [separated, nextElement, skipSpace, isSpace]
    rw [List.map_nil, takeElements_of_end closed, List.append_nil]
  | cons item items ih =>
    have ends := ends_separated (items.map fun item => (quote item).toList) rest (.inl rfl)
    have behind := takes_string item _ ends
    have more := nextElement_quote first (item.toList.flatMap escapeChar ++ ['"'] ++
      (separated false (items.map fun item => (quote item).toList) ++ ']' :: rest))
    rw [← List.cons_append, ← toList_quote] at more
    rw [List.map_cons, separated, List.append_assoc, List.append_assoc,
      takeElements_of_element more behind, ih]
    simp

theorem takes_strings (items : List String) :
    (Reader.list .string).Takes (writeList (items.map quote)).toList items := by
  intro rest _
  have text : (writeList (items.map quote)).toList =
      '[' :: (separated true (items.map fun item => (quote item).toList) ++ [']']) := by
    rw [writeList, String.toList_append, String.toList_append, toList_intercalate, List.map_map]
    rfl
  have elements := takeElements_strings true [] items rest
  rw [List.reverse_nil, List.nil_append] at elements
  have closed : closeList (']' :: rest) = .ok ((), rest) := by
    simp [closeList, skipSpace, isSpace]
  rw [text, List.cons_append, List.append_assoc, List.singleton_append]
  simp only [Reader.list, skipSpace_of_not_isSpace (c := '[') rfl, Bracket.enclosed, Bracket.close,
    elements, closed]

section Members

variable {member : σ → String → Reader σ} {first : Bool} {state next result : σ} {key : String}
  {text start behind rest : List Char}

theorem takeMembers_of_end (closed : nextKey first text = .ok (false, rest)) :
    takeMembers member first state text = .ok (state, rest) := by
  rw [takeMembers]
  split
  · next fault => cases closed.symm.trans fault
  · next same => cases closed.symm.trans same; rfl
  · next other => cases closed.symm.trans other

theorem takeMembers_of_member (more : nextKey first text = .ok (true, start))
    (named : takeBody [] start = .ok (key, behind))
    (read : (member state key).run behind = .ok (next, rest)) :
    takeMembers member first state text = takeMembers member false next rest := by
  rw [takeMembers]
  split
  · next fault => cases more.symm.trans fault
  · next other => cases more.symm.trans other
  · next same =>
    cases more.symm.trans same
    split
    · next fault => cases named.symm.trans fault
    · next same =>
      cases named.symm.trans same
      split
      · next fault => cases read.symm.trans fault
      · next result => cases read.symm.trans result; rfl

end Members

/-- A member of an object: its key, a colon and its value. -/
def memberText (member : String × String) : List Char :=
  (quote member.1).toList ++ ':' :: member.2.toList

theorem toList_writeObject (members : List (String × String)) : (writeObject members).toList =
    '{' :: (separated true (members.map memberText) ++ ['}']) := by
  rw [writeObject, String.toList_append, String.toList_append, toList_intercalate, List.map_map]
  have each : String.toList ∘ (fun member : String × String => quote member.1 ++ ":" ++ member.2) =
      memberText := by
    funext member
    simp [memberText]
  rw [each]
  rfl

/-- Members lead from one state to another, each of them taken by the reader for its key. -/
inductive Fills (member : σ → String → Reader σ) : σ → List (String × String) → σ → Prop where
  | nil (state : σ) : Fills member state [] state
  | cons {state next result : σ} {key value : String} {members : List (String × String)} :
    (member state key).Takes (':' :: value.toList) next → Fills member next members result →
      Fills member state ((key, value) :: members) result

theorem nextKey_quote (first : Bool) (rest : List Char) :
    nextKey first ((if first then [] else [',']) ++ '"' :: rest) = .ok (true, rest) := by
  cases first <;> simp [nextKey, skipSpace, isSpace]

theorem takeMembers_of_fills {member : σ → String → Reader σ} {state result : σ}
    {members : List (String × String)} (fills : Fills member state members result) (first : Bool)
    (rest : List Char) :
    takeMembers member first state (separated first (members.map memberText) ++ '}' :: rest) =
      .ok (result, '}' :: rest) := by
  induction fills generalizing first with
  | nil state =>
    have closed : nextKey first (separated first [] ++ '}' :: rest) = .ok (false, '}' :: rest) := by
      simp [separated, nextKey, skipSpace, isSpace]
    rw [List.map_nil, takeMembers_of_end closed]
  | @cons state next result key value members taken fills ih =>
    have ends := ends_separated (members.map memberText) rest (.inr rfl)
    have read := taken _ ends
    have more := nextKey_quote first (key.toList.flatMap escapeChar ++ '"' ::
      (':' :: value.toList ++ (separated false (members.map memberText) ++ '}' :: rest)))
    have text : separated first (((key, value) :: members).map memberText) ++ '}' :: rest =
        (if first then [] else [',']) ++ '"' :: (key.toList.flatMap escapeChar ++ '"' ::
          (':' :: value.toList ++ (separated false (members.map memberText) ++ '}' :: rest))) := by
      simp [separated, memberText, toList_quote]
    rw [text, takeMembers_of_member more (takeBody_quote key _) read, ih]

theorem Reader.Takes.member {reader : Reader α} {text : List Char} {value : α}
    (taken : reader.Takes text value) : (Reader.member reader).Takes (':' :: text) value := by
  intro rest ends
  have colon : takeColon (':' :: (text ++ rest)) = .ok ((), text ++ rest) := by
    simp [takeColon, skipSpace, isSpace]
  simp only [Reader.member, behindKey, List.cons_append, colon, taken rest ends]

theorem enclosedObject_of_body {body : List Char → Outcome α} {members : List (String × String)}
    {value : α} (rest : List Char)
    (inside : body (separated true (members.map memberText) ++ '}' :: rest) =
      .ok (value, '}' :: rest)) :
    Bracket.object.enclosed body (separated true (members.map memberText) ++ '}' :: rest) =
      .ok (value, rest) := by
  have closed : closeObject ('}' :: rest) = .ok ((), rest) := by
    simp [closeObject, skipSpace, isSpace]
  simp only [Bracket.enclosed, Bracket.close, inside, closed]

theorem entries_insert_of_not_mem {catalog : Catalog α} {name : String} (value : α)
    (unknown : name ∉ catalog.names) :
    (catalog.insert name value).entries = catalog.entries ++ [(name, value)] := by
  rw [Catalog.insert, dif_neg unknown]

/-- What a member of an object is taken as in a catalog. -/
def Reader.TakesEntry (reader : Reader α) (member : String × String) (entry : String × α) : Prop :=
  member.1 = entry.1 ∧ reader.Takes member.2.toList entry.2

/-- Entries with new names are put behind those that are there. -/
theorem fills_catalog {reader : Reader α} {members : List (String × String)}
    {entries : List (String × α)} (taken : List.Forall₂ reader.TakesEntry members entries)
    {done result : Catalog α} (whole : result.entries = done.entries ++ entries) :
    Fills (fun entries name => (Reader.member reader).map (entries.insert name)) done members
      result := by
  induction taken generalizing done with
  | nil =>
    rw [List.append_nil] at whole
    obtain ⟨entries, distinct⟩ := result
    obtain rfl : entries = done.entries := whole
    exact .nil done
  | @cons member entry members entries takes others ih =>
    obtain ⟨key, text⟩ := member
    obtain ⟨name, value⟩ := entry
    obtain ⟨rfl, taken⟩ := takes
    have unknown : key ∉ done.names := by
      have distinct := result.distinct
      rw [whole, List.map_append, List.nodup_append] at distinct
      exact fun known => distinct.2.2 key known key (by simp) rfl
    refine .cons (taken.member.map _) (ih ?_)
    rw [entries_insert_of_not_mem value unknown, whole, List.append_assoc, List.singleton_append]

theorem takes_catalog {reader : Reader α} {members : List (String × String)} {catalog : Catalog α}
    (taken : List.Forall₂ reader.TakesEntry members catalog.entries) :
    (Reader.catalog reader).Takes (writeObject members).toList catalog := by
  intro rest _
  have whole : catalog.entries = (Catalog.empty : Catalog α).entries ++ catalog.entries := rfl
  have filled := fills_catalog taken whole
  have inside := enclosedObject_of_body rest (takeMembers_of_fills filled true rest)
  rw [toList_writeObject, List.cons_append, List.append_assoc, List.singleton_append]
  simp only [Reader.catalog, skipSpace_of_not_isSpace (c := '{') rfl, inside]

section Records

variable {form : Form σ α} {draft : σ}

/-- A field that is not filled is taken from its value. -/
theorem takes_slot {name : String} {get : σ → Option β} {set : σ → β → σ} {reader : Reader β}
    {text : List Char} {value : β}
    (known : form.fields.find? (·.name == name) = some (Field.slot name get set reader))
    (free : get draft = none) (taken : reader.Takes text value) :
    (form.member draft name).Takes (':' :: text) (set draft value) := by
  intro rest ends
  have filled : (Field.slot name get set reader).filled draft = false := by
    simp [Field.slot, free]
  have read := (taken.map (set draft)).member rest ends
  simp only [Form.member, known, filled, Bool.false_eq_true, ↓reduceIte]
  exact read

/-- A record is taken from its members. -/
theorem takes_form {members : List (String × String)} {record : α}
    (fills : Fills form.member form.blank members draft)
    (finished : form.finish draft = .ok record) :
    form.reader.Takes (writeObject members).toList record := by
  intro rest _
  have object : form.takeObject (separated true (members.map memberText) ++ '}' :: rest) =
      .ok (record, '}' :: rest) := by
    simp only [Form.takeObject, Form.complete, takeMembers_of_fills fills true rest, finished]
  rw [toList_writeObject, List.cons_append, List.append_assoc, List.singleton_append]
  simp only [Form.reader, skipSpace_of_not_isSpace (c := '{') rfl,
    enclosedObject_of_body rest object]

end Records

end ThemeCss.Json
