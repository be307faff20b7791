import ThemeCss.Proofs.Color.Parsed
import ThemeCss.Proofs.Theme.DarkPalette
import ThemeCss.Proofs.Theme.Rearranged

/-! # Themes with a text that is no colour

Where a reader finds nothing in one member or element, it finds nothing in the whole object or
array. So a theme is rejected as soon as one of its colours is given by a text that is no colour,
whatever else stands in it and whether it is written as an object or as an array.
-/

namespace ThemeCss

namespace Json

variable {α β σ τ : Type}

/-- A step that fails at one item from every state fails over the whole list. -/
theorem foldlM_eq_none {step : σ → τ → Option σ} {items : List τ} {item : τ} (member : item ∈ items)
    (fails : ∀ state, step state item = none) (state : σ) : items.foldlM step state = none := by
  obtain ⟨before, after, rfl⟩ := List.append_of_mem member
  rw [List.foldlM_append]
  cases before.foldlM step state with
  | none => rfl
  | some next =>
    rw [Option.bind_eq_bind, Option.bind_some, List.foldlM_cons, fails]
    rfl

namespace Reader

theorem whole?_interpret {reader : Reader α} (steady : reader.Steady)
    (f : α → Except ValueError β) {text : List Char} (isValue : IsValue text) :
    (reader.interpret f).whole? text =
      (reader.whole? text).bind fun value => (f value).toOption := by
  obtain ⟨value?, settles⟩ := steady.settles isValue
  rw [(settles.interpret f).whole?, settles.whole?]

/-- A catalog with one entry that is not read is not read. -/
theorem whole?_catalog_eq_none {reader : Reader α} (steady : reader.Steady) (gap : Gap)
    {entries : List Member} {entry : Member} (member : entry ∈ entries)
    (fails : reader.whole? entry.value = none) :
    (catalog reader).whole? (objectText gap (raw entries)) = none := by
  rw [(settles_catalog steady gap (isValue_of_mem_raw entries)).whole?]
  refine foldlM_eq_none (List.mem_map_of_mem member) (fun state => ?_) _
  rw [RawMember.lead?, Option.bind_eq_none_iff]
  intro name _
  rw [enter?, fails, Option.map_none]

end Reader

namespace Form

variable {form : Form σ α} {field : Field σ}

/-- A record with one member that is not read is not read. -/
theorem Lawful.whole?_object_eq_none (lawful : form.Lawful) (gap : Gap) {members : List Member}
    {member : Member} {name : String} (known : member ∈ members) (named : member.Named name)
    (found : form.fields.find? (·.name == name) = some field)
    (fails : ∀ draft, (field.fill draft).whole? member.value = none) :
    form.reader.whole? (objectText gap (raw members)) = none := by
  have never (draft : σ) : member.lead? form.fill? draft = none := by
    rw [lead?_of_field named.name? found, Field.fillOnce?, fails, ite_self]
  have inside : member.toRawMember ∈ raw members := List.mem_map_of_mem known
  rw [lawful.whole?_object, record?, draft?, foldlM_eq_none inside never]
  rfl

/-- A record whose first element is not read is not read. -/
theorem Lawful.whole?_array_eq_none (lawful : form.Lawful) (gap : Gap) {first : Element}
    {others : List Element} (isValue : IsValue first.value)
    (front : form.fields.head? = some field)
    (fails : ∀ draft, (field.fill draft).whole? first.value = none) :
    form.reader.whole? (arrayText gap (first :: others)) = none := by
  obtain ⟨fields, same⟩ := List.head?_eq_some_iff.mp front
  have steady := lawful.steady field (same ▸ List.mem_cons_self) form.blank
  have settles : form.reader.Settles (arrayText gap (first :: others)) none := by
    intro rest _
    have stops := first.back.stops_append (stops_separated .list (others.map Element.text) rest)
    have read := steady.run_append isValue stops
    simp only [Bracket.closer] at read
    rw [arrayText_append]
    refine Bracket.toOption_enclosed.trans ?_
    rw [takeArray, toOption_complete, same,
      toOption_takeFields_cons (nextElement_separated isValue true gap others rest), read, fails]
    rfl
  exact settles.whole?

end Form

/-- The text of an object in which a member has a string for its value that spells the text. -/
inductive Lists (text : String) : List Char → Prop where
  | mk (gap : Gap) {entries : List Member} {entry : Member} {body : List Char} :
    entry ∈ entries → entry.value = '"' :: (body ++ ['"']) → Spells body text.toList →
      Lists text (objectText gap (raw entries))

theorem Lists.isValue {text : String} {value : List Char} (lists : Lists text value) :
    IsValue value := by
  obtain ⟨gap, _, _, _⟩ := lists
  exact isValue_object gap _

end Json

open Json

theorem Color.whole?_catalog_eq_none {text : String} {error : ValueError} {value : List Char}
    (fails : Color.parse text = .error error) (lists : Lists text value) :
    (Reader.catalog Color.reader).whole? value = none := by
  obtain ⟨gap, member, quoted, spells⟩ := lists
  refine Reader.whole?_catalog_eq_none Color.steady_reader gap member ?_
  rw [quoted, Color.reader, Reader.whole?_interpret Reader.steady_string _ (.string spells.isBody),
    Reader.whole?_of_spells spells, String.ofList_toList, Option.bind_some, fails]
  rfl

namespace Theme

/-- The text of a theme in which a colour is given by the text: as the value of a member `colors` of
an object, or as the first element of an array. -/
inductive GivesColor (text : String) : List Char → Prop where
  | object (gap : Gap) {members : List Member} {member : Member} :
    member ∈ members → member.Named "colors" → Lists text member.value →
      GivesColor text (objectText gap (raw members))
  | array (gap : Gap) {first : Element} {others : List Element} :
    Lists text first.value → (∀ other ∈ others, IsValue other.value) →
      GivesColor text (arrayText gap (first :: others))

variable {text : String} {value : List Char}

theorem GivesColor.isValue (gives : GivesColor text value) : IsValue value := by
  cases gives with
  | object gap => exact isValue_object gap _
  | array gap lists values => exact .array gap (List.forall_mem_cons.mpr ⟨lists.isValue, values⟩)

theorem whole?_eq_none {error : ValueError} (fails : Color.parse text = .error error)
    (gives : GivesColor text value) : form.reader.whole? value = none := by
  have empty (given : List Char) (lists : Lists text given) (draft : Draft) :
      ((Field.slot "colors" (·.colors) (fun draft value => { draft with colors := some value })
        (.catalog Color.reader)).fill draft : Reader Draft).whole? given = none := by
    rw [Field.whole?_slot, Color.whole?_catalog_eq_none fails lists]
    rfl
  cases gives with
  | object gap known named lists =>
    exact lawful_form.whole?_object_eq_none gap known named rfl (empty _ lists)
  | array gap lists values =>
    exact lawful_form.whole?_array_eq_none gap lists.isValue rfl (empty _ lists)

/-- A theme with a colour that cannot be read is rejected. -/
theorem exists_ofJson_eq_error {error : ValueError} (fails : Color.parse text = .error error)
    (gives : GivesColor text value) (front back : Gap) :
    ∃ fault, ofJson (String.ofList (front.text ++ (value ++ back.text))) =
      .error (.malformed fault) := by
  have read := (Form.steady_reader lawful_form.steady).toOption_parse gives.isValue front back
  rw [whole?_eq_none fails gives] at read
  rw [ofJson]
  cases outcome : parse form.reader (String.ofList (front.text ++ (value ++ back.text))) with
  | ok theme =>
    rw [outcome] at read
    cases read
  | error fault => exact ⟨fault, rfl⟩

end Theme

/-- Exactly those texts are colours that leave six hexadecimal digits behind at most one hash,
without the blanks around. A colour is written with its digits in lower case, is read again from
what is written, and is written in this form also when it is moved. Another text is named in the
error as it was given, and with such a text for a colour no theme is read. -/
theorem Color.parse_spec (text : String) :
    ((∃ color, parse text = .ok color) ↔ IsSixDigits (digitsOf text)) ∧
    (∀ color, parse text = .ok color →
      color.hex.toList = '#' :: (digitsOf text).map Char.toLower ∧
      (∃ a b c d e f, (digitsOf text).mapM hexDigit? = some [a, b, c, d, e, f] ∧
        color.HasDigits a b c d e f) ∧
      parse color.hex = .ok color ∧
      ∀ amount, ∃ shown, shiftText text amount = .ok shown ∧ IsHexColor shown) ∧
    (∀ error, parse text = .error error → error = .color text ∧
      ∀ value, Theme.GivesColor text value → ∀ front back : Gap, ∃ fault,
        Theme.ofJson (String.ofList (front.text ++ (value ++ back.text))) =
          .error (.malformed fault)) := by
  refine ⟨⟨fun ⟨color, success⟩ => isSixDigits_of_parse success, fun six => ?_⟩,
    fun color success => ?_, fun error fails => ⟨?_, fun value gives =>
      Theme.exists_ofJson_eq_error fails gives⟩⟩
  · obtain ⟨color, success, -⟩ := exists_parse six
    exact ⟨color, success⟩
  · obtain ⟨same, read, written, digits⟩ := exists_parse (isSixDigits_of_parse success)
    obtain rfl := Except.ok.inj (success.symm.trans read)
    refine ⟨written, digits, parse_hex color, fun amount => ⟨(color.shift amount).hex, ?_, ?_⟩⟩
    · rw [shiftText, success]
      rfl
    · exact isHexColor_hex _
  · have other : ¬ IsSixDigits (digitsOf text) := by
      intro six
      obtain ⟨color, success, -⟩ := exists_parse six
      cases fails.symm.trans success
    exact Except.error.inj (fails.symm.trans (parse_eq_error other))

/-- A colour in upper case among blanks, and a theme with a colour of three digits. -/
theorem Color.parse_spec_sea :
    (parse " #0066CC\n" = .ok ⟨0, 0x66, 0xcc⟩ ∧
      (Color.hex ⟨0, 0x66, 0xcc⟩).toList = '#' :: (digitsOf " #0066CC\n").map Char.toLower) ∧
    (parse "#06c" = .error (.color "#06c") ∧
      Theme.GivesColor "#06c" (objectText .none (raw
        (Theme.seaside [.plain "sea" (isValue_quote "#06c")] [] [Theme.seasideUnit]))) ∧
      ∃ fault, Theme.ofJson (String.ofList (Gap.none.text ++ (objectText .none (raw
          (Theme.seaside [.plain "sea" (isValue_quote "#06c")] [] [Theme.seasideUnit])) ++
          Gap.none.text))) = .error (.malformed fault)) := by
  have success : parse " #0066CC\n" = .ok ⟨0, 0x66, 0xcc⟩ := by decide +kernel
  have fails : parse "#06c" = .error (.color "#06c") := by decide +kernel
  have lists : Lists "#06c" (objectText .none (raw [.plain "sea" (isValue_quote "#06c")])) :=
    .mk .none List.mem_cons_self (toList_quote "#06c") (spells_escaped _)
  have gives : Theme.GivesColor "#06c" (objectText .none (raw
      (Theme.seaside [.plain "sea" (isValue_quote "#06c")] [] [Theme.seasideUnit]))) :=
    .object .none List.mem_cons_self (Member.named_plain "colors" _) lists
  exact ⟨⟨success, ((parse_spec _).2.1 _ success).1⟩, fails, gives,
    ((parse_spec _).2.2 _ fails).2 _ gives .none .none⟩

end ThemeCss
