import ThemeCss.Proofs.Json.Written

/-! # The form of a JSON text

What a value is in JSON, without reference to a reader: words, strings, numerals, arrays and
objects, with spaces between their tokens. A string is decoded where it is kept, so it has to spell
characters there; a string that is passed only has to have the form of one.
-/

namespace ThemeCss.Json

/-- Spaces between two tokens. -/
structure Gap where
  text : List Char
  spaces : ∀ c ∈ text, isSpace c = true

namespace Gap

def none : Gap := ⟨[], List.forall_mem_nil _⟩

theorem skipSpace_append (gap : Gap) (text : List Char) :
    skipSpace (gap.text ++ text) = skipSpace text :=
  List.dropWhile_append_of_pos gap.spaces

theorem stops_append (gap : Gap) {rest : List Char} (stops : Stops rest) :
    Stops (gap.text ++ rest) := by
  obtain ⟨text, spaces⟩ := gap
  cases text with
  | nil => exact stops
  | cons space others =>
    intro c first
    obtain rfl := Option.some.inj first
    exact .inl (spaces _ List.mem_cons_self)

end Gap

/-- The text between the quotes of a string. -/
inductive IsBody : List Char → Prop where
  | nil : IsBody []
  | plain {c : Char} {rest : List Char} : c ≠ '"' → c ≠ '\\' → 0x20 ≤ c.toNat → IsBody rest →
    IsBody (c :: rest)
  | escape {letter meant : Char} {rest : List Char} : escaped? letter = some meant →
    IsBody rest → IsBody ('\\' :: letter :: rest)
  | unit {a b c d : Char} {unit : Nat} {rest : List Char} : hexUnit? a b c d = some unit →
    IsBody rest → IsBody ('\\' :: 'u' :: a :: b :: c :: d :: rest)

/-- The characters that the text between the quotes of a string stands for: surrogates come in
pairs. -/
inductive Spells : List Char → List Char → Prop where
  | nil : Spells [] []
  | plain {c : Char} {rest name : List Char} : c ≠ '"' → c ≠ '\\' → 0x20 ≤ c.toNat →
    Spells rest name → Spells (c :: rest) (c :: name)
  | escape {letter meant : Char} {rest name : List Char} : escaped? letter = some meant →
    Spells rest name → Spells ('\\' :: letter :: rest) (meant :: name)
  | unit {a b c d : Char} {unit : Nat} {rest name : List Char} : hexUnit? a b c d = some unit →
    isLeading unit = false → isTrailing unit = false → Spells rest name →
      Spells ('\\' :: 'u' :: a :: b :: c :: d :: rest) (Char.ofNat unit :: name)
  | pair {a b c d e f g h : Char} {high low : Nat} {rest name : List Char} :
    hexUnit? a b c d = some high → hexUnit? e f g h = some low → isLeading high = true →
      isTrailing low = true → Spells rest name →
        Spells ('\\' :: 'u' :: a :: b :: c :: d :: '\\' :: 'u' :: e :: f :: g :: h :: rest)
          (Char.ofNat (0x10000 + (high - 0xd800) * 0x400 + (low - 0xdc00)) :: name)

theorem Spells.isBody {body name : List Char} (spells : Spells body name) : IsBody body := by
  induction spells with
  | nil => exact .nil
  | plain quote backslash printable _ ih => exact .plain quote backslash printable ih
  | escape meant _ ih => exact .escape meant ih
  | unit unit _ _ _ ih => exact .unit unit ih
  | pair high low _ _ _ ih => exact .unit high (.unit low ih)

/-- A string is spelled by its escaped characters. -/
theorem spells_escaped (text : List Char) : Spells (text.flatMap escapeChar) text := by
  induction text with
  | nil => exact .nil
  | cons c text ih =>
    rw [List.flatMap_cons]
    unfold escapeChar
    split
    case h_8 quote backslash _ _ _ _ _ =>
      split
      · next control =>
        have surrogate := not_isSurrogate_of_control control
        have spells := Spells.unit (hexUnit?_control control) surrogate.1 surrogate.2 ih
        rwa [Char.ofNat_toNat] at spells
      · next printable => exact .plain quote backslash (Nat.not_lt.mp printable) ih
    all_goals exact .escape rfl ih

section Bodies

variable {done text behind body name rest : List Char} {a b c d e f g h letter meant : Char}
  {unit low : Nat}

theorem takeBody_plain (quote : c ≠ '"') (backslash : c ≠ '\\') (printable : 0x20 ≤ c.toNat) :
    takeBody done (c :: rest) = takeBody (c :: done) rest := by
  rw [takeBody, if_neg quote, if_neg backslash, if_neg (Nat.not_lt.mpr printable)]

theorem takeBody_of_takeEscape_error {fault : Fault} (escape : takeEscape text = .error fault) :
    takeBody done ('\\' :: text) = .error fault := by
  rw [takeBody]
  simp only [Char.reduceEq, ↓reduceIte]
  split
  · next same => cases escape.symm.trans same; rfl
  · next other => cases escape.symm.trans other

/-- No letter of a short escape begins a Unicode escape. -/
theorem ne_of_escaped? (escape : escaped? letter = some meant) : letter ≠ 'u' := by
  rintro rfl
  cases escape

theorem takeEscape_letter (escape : escaped? letter = some meant) :
    takeEscape (letter :: rest) = .ok (meant, rest) := by
  rw [takeEscape, if_neg (ne_of_escaped? escape), escape]

theorem takeUnit_append (digits : hexUnit? a b c d = some unit) :
    takeUnit (a :: b :: c :: d :: rest) = .ok (unit, rest) := by
  rw [takeUnit, digits]

theorem takeEscape_unit (digits : hexUnit? a b c d = some unit) (high : isLeading unit = false)
    (low : isTrailing unit = false) :
    takeEscape ('u' :: a :: b :: c :: d :: rest) = .ok (Char.ofNat unit, rest) := by
  simp [takeEscape, takeUnicode, takeUnit_append digits, high, low]

theorem not_isTrailing_of_isLeading (high : isLeading unit = true) : isTrailing unit = false := by
  simp only [isLeading, isTrailing, Bool.and_eq_true, decide_eq_true_eq, Bool.and_eq_false_iff,
    decide_eq_false_iff_not] at high ⊢
  omega

theorem takeEscape_pair (digits : hexUnit? a b c d = some unit)
    (others : hexUnit? e f g h = some low) (high : isLeading unit = true) :
    (takeEscape ('u' :: a :: b :: c :: d :: '\\' :: 'u' :: e :: f :: g :: h :: rest)).toOption =
      if isTrailing low then
        some (Char.ofNat (0x10000 + (unit - 0xd800) * 0x400 + (low - 0xdc00)), rest)
      else none := by
  cases trailing : isTrailing low <;>
    simp [takeEscape, takeUnicode, takeUnit_append digits, not_isTrailing_of_isLeading high, high,
      takePairMark, takeUnit_append others, trailing, Except.toOption]

theorem takeEscape_trailing (digits : hexUnit? a b c d = some unit)
    (low : isTrailing unit = true) :
    (takeEscape ('u' :: a :: b :: c :: d :: rest)).toOption = none := by
  simp [takeEscape, takeUnicode, takeUnit_append digits, low, Except.toOption]

/-- A leading surrogate in front of anything but another unit is not read. -/
theorem takeEscape_leading (digits : hexUnit? a b c d = some unit) (high : isLeading unit = true)
    (alone : ∀ more, rest ≠ '\\' :: 'u' :: more) :
    (takeEscape ('u' :: a :: b :: c :: d :: rest)).toOption = none := by
  have mark : ∃ fault, takePairMark rest = .error fault := by
    unfold takePairMark
    split
    · next more => exact absurd rfl (alone more)
    all_goals exact ⟨_, rfl⟩
  obtain ⟨fault, failed⟩ := mark
  simp [takeEscape, takeUnicode, takeUnit_append digits, not_isTrailing_of_isLeading high, high,
    failed, Except.toOption]

/-- A string is read as the characters that it spells. -/
theorem takeBody_of_spells (spells : Spells body name) (done rest : List Char) :
    takeBody done (body ++ '"' :: rest) = .ok (String.ofList (done.reverse ++ name), rest) := by
  induction spells generalizing done with
  | nil => simp [takeBody]
  | plain quote backslash printable _ ih =>
    rw [List.cons_append, takeBody_plain quote backslash printable, ih]
    simp
  | escape meant _ ih =>
    rw [List.cons_append, List.cons_append,
      takeBody_of_takeEscape done (takeEscape_letter meant), ih]
    simp
  | unit digits high low _ ih =>
    simp only [List.cons_append]
    rw [takeBody_of_takeEscape done (takeEscape_unit digits high low), ih]
    simp
  | @pair a b c d e f g h high low body name digits others leading trailing _ ih =>
    have escape : takeEscape ('u' :: a :: b :: c :: d :: '\\' :: 'u' :: e :: f :: g :: h ::
        (body ++ '"' :: rest)) = .ok (Char.ofNat (0x10000 + (high - 0xd800) * 0x400 +
          (low - 0xdc00)), body ++ '"' :: rest) := by
      simp [takeEscape, takeUnicode, takeUnit_append digits, leading,
        not_isTrailing_of_isLeading leading, takePairMark, takeUnit_append others, trailing]
    simp only [List.cons_append]
    rw [takeBody_of_takeEscape done escape, ih]
    simp

theorem toOption_takeBody_escape (done : List Char) :
    (takeBody done ('\\' :: text)).toOption = (takeEscape text).toOption.bind fun escape =>
      (takeBody (escape.1 :: done) escape.2).toOption := by
  cases escape : takeEscape text with
  | error fault => rw [takeBody_of_takeEscape_error escape]; rfl
  | ok result => rw [takeBody_of_takeEscape done escape]; rfl

/-- A string that spells nothing is not read, whatever stands around it. -/
theorem spells_or_fails (isBody : IsBody body) : (∃ name, Spells body name) ∨
    ∀ done rest, (takeBody done (body ++ '"' :: rest)).toOption = none := by
  -- A leading surrogate is read together with the unit behind it.
  induction size : body.length using Nat.strongRecOn generalizing body with
  | ind size ih =>
    subst size
    cases isBody with
    | nil => exact .inl ⟨[], .nil⟩
    | @plain c more quote backslash printable isBody =>
      obtain ⟨name, spells⟩ | fails := ih more.length (by simp) isBody rfl
      · exact .inl ⟨c :: name, .plain quote backslash printable spells⟩
      · refine .inr fun done rest => ?_
        rw [List.cons_append, takeBody_plain quote backslash printable, fails]
    | @escape letter meant more escape isBody =>
      obtain ⟨name, spells⟩ | fails := ih more.length (by simp) isBody rfl
      · exact .inl ⟨meant :: name, .escape escape spells⟩
      · refine .inr fun done rest => ?_
        rw [List.cons_append, List.cons_append,
          takeBody_of_takeEscape done (takeEscape_letter escape), fails]
    | @unit a b c d unit more digits isBody =>
      have fails_of (fails : ∀ rest,
          (takeEscape ('u' :: a :: b :: c :: d :: (more ++ '"' :: rest))).toOption = none)
          (done rest : List Char) :
          (takeBody done ('\\' :: 'u' :: a :: b :: c :: d :: more ++ '"' :: rest)).toOption =
            none := by
        simp only [List.cons_append]
        rw [toOption_takeBody_escape, fails, Option.bind_none]
      cases trailing : isTrailing unit with
      | true => exact .inr (fails_of fun rest => takeEscape_trailing digits trailing)
      | false =>
        cases leading : isLeading unit with
        | false =>
          obtain ⟨name, spells⟩ | fails := ih more.length (by simp; omega) isBody rfl
          · exact .inl ⟨Char.ofNat unit :: name, .unit digits leading trailing spells⟩
          · refine .inr fun done rest => ?_
            simp only [List.cons_append]
            rw [takeBody_of_takeEscape done (takeEscape_unit digits leading trailing), fails]
        | true =>
          cases isBody with
          | nil => exact .inr (fails_of fun rest => takeEscape_leading digits leading (by simp))
          | plain quote backslash =>
            refine .inr (fails_of fun rest => takeEscape_leading digits leading ?_)
            intro tail same
            exact backslash (List.cons.inj same).1
          | escape escape =>
            refine .inr (fails_of fun rest => takeEscape_leading digits leading ?_)
            intro tail same
            exact ne_of_escaped? escape (List.cons.inj (List.cons.inj same).2).1
          | @unit e f g h low more others isBody =>
            cases paired : isTrailing low with
            | false =>
              refine .inr (fails_of fun rest => ?_)
              simp only [List.cons_append]
              rw [takeEscape_pair digits others leading, paired]
              rfl
            | true =>
              obtain ⟨name, spells⟩ | fails := ih more.length (by simp; omega) isBody rfl
              · exact .inl ⟨_, .pair digits others leading paired spells⟩
              · refine .inr fun done rest => ?_
                simp only [List.cons_append]
                rw [toOption_takeBody_escape, takeEscape_pair digits others leading, paired,
                  if_pos rfl, Option.bind_some, fails]

theorem passBody_plain (quote : c ≠ '"') (backslash : c ≠ '\\') (printable : 0x20 ≤ c.toNat) :
    passBody (c :: rest) = passBody rest := by
  rw [passBody, if_neg quote, if_neg backslash, if_neg (Nat.not_lt.mpr printable)]

theorem passBody_of_passEscape (escape : passEscape text = .ok ((), behind)) :
    passBody ('\\' :: text) = passBody behind := by
  rw [passBody]
  simp only [Char.reduceEq, ↓reduceIte]
  split
  · next fault => cases escape.symm.trans fault
  · next same => cases escape.symm.trans same; rfl

theorem passBody_append (isBody : IsBody body) (rest : List Char) :
    passBody (body ++ '"' :: rest) = .ok ((), rest) := by
  induction isBody with
  | nil => simp [passBody]
  | plain quote backslash printable _ ih =>
    rw [List.cons_append, passBody_plain quote backslash printable, ih]
  | @escape letter meant more escape _ ih =>
    have passed : passEscape (letter :: (more ++ '"' :: rest)) = .ok ((), more ++ '"' :: rest) := by
      rw [passEscape, if_neg (ne_of_escaped? escape), escape]
    rw [List.cons_append, List.cons_append, passBody_of_passEscape passed, ih]
  | @unit a b c d unit more digits _ ih =>
    have passed : passEscape ('u' :: a :: b :: c :: d :: (more ++ '"' :: rest)) =
        .ok ((), more ++ '"' :: rest) := by
      simp [passEscape, takeUnit_append digits]
    simp only [List.cons_append]
    rw [passBody_of_passEscape passed, ih]

end Bodies

/-- The text of a number. -/
def IsNumeral (text : List Char) : Prop :=
  ∃ numeral : Numeral, numeral.WellFormed ∧ numeral.Spelled text

/-- An element of an array, with any text in the place of its value. -/
structure Element where
  front : Gap
  value : List Char
  back : Gap

def Element.text (element : Element) : List Char :=
  element.front.text ++ (element.value ++ element.back.text)

def arrayText (gap : Gap) (elements : List Element) : List Char :=
  '[' :: (gap.text ++ (separated true (elements.map Element.text) ++ [']']))

/-- A member of an object, with any text in the place of its value; its key is what stands between
the quotes. -/
structure RawMember where
  front : Gap
  key : List Char
  middle : Gap
  ahead : Gap
  value : List Char
  back : Gap
  isBody : IsBody key

def RawMember.text (member : RawMember) : List Char :=
  member.front.text ++ '"' :: (member.key ++ '"' :: (member.middle.text ++
    ':' :: (member.ahead.text ++ (member.value ++ member.back.text))))

def objectText (gap : Gap) (members : List RawMember) : List Char :=
  '{' :: (gap.text ++ (separated true (members.map RawMember.text) ++ ['}']))

/-- A value in JSON. -/
inductive IsValue : List Char → Prop where
  | null : IsValue ['n', 'u', 'l', 'l']
  | yes : IsValue ['t', 'r', 'u', 'e']
  | no : IsValue ['f', 'a', 'l', 's', 'e']
  | string {body : List Char} : IsBody body → IsValue ('"' :: (body ++ ['"']))
  | numeral {text : List Char} : IsNumeral text → IsValue text
  | array (gap : Gap) {elements : List Element} : (∀ element ∈ elements, IsValue element.value) →
    IsValue (arrayText gap elements)
  | object (gap : Gap) {members : List RawMember} : (∀ member ∈ members, IsValue member.value) →
    IsValue (objectText gap members)

/-- A number begins with a sign or with a digit. -/
theorem IsNumeral.exists_cons {text : List Char} (isNumeral : IsNumeral text) :
    ∃ first others, text = first :: others ∧ (first = '-' ∨ first.isDigit = true) := by
  obtain ⟨⟨negative, whole, places, power⟩, wellFormed, spelling, -, rfl⟩ := isNumeral
  obtain ⟨first, others, rfl⟩ := List.exists_cons_of_ne_nil wellFormed.whole.1
  cases negative with
  | true => exact ⟨'-', _, rfl, .inl rfl⟩
  | false => exact ⟨first, _, rfl, .inr (wellFormed.whole.2 first List.mem_cons_self)⟩

/-- A value begins with neither a space nor the end of an array. -/
theorem IsValue.exists_cons {text : List Char} (isValue : IsValue text) :
    ∃ first others, text = first :: others ∧ isSpace first = false ∧ first ≠ ']' := by
  cases isValue with
  | null => exact ⟨_, _, rfl, rfl, by decide⟩
  | yes => exact ⟨_, _, rfl, rfl, by decide⟩
  | no => exact ⟨_, _, rfl, rfl, by decide⟩
  | string => exact ⟨_, _, rfl, rfl, by decide⟩
  | numeral isNumeral =>
    obtain ⟨first, others, rfl, number⟩ := isNumeral.exists_cons
    refine ⟨first, others, rfl, not_isSpace_of_number number, ?_⟩
    rintro rfl
    revert number
    decide
  | array => exact ⟨_, _, rfl, rfl, by decide⟩
  | object => exact ⟨_, _, rfl, rfl, by decide⟩

theorem IsValue.skipSpace_append {text : List Char} (isValue : IsValue text) (rest : List Char) :
    skipSpace (text ++ rest) = text ++ rest := by
  obtain ⟨first, others, rfl, solid, -⟩ := isValue.exists_cons
  exact skipSpace_of_not_isSpace solid _

end ThemeCss.Json
