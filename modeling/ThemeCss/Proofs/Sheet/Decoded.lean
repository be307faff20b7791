import ThemeCss.Proofs.Sheet.Identifier

/-! # Escaped names that are read as identifiers

A reader of style sheets makes ends of lines alike before it does anything else. An identifier
begins with a letter, an underscore, a character that is not ASCII or an escape, or with a hyphen and
one of these or another hyphen. In its name every escape stands for one character, and a blank behind
hexadecimal digits belongs to them. Escaped names are read back in this way, but for those with an
end of a line or the character 0 in them, and for a hyphen alone or in front of a digit.
-/

namespace ThemeCss

namespace Identifier

/-- Ends of lines are all alike, and the character 0 is replaced. -/
def preparedChar (c : Char) : Char :=
  if isLineEnd c then '\n' else if c = '\x00' then '\ufffd' else c

/-- A text as it is read: two characters that end one line are one. -/
def prepared : List Char → List Char
  | [] => []
  | '\r' :: '\n' :: rest => '\n' :: prepared rest
  | c :: rest => preparedChar c :: prepared rest

def isStart (c : Char) : Bool := c.isAlpha || c == '_' || 0x80 ≤ c.toNat

/-- A backslash in front of anything but the end of a line. -/
def beginsEscape : List Char → Bool
  | '\\' :: rest => rest.head? != some '\n'
  | _ => false

/-- Whether an identifier begins here. -/
def begins : List Char → Bool
  | '-' :: rest => rest.head?.any (fun c => c == '-' || isStart c) || beginsEscape rest
  | c :: rest => isStart c || beginsEscape (c :: rest)
  | [] => false

/-- The character with a code; codes without a character are replaced. -/
def ofCode (code : Nat) : Char :=
  if code = 0 ∨ ¬ code.isValidChar then '\ufffd' else Char.ofNat code

/-- The character of up to six hexadecimal digits, which may be ended by one blank. -/
def takeCode (text : List Char) : Char × List Char :=
  let digits := (text.take 6).takeWhile fun c => (hexDigit? c).isSome
  let behind := text.drop digits.length
  (ofCode (digits.foldl (fun code c => 16 * code + (hexDigit? c).getD 0) 0),
    if behind.head?.any fun c => c == ' ' || c == '\t' || c == '\n' then behind.tail else behind)

/-- The character that an escape stands for, behind the backslash. -/
def takeEscaped : List Char → Char × List Char
  | [] => ('\ufffd', [])
  | c :: rest => if (hexDigit? c).isSome then takeCode (c :: rest) else (c, rest)

theorem length_takeEscaped_le (text : List Char) : (takeEscaped text).2.length ≤ text.length := by
  cases text with
  | nil => rfl
  | cons c rest =>
    rw [takeEscaped]
    split
    · rw [takeCode]
      dsimp only
      split <;> simp only [List.length_tail, List.length_drop] <;> omega
    · exact Nat.le_succ _

/-- The name at the front of a text, decoded, and what is behind it. -/
def takeName (text : List Char) : List Char × List Char :=
  match text with
  | [] => ([], [])
  | c :: rest =>
    if isIdentifierChar c then
      let further := takeName rest
      (c :: further.1, further.2)
    else if beginsEscape (c :: rest) then
      let escaped := takeEscaped rest
      let further := takeName escaped.2
      (escaped.1 :: further.1, further.2)
    else ([], c :: rest)
termination_by text.length
decreasing_by
  · simp
  · exact Nat.lt_succ_of_le (length_takeEscaped_le rest)

/-- The name that the whole text is read as. -/
def name? (text : List Char) : Option (List Char) :=
  match takeName text with
  | (name, []) => some name
  | _ => none

/-- The name of the identifier that the whole text is. -/
def read? (text : List Char) : Option (List Char) :=
  if begins text then name? text else none

/-- The name of the class that the whole text selects. -/
def readClass? : List Char → Option (List Char)
  | '.' :: rest => read? rest
  | _ => none

/-- Without two characters that end one line every character is prepared on its own. -/
theorem prepared_eq_map {text : List Char} (unpaired : ¬ ['\r', '\n'] <:+: text) :
    prepared text = text.map preparedChar := by
  induction text with
  | nil => rfl
  | cons c rest ih =>
    rw [List.infix_cons_iff, not_or] at unpaired
    rw [prepared.eq_3 _ _ fun more carriage behind => unpaired.1 ⟨more, by simp [carriage, behind]⟩,
      ih unpaired.2, List.map_cons]

/-- An escaped character does not begin with the end of a line. -/
theorem head?_flatMap_escapeNameChar (name : List Char) :
    (name.flatMap escapeNameChar).head? ≠ some '\n' := by
  cases name with
  | nil => simp
  | cons c rest =>
    rw [List.flatMap_cons, escapeNameChar]
    split
    · next plain =>
      rintro same
      obtain rfl := Option.some.inj same
      exact absurd plain (by decide)
    · simp

theorem unpaired_flatMap_escapeNameChar (name : List Char) :
    ¬ ['\r', '\n'] <:+: name.flatMap escapeNameChar := by
  induction name with
  | nil => simp
  | cons c rest ih =>
    have apart : ¬ ['\r', '\n'] <:+: c :: rest.flatMap escapeNameChar := by
      rw [List.infix_cons_iff, not_or, List.cons_prefix_cons]
      refine ⟨fun ⟨_, behind⟩ => head?_flatMap_escapeNameChar rest ?_, ih⟩
      exact List.head?_eq_some_iff.mpr (by obtain ⟨more, same⟩ := behind; exact ⟨more, same.symm⟩)
    rw [List.flatMap_cons, escapeNameChar]
    split
    · exact apart
    · rw [List.cons_append, List.cons_append, List.nil_append, List.infix_cons_iff, not_or]
      exact ⟨by simp [List.cons_prefix_cons], apart⟩

theorem unpaired_escapeName (name : List Char) : ¬ ['\r', '\n'] <:+: escapeName name := by
  cases name with
  | nil => simp [escapeName]
  | cons c rest =>
    have others := unpaired_flatMap_escapeNameChar rest
    rw [escapeName_cons, escapeFirstChar]
    split
    · simp only [List.cons_append, List.nil_append, List.infix_cons_iff, List.cons_prefix_cons]
      simp [others]
    · exact unpaired_flatMap_escapeNameChar (c :: rest)

theorem prepared_escapeName (name : List Char) :
    prepared (escapeName name) = (escapeName name).map preparedChar :=
  prepared_eq_map (unpaired_escapeName name)

theorem preparedChar_of_isNameChar {c : Char} (named : isNameChar c = true) :
    preparedChar c = c := by
  have line : isLineEnd c = false := by
    rw [isLineEnd, Bool.or_eq_false_iff, Bool.or_eq_false_iff]
    refine ⟨⟨?_, ?_⟩, ?_⟩ <;>
    · rw [beq_eq_false_iff_ne]
      rintro rfl
      exact absurd named (by decide)
  have null : c ≠ '\x00' := by
    rintro rfl
    exact absurd named (by decide)
  rw [preparedChar, line, if_neg Bool.false_ne_true, if_neg null]

theorem hexDigit?_preparedChar {c : Char} (other : isNameChar c = false) :
    hexDigit? (preparedChar c) = none := by
  rw [preparedChar]
  split
  · rfl
  · split
    · rfl
    · refine Option.not_isSome_iff_eq_none.mp fun digit => ?_
      rw [isNameChar_of_hexDigit? digit] at other
      contradiction

theorem preparedChar_eq_newline_iff {c : Char} : preparedChar c = '\n' ↔ isLineEnd c = true := by
  rw [preparedChar]
  split
  · next line => simp [line]
  · next line =>
    split
    · simp [line]
    · simp only [line, iff_false, Bool.false_eq_true]
      rintro rfl
      exact line rfl

variable {c : Char} {rest : List Char}

theorem name?_nil : name? [] = some [] := by
  rw [name?, takeName]

theorem name?_cons (plain : isIdentifierChar c = true) :
    name? (c :: rest) = (name? rest).map (c :: ·) := by
  rw [name?, takeName, if_pos plain, name?]
  obtain ⟨name, behind⟩ := takeName rest
  cases behind <;> rfl

theorem name?_escape {text : List Char} (begins : beginsEscape ('\\' :: text) = true) :
    name? ('\\' :: text) = (name? (takeEscaped text).2).map ((takeEscaped text).1 :: ·) := by
  rw [name?, takeName, if_neg (by decide), if_pos begins, name?]
  dsimp only
  obtain ⟨name, behind⟩ := takeName (takeEscaped text).2
  cases behind <;> rfl

theorem name?_line : name? ('\\' :: '\n' :: rest) = none := by
  rw [name?, takeName]
  rfl

/-- What is read of a character that was escaped. -/
def decoded? (c : Char) : Option Char :=
  if isLineEnd c then none else some (preparedChar c)

theorem decoded?_of_isNameChar (named : isNameChar c = true) : decoded? c = some c := by
  have line : ¬ isLineEnd c = true := by
    rw [← preparedChar_eq_newline_iff, preparedChar_of_isNameChar named]
    rintro rfl
    exact absurd named (by decide)
  rw [decoded?, if_neg line, preparedChar_of_isNameChar named]

theorem name?_escapeNameChar (c : Char) (rest : List Char) :
    name? ((escapeNameChar c).map preparedChar ++ rest) =
      (decoded? c).bind fun d => (name? rest).map (d :: ·) := by
  rw [escapeNameChar]
  split
  · next named =>
    rw [decoded?_of_isNameChar named, Option.bind_some, List.map_singleton,
      preparedChar_of_isNameChar named]
    exact name?_cons (isIdentifierChar_of_isNameChar named)
  · next other =>
    have letter := hexDigit?_preparedChar (Bool.eq_false_iff.mpr other)
    change name? ('\\' :: preparedChar c :: rest) = _
    rw [decoded?]
    split
    · next line =>
      rw [preparedChar_eq_newline_iff.mpr line, name?_line]
      rfl
    · next line =>
      have begins : beginsEscape ('\\' :: preparedChar c :: rest) = true := by
        simp [beginsEscape, preparedChar_eq_newline_iff, line]
      rw [name?_escape begins]
      simp [takeEscaped, letter]

theorem name?_flatMap_escapeNameChar (name : List Char) :
    name? ((name.flatMap escapeNameChar).map preparedChar) = name.mapM decoded? := by
  induction name with
  | nil => exact name?_nil
  | cons c rest ih =>
    rw [List.flatMap_cons, List.map_append, name?_escapeNameChar, ih, List.mapM_cons]
    cases decoded? c <;> cases rest.mapM decoded? <;> rfl

/-- A digit is read from its code. -/
theorem takeEscaped_digit (digit : c.isDigit = true) :
    takeEscaped ('3' :: c :: ' ' :: rest) = (c, rest) := by
  obtain ⟨low, high⟩ := Char.isDigit_iff_toNat.mp digit
  have value : hexDigit? c = some (c.toNat - 48) := if_pos ⟨low, high⟩
  have least : 48 ≤ c.toNat := low
  have three : hexDigit? '3' = some 3 := rfl
  have digits : (('3' :: c :: ' ' :: rest).take 6).takeWhile (fun c => (hexDigit? c).isSome) =
      ['3', c] := by
    have space : (hexDigit? ' ').isSome = false := rfl
    simp [three, space, value]
  have code : 16 * 3 + (c.toNat - 48) = c.toNat := by omega
  have character : ofCode c.toNat = c := by
    rw [ofCode, if_neg, Char.ofNat_toNat]
    rintro (zero | invalid)
    · omega
    · exact invalid c.valid
  rw [takeEscaped, if_pos (Option.isSome_of_eq_some three), takeCode, digits]
  simpa [three, value, code] using character

/-- An escaped name is read character by character. -/
theorem name?_escapeName (name : List Char) :
    name? ((escapeName name).map preparedChar) = name.mapM decoded? := by
  cases name with
  | nil => exact name?_nil
  | cons c rest =>
    rw [escapeName_cons, escapeFirstChar]
    split
    · next digit =>
      have named : isNameChar c = true := by simp [isNameChar, Char.isAlphanum, digit]
      have letters : (['\\', '3', c, ' '] ++ rest.flatMap escapeNameChar).map preparedChar =
          '\\' :: '3' :: c :: ' ' :: (rest.flatMap escapeNameChar).map preparedChar := by
        rw [List.map_append, List.map_cons, List.map_cons, List.map_cons,
          preparedChar_of_isNameChar named]
        rfl
      rw [letters, name?_escape rfl, takeEscaped_digit digit, name?_flatMap_escapeNameChar,
        List.mapM_cons, decoded?_of_isNameChar named]
      cases rest.mapM decoded? <;> rfl
    · exact name?_flatMap_escapeNameChar (c :: rest)

theorem mapM_eq_some_self_iff {α : Type} {f : α → Option α} {items : List α} :
    items.mapM f = some items ↔ ∀ a ∈ items, f a = some a := by
  induction items with
  | nil => simp
  | cons a rest ih =>
    rw [List.mapM_cons, List.forall_mem_cons, ← ih]
    cases first : f a <;> cases others : rest.mapM f <;> simp

theorem decoded?_eq_some_self_iff : decoded? c = some c ↔ isLineEnd c = false ∧ c ≠ '\x00' := by
  rw [decoded?, preparedChar]
  cases line : isLineEnd c with
  | true => simp
  | false =>
    by_cases null : c = '\x00'
    · subst null
      decide
    · simp [null]

/-- Of the characters that need no escape, only the hyphen and digits do not begin an identifier. -/
theorem isStart_of_isNameChar (named : isNameChar c = true) :
    (c == '-' || isStart c) = !c.isDigit := by
  cases digit : c.isDigit with
  | true =>
    obtain ⟨low, high⟩ := Char.isDigit_iff_toNat.mp digit
    have least : 48 ≤ c.toNat := low
    have most : c.toNat ≤ 57 := high
    rw [← Char.ofNat_toNat c]
    generalize c.toNat = code at least most
    interval_cases code <;> rfl
  | false =>
    simp only [isNameChar, Char.isAlphanum, digit, Bool.or_false, Bool.or_eq_true] at named
    simp only [isStart, Bool.not_false, Bool.or_eq_true]
    tauto

theorem not_beginsEscape {c : Char} (named : isNameChar c = true) (rest : List Char) :
    beginsEscape (c :: rest) = false := by
  unfold beginsEscape
  split
  · next same =>
    obtain ⟨rfl, -⟩ := List.cons.inj same
    exact absurd named (by decide)
  · rfl

theorem begins_cons {c : Char} (other : c ≠ '-') (rest : List Char) :
    begins (c :: rest) = (isStart c || beginsEscape (c :: rest)) := by
  rw [begins]
  rintro rfl
  exact other rfl

theorem beginsEscape_preparedChar {c : Char} (line : isLineEnd c = false) (rest : List Char) :
    beginsEscape ('\\' :: preparedChar c :: rest) = true := by
  simp [beginsEscape, preparedChar_eq_newline_iff, line]

/-- Behind a hyphen, any character but a digit goes on with an identifier. -/
theorem begins_hyphen {c : Char} (line : isLineEnd c = false) (rest : List Char) :
    begins ('-' :: ((escapeNameChar c).map preparedChar ++ rest)) = !c.isDigit := by
  rw [begins, escapeNameChar]
  split
  · next named =>
    rw [List.map_singleton, List.singleton_append, preparedChar_of_isNameChar named,
      not_beginsEscape named, Bool.or_false, ← isStart_of_isNameChar named]
    rfl
  · next other =>
    have digit : c.isDigit = false := Bool.eq_false_iff.mpr fun digit =>
      other (by simp [isNameChar, Char.isAlphanum, digit])
    change (_ || beginsEscape ('\\' :: preparedChar c :: rest)) = _
    rw [beginsEscape_preparedChar line, Bool.or_true, digit]
    rfl

/-- Whether an escaped name begins like an identifier. -/
theorem begins_escapeName_iff {name : List Char} (lines : ∀ c ∈ name, isLineEnd c = false) :
    begins ((escapeName name).map preparedChar) = true ↔
      name ≠ [] ∧ name ≠ ['-'] ∧ ∀ c, ['-', c] <+: name → c.isDigit = false := by
  have apart {c : Char} (other : c ≠ '-') (rest : List Char) :
      c :: rest ≠ [] ∧ c :: rest ≠ ['-'] ∧ ∀ d, ['-', d] <+: c :: rest → d.isDigit = false :=
    ⟨List.cons_ne_nil _ _, fun same => other (List.cons.inj same).1,
      fun d starts => absurd (List.cons_prefix_cons.mp starts).1.symm other⟩
  cases name with
  | nil => simp [escapeName, begins]
  | cons c rest =>
    obtain ⟨line, others⟩ := List.forall_mem_cons.mp lines
    rw [escapeName_cons, escapeFirstChar, escapeNameChar]
    split
    · next digit =>
      have other : c ≠ '-' := by
        rintro rfl
        exact absurd digit (by decide)
      exact iff_of_true rfl (apart other rest)
    · next digit =>
      split
      · next named =>
        by_cases hyphen : c = '-'
        · -- What follows the hyphen decides.
          subst hyphen
          cases rest with
          | nil => simp [begins, preparedChar_of_isNameChar named, beginsEscape]
          | cons d more =>
            obtain ⟨next, -⟩ := List.forall_mem_cons.mp others
            have begun := begins_hyphen next ((more.flatMap escapeNameChar).map preparedChar)
            rw [List.flatMap_cons, List.map_append, List.map_append, List.map_singleton,
              List.singleton_append, preparedChar_of_isNameChar named, begun]
            simp [List.cons_prefix_cons]
        · refine iff_of_true ?_ (apart hyphen rest)
          rw [List.map_append, List.map_singleton, List.singleton_append,
            preparedChar_of_isNameChar named, begins_cons hyphen]
          have start := isStart_of_isNameChar named
          simp only [beq_eq_false_iff_ne.mpr hyphen, Bool.false_or] at start
          simp [start, digit]
      · next other =>
        have hyphen : c ≠ '-' := by
          rintro rfl
          exact other rfl
        refine iff_of_true ?_ (apart hyphen rest)
        change begins ('\\' :: preparedChar c :: _) = true
        rw [begins_cons (by decide), beginsEscape_preparedChar line, Bool.or_true]

/-- An escaped class name is one identifier, and the name is read back from it, exactly if the name
is not empty, has no end of a line and no character 0 in it, and is neither a hyphen alone nor begins
with a hyphen and a digit. What is read behind the dot of the selector is this identifier. -/
theorem read?_escapeClass (name : String) :
    (read? (prepared (escapeClass name).toList) = some name.toList ↔
      name ≠ "" ∧ (∀ c ∈ name.toList, isLineEnd c = false ∧ c ≠ '\x00') ∧ name ≠ "-" ∧
        ∀ c, ['-', c] <+: name.toList → c.isDigit = false) ∧
    readClass? (prepared (classSelector name).toList) =
      read? (prepared (escapeClass name).toList) := by
  have hyphen : name ≠ "-" ↔ name.toList ≠ ['-'] := by
    rw [ne_eq, ← String.toList_inj]
    rfl
  have empty : name ≠ "" ↔ name.toList ≠ [] := not_congr String.toList_eq_nil_iff.symm
  constructor
  · rw [escapeClass, String.toList_ofList, prepared_escapeName, read?, name?_escapeName, empty,
      hyphen]
    constructor
    · intro read
      split at read
      · next begun =>
        have plain := fun c member =>
          decoded?_eq_some_self_iff.mp (mapM_eq_some_self_iff.mp read c member)
        obtain ⟨nonempty, other, digits⟩ :=
          (begins_escapeName_iff fun c member => (plain c member).1).mp begun
        exact ⟨nonempty, plain, other, digits⟩
      · contradiction
    · rintro ⟨nonempty, plain, other, digits⟩
      have begun := (begins_escapeName_iff fun c member => (plain c member).1).mpr
        ⟨nonempty, other, digits⟩
      rw [if_pos begun]
      exact mapM_eq_some_self_iff.mpr fun c member =>
        decoded?_eq_some_self_iff.mpr (plain c member)
  · rw [classSelector, String.toList_append]
    rfl

theorem read?_escapeClass_refuted :
    ¬ ∀ name, name ≠ "" → read? (prepared (escapeClass name).toList) = some name.toList := by
  intro claimed
  have read := claimed "-1" (by decide)
  have never : begins (prepared (escapeClass "-1").toList) = false := by decide
  rw [read?, never] at read
  contradiction

end Identifier

end ThemeCss
