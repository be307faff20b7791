import ThemeCss.Proofs.Json.Grammar

/-! # Values that are passed

Every value is passed up to its end, in whatever brackets it stands and however deep it is nested.
-/

namespace ThemeCss.Json

variable {bracket : Bracket} {opened outer : List Bracket} {text value rest : List Char}

theorem passBehind_nil : passBehind [] text = .ok ((), text) := by
  rw [passBehind]

theorem passBehind_of_closer (closed : skipSpace text = bracket.closer :: rest) :
    passBehind (bracket :: outer) text = passBehind outer rest := by
  have apart : bracket.closer ≠ ',' := by cases bracket <;> decide
  rw [passBehind.eq_def]
  split
  · next same => cases same
  · next same =>
    cases same
    split
    · next ended => cases closed.symm.trans ended
    · next spaced =>
      cases closed.symm.trans spaced
      rw [if_neg apart, if_pos rfl]

theorem passBehind_of_comma (comma : skipSpace text = ',' :: rest)
    (key : passKey bracket rest = .ok ((), value)) :
    passBehind (bracket :: outer) text = passValue (bracket :: outer) value := by
  rw [passBehind.eq_def]
  split
  · next same => cases same
  · next same =>
    cases same
    split
    · next ended => cases comma.symm.trans ended
    · next spaced =>
      cases comma.symm.trans spaced
      rw [if_pos rfl]
      split
      · next fault => cases key.symm.trans fault
      · next same => cases key.symm.trans same; rfl

theorem passMembers_of_closer (closed : skipSpace text = bracket.closer :: rest) :
    passMembers bracket opened text = passBehind opened rest := by
  rw [passMembers]
  split
  · next ended => cases closed.symm.trans ended
  · next spaced =>
    cases closed.symm.trans spaced
    rw [if_pos rfl]

theorem passMembers_of_key {first : Char} (spaced : skipSpace text = first :: rest)
    (other : first ≠ bracket.closer) (key : passKey bracket (first :: rest) = .ok ((), value)) :
    passMembers bracket opened text = passValue (bracket :: opened) value := by
  rw [passMembers]
  split
  · next ended => cases spaced.symm.trans ended
  · next same =>
    cases spaced.symm.trans same
    rw [if_neg other]
    split
    · next fault => cases key.symm.trans fault
    · next same => cases key.symm.trans same; rfl

theorem passValue_of_array (spaced : skipSpace text = '[' :: rest) :
    passValue opened text = passMembers .list opened rest := by
  rw [passValue]
  split
  · next ended => cases spaced.symm.trans ended
  · next same => cases spaced.symm.trans same; rfl
  · next same => cases spaced.symm.trans same
  · next other _ => exact (other _ spaced).elim

theorem passValue_of_object (spaced : skipSpace text = '{' :: rest) :
    passValue opened text = passMembers .object opened rest := by
  rw [passValue]
  split
  · next ended => cases spaced.symm.trans ended
  · next same => cases spaced.symm.trans same
  · next same => cases spaced.symm.trans same; rfl
  · next other => exact (other _ spaced).elim

theorem passValue_of_scalar (solid : skipSpace text = text)
    (scalar : passScalar? text = some (.ok ((), rest))) :
    passValue opened text = passBehind opened rest := by
  rw [passValue]
  split
  · next ended =>
    rw [← solid, ended] at scalar
    cases scalar
  · next array =>
    rw [← solid, array] at scalar
    cases scalar
  · next object =>
    rw [← solid, object] at scalar
    cases scalar
  · dsimp only
    rw [solid]
    split
    · next absent => cases scalar.symm.trans absent
    · next fault => cases scalar.symm.trans fault
    · next same => cases scalar.symm.trans same; rfl

theorem skipSpace_skipSpace (text : List Char) : skipSpace (skipSpace text) = skipSpace text :=
  List.dropWhile_idempotent isSpace text

theorem passValue_congr {other : List Char} (same : skipSpace text = skipSpace other) :
    passValue opened text = passValue opened other := by
  rw [passValue, passValue]
  dsimp only
  rw [same]

theorem passBehind_gap (gap : Gap) :
    passBehind (bracket :: outer) (gap.text ++ text) = passBehind (bracket :: outer) text := by
  rw [passBehind, passBehind]
  dsimp only
  rw [gap.skipSpace_append]

theorem passMembers_gap (gap : Gap) :
    passMembers bracket opened (gap.text ++ text) = passMembers bracket opened text := by
  rw [passMembers, passMembers]
  dsimp only
  rw [gap.skipSpace_append]

theorem takeColon_gap (gap : Gap) (rest : List Char) :
    takeColon (gap.text ++ ':' :: rest) = .ok ((), rest) := by
  rw [takeColon, gap.skipSpace_append, skipSpace_of_not_isSpace rfl]
  rfl

/-- Behind the opening of a bracket, spaces in front of the first member are skipped first. -/
theorem passMembers_of_opens {first : Char} {tail : List Char} (spaced : skipSpace text = first :: tail)
    (other : first ≠ bracket.closer) (key : passKey bracket text = .ok ((), value)) :
    passMembers bracket opened text = passValue (bracket :: opened) value := by
  have again : skipSpace (first :: tail) = first :: tail := by rw [← spaced, skipSpace_skipSpace]
  cases bracket with
  | list =>
    cases key
    rw [passMembers_of_key spaced other rfl]
    exact passValue_congr (again.trans spaced.symm)
  | object =>
    refine passMembers_of_key spaced other ?_
    rw [← key, passKey, passKey, again, spaced]

/-- A member is told from the end of its bracket, and is passed up to its own end. -/
structure Bracket.Passes (bracket : Bracket) (item : List Char) : Prop where
  opens : ∀ rest, ∃ first tail, skipSpace (item ++ rest) = first :: tail ∧ first ≠ bracket.closer
  passed : ∀ opened rest, Stops rest → ∃ value, passKey bracket (item ++ rest) = .ok ((), value) ∧
    passValue (bracket :: opened) value = passBehind (bracket :: opened) rest

theorem skipSpace_closer (bracket : Bracket) (rest : List Char) :
    skipSpace (bracket.closer :: rest) = bracket.closer :: rest := by
  cases bracket <;> rfl

theorem stops_separated (bracket : Bracket) (items : List (List Char)) (rest : List Char) :
    Stops (separated false items ++ bracket.closer :: rest) := by
  have closing : bracket.closer = ']' ∨ bracket.closer = '}' := by cases bracket <;> simp [Bracket.closer]
  exact (ends_separated items rest closing).stops

/-- The members behind the first one are passed up to the end of their bracket. -/
theorem passBehind_separated {items : List (List Char)} (passes : ∀ item ∈ items, bracket.Passes item)
    (opened : List Bracket) (rest : List Char) :
    passBehind (bracket :: opened) (separated false items ++ bracket.closer :: rest) =
      passBehind opened rest := by
  induction items with
  | nil => exact passBehind_of_closer (skipSpace_closer bracket rest)
  | cons item items ih =>
    obtain ⟨first, others⟩ := List.forall_mem_cons.mp passes
    obtain ⟨value, key, passed⟩ := first.passed opened _ (stops_separated bracket items rest)
    have comma : skipSpace (separated false (item :: items) ++ bracket.closer :: rest) =
        ',' :: (item ++ (separated false items ++ bracket.closer :: rest)) := by
      simp [separated, skipSpace, isSpace]
    rw [passBehind_of_comma comma key, passed, ih others]

theorem passMembers_separated (gap : Gap) {items : List (List Char)}
    (passes : ∀ item ∈ items, bracket.Passes item) (opened : List Bracket) (rest : List Char) :
    passMembers bracket opened (gap.text ++ (separated true items ++ bracket.closer :: rest)) =
      passBehind opened rest := by
  rw [passMembers_gap]
  cases items with
  | nil => exact passMembers_of_closer (skipSpace_closer bracket rest)
  | cons item items =>
    obtain ⟨first, others⟩ := List.forall_mem_cons.mp passes
    have text : separated true (item :: items) ++ bracket.closer :: rest =
        item ++ (separated false items ++ bracket.closer :: rest) := by
      simp [separated]
    obtain ⟨c, tail, spaced, other⟩ := first.opens (separated false items ++ bracket.closer :: rest)
    obtain ⟨value, key, passed⟩ := first.passed opened _ (stops_separated bracket items rest)
    rw [text, passMembers_of_opens spaced other key, passed, passBehind_separated others]

/-- A value is passed up to its end. -/
def Passable (text : List Char) : Prop :=
  ∀ opened rest, Stops rest → passValue opened (text ++ rest) = passBehind opened rest

theorem Element.passes {element : Element} (isValue : IsValue element.value)
    (passable : Passable element.value) : Bracket.list.Passes element.text where
  opens rest := by
    obtain ⟨first, others, text, -, apart⟩ := isValue.exists_cons
    refine ⟨first, others ++ (element.back.text ++ rest), ?_, apart⟩
    rw [Element.text, List.append_assoc, List.append_assoc, element.front.skipSpace_append,
      isValue.skipSpace_append, text, List.cons_append]
  passed opened rest stops := by
    refine ⟨_, rfl, ?_⟩
    have spaced : skipSpace (element.text ++ rest) =
        skipSpace (element.value ++ (element.back.text ++ rest)) := by
      rw [Element.text, List.append_assoc, List.append_assoc, element.front.skipSpace_append]
    rw [passValue_congr spaced, passable _ _ (element.back.stops_append stops), passBehind_gap]

/-- A member with what stands behind it. -/
theorem RawMember.text_append (member : RawMember) (rest : List Char) :
    member.text ++ rest = member.front.text ++ '"' :: (member.key ++ '"' :: (member.middle.text ++
      ':' :: (member.ahead.text ++ (member.value ++ (member.back.text ++ rest))))) := by
  simp [RawMember.text]

theorem RawMember.passes {member : RawMember} (passable : Passable member.value) :
    Bracket.object.Passes member.text where
  opens rest := by
    rw [member.text_append, member.front.skipSpace_append]
    exact ⟨'"', _, rfl, by decide⟩
  passed opened rest stops := by
    refine ⟨member.ahead.text ++ (member.value ++ (member.back.text ++ rest)), ?_, ?_⟩
    · rw [member.text_append, passKey, member.front.skipSpace_append,
        skipSpace_of_not_isSpace (by rfl)]
      simp only [passBody_append member.isBody, takeColon_gap]
    · rw [passValue_congr (member.ahead.skipSpace_append _),
        passable _ _ (member.back.stops_append stops), passBehind_gap]

theorem IsNumeral.passScalar? {text : List Char} (isNumeral : IsNumeral text) (stops : Stops rest) :
    passScalar? (text ++ rest) = some (.ok ((), rest)) := by
  obtain ⟨first, others, rfl, number⟩ := isNumeral.exists_cons
  obtain ⟨numeral, wellFormed, spelled⟩ := isNumeral
  have taken := takeNumeral_of_spelled .invalidNumber wellFormed spelled stops
  rw [List.cons_append] at taken ⊢
  unfold Json.passScalar?
  split
  case h_5 c _ _ _ _ _ same =>
    cases same
    rw [if_pos number, taken]
  case h_6 same => cases same
  all_goals
    next same =>
      cases same
      exact absurd number (by decide)

/-- Every value is passed, however deep it is nested. -/
theorem IsValue.passable {text : List Char} (isValue : IsValue text) : Passable text := by
  induction isValue with
  | null | yes | no =>
    intro opened rest _
    exact passValue_of_scalar rfl rfl
  | @string body isBody =>
    intro opened rest _
    refine passValue_of_scalar rfl ?_
    rw [List.cons_append, List.append_assoc]
    exact congrArg some (passBody_append isBody rest)
  | numeral isNumeral =>
    intro opened rest stops
    exact passValue_of_scalar ((IsValue.numeral isNumeral).skipSpace_append rest)
      (isNumeral.passScalar? stops)
  | @array gap elements values ih =>
    intro opened rest _
    have passes : ∀ item ∈ elements.map Element.text, Bracket.list.Passes item := by
      rw [List.forall_mem_map]
      exact fun element member => element.passes (values element member) (ih element member)
    have spaced : skipSpace (arrayText gap elements ++ rest) =
        '[' :: (gap.text ++ (separated true (elements.map Element.text) ++ ']' :: rest)) := by
      rw [arrayText, List.cons_append, skipSpace_of_not_isSpace rfl]
      simp
    rw [passValue_of_array spaced]
    exact passMembers_separated gap passes opened rest
  | @object gap members values ih =>
    intro opened rest _
    have passes : ∀ item ∈ members.map RawMember.text, Bracket.object.Passes item := by
      rw [List.forall_mem_map]
      exact fun member known => member.passes (ih member known)
    have spaced : skipSpace (objectText gap members ++ rest) =
        '{' :: (gap.text ++ (separated true (members.map RawMember.text) ++ '}' :: rest)) := by
      rw [objectText, List.cons_append, skipSpace_of_not_isSpace rfl]
      simp
    rw [passValue_of_object spaced]
    exact passMembers_separated gap passes opened rest

end ThemeCss.Json
