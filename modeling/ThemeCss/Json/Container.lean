import ThemeCss.Catalog
import ThemeCss.Json.Scalar

/-! # Arrays and objects

An array or object is read member by member. What is wrong inside comes before what is wrong with
its end; a pending fault takes its place where the array or object is left.
-/

namespace ThemeCss.Json

/-- What is left behind the end of an array, or behind the comma that stands in its place. -/
def behindList (text : List Char) : List Char :=
  match skipSpace text with
  | ']' :: rest => rest
  | ',' :: rest => skipSpace rest
  | other => other

/-- What is left behind the end of an object, if it ends here. -/
def behindObject (text : List Char) : List Char :=
  match skipSpace text with
  | '}' :: rest => rest
  | other => other

/-- A pending fault takes its place behind what encloses it. -/
def Fault.place (behind : List Char → List Char) : Fault → Fault
  | .pending cause rest => .here cause (behind rest)
  | fault => fault

/-- Takes the end of an array. -/
def closeList (text : List Char) : Outcome Unit :=
  match skipSpace text with
  | ']' :: rest => .ok ((), rest)
  | ',' :: rest =>
    match skipSpace rest with
    | ']' :: more => .error (.next .trailingComma (']' :: more))
    | other => .error (.next .trailingCharacters other)
  | [] => .error (.here .endInList [])
  | other => .error (.next .trailingCharacters other)

/-- Takes the end of an object. -/
def closeObject (text : List Char) : Outcome Unit :=
  match skipSpace text with
  | '}' :: rest => .ok ((), rest)
  | ',' :: rest => .error (.next .trailingComma (',' :: rest))
  | [] => .error (.here .endInObject [])
  | other => .error (.next .trailingCharacters other)

/-- Goes to the next element of an array; false in front of the end of the array. -/
def nextElement (first : Bool) (text : List Char) : Outcome Bool :=
  match skipSpace text with
  | [] => .error (.here .endInList [])
  | c :: rest =>
    if c = ']' then .ok (false, c :: rest)
    else if first then .ok (true, c :: rest)
    else if c = ',' then
      match skipSpace rest with
      | [] => .error (.here .endInValue [])
      | d :: more =>
        if d = ']' then .error (.next .trailingComma (d :: more)) else .ok (true, d :: more)
    else .error (.next .expectedCommaOrBracket (c :: rest))

/-- Goes to the next key of an object, behind its quote; false in front of the end of the object. -/
def nextKey (first : Bool) (text : List Char) : Outcome Bool :=
  match skipSpace text with
  | [] => .error (.here .endInObject [])
  | c :: rest =>
    if c = '}' then .ok (false, c :: rest)
    else if first then
      if c = '"' then .ok (true, rest) else .error (.next .keyNotString (c :: rest))
    else if c = ',' then
      match skipSpace rest with
      | [] => .error (.here .endInValue [])
      | d :: more =>
        if d = '"' then .ok (true, more)
        else if d = '}' then .error (.next .trailingComma (d :: more))
        else .error (.next .keyNotString (d :: more))
    else .error (.next .expectedCommaOrBrace (c :: rest))

theorem closeList_shorter {text rest : List Char} (success : closeList text = .ok ((), rest)) :
    rest.length < text.length := by
  have spaces := length_skipSpace_le text
  unfold closeList at success
  split at success
  · next spaced =>
    cases success
    rw [spaced, List.length_cons] at spaces
    omega
  · split at success <;> cases success
  · cases success
  · cases success

theorem closeObject_shorter {text rest : List Char} (success : closeObject text = .ok ((), rest)) :
    rest.length < text.length := by
  have spaces := length_skipSpace_le text
  unfold closeObject at success
  split at success <;> cases success
  next spaced =>
    rw [spaced, List.length_cons] at spaces
    omega

theorem nextElement_keeps {first more : Bool} {text rest : List Char}
    (success : nextElement first text = .ok (more, rest)) : rest.length ≤ text.length := by
  have spaces := length_skipSpace_le text
  unfold nextElement at success
  split at success
  · cases success
  · next c tail spaced =>
    rw [spaced] at spaces
    split at success
    · cases success; exact spaces
    · split at success
      · cases success; exact spaces
      · split at success
        · have inner := length_skipSpace_le tail
          rw [List.length_cons] at spaces
          split at success
          · cases success
          · next respaced =>
            split at success <;> cases success
            rw [respaced] at inner
            omega
        · cases success

theorem nextKey_keeps {first more : Bool} {text rest : List Char}
    (success : nextKey first text = .ok (more, rest)) : rest.length ≤ text.length := by
  have spaces := length_skipSpace_le text
  unfold nextKey at success
  split at success
  · cases success
  · next c tail spaced =>
    rw [spaced] at spaces
    split at success
    · cases success; exact spaces
    · rw [List.length_cons] at spaces
      split at success
      · split at success <;> cases success
        omega
      · split at success
        · have inner := length_skipSpace_le tail
          split at success
          · cases success
          · next respaced =>
            rw [respaced, List.length_cons] at inner
            split at success
            · cases success; omega
            · split at success <;> cases success
        · cases success

variable {α σ : Type}

/-- Reads elements up to the end of an array; `done` holds those before, reversed. -/
def takeElements (element : Reader α) (first : Bool) (done : List α) (text : List Char) :
    Outcome (List α) :=
  match step : nextElement first text with
  | .error fault => .error fault
  | .ok (false, rest) => .ok (done.reverse, rest)
  | .ok (true, start) =>
    match read : element.run start with
    | .error fault => .error fault
    | .ok (value, rest) =>
      have := nextElement_keeps step
      have := element.shorter read
      takeElements element false (value :: done) rest
termination_by text.length
decreasing_by omega

/-- Reads members up to the end of an object; `member` goes on behind a key. -/
def takeMembers (member : σ → String → Reader σ) (first : Bool) (state : σ) (text : List Char) :
    Outcome σ :=
  match step : nextKey first text with
  | .error fault => .error fault
  | .ok (false, rest) => .ok (state, rest)
  | .ok (true, start) =>
    match key : takeBody [] start with
    | .error fault => .error fault
    | .ok (name, behind) =>
      match read : (member state name).run behind with
      | .error fault => .error fault
      | .ok (next, rest) =>
        have := nextKey_keeps step
        have := takeBody_shorter key
        have := (member state name).shorter read
        takeMembers member false next rest
termination_by text.length
decreasing_by omega

theorem takeElements_keeps {element : Reader α} {first : Bool} {done values : List α}
    {text rest : List Char} (success : takeElements element first done text = .ok (values, rest)) :
    rest.length ≤ text.length := by
  rw [takeElements] at success
  split at success
  · cases success
  · next closed =>
    cases success
    exact nextElement_keeps closed
  · next more =>
    have start := nextElement_keeps more
    split at success
    · cases success
    · next read =>
      have behind := element.shorter read
      have others := takeElements_keeps success
      omega
termination_by text.length

/-- Members are read one after the other: what is preserved by each holds from the first to the end
of the object. -/
@[elab_as_elim]
theorem takeMembers_induction {member : σ → String → Reader σ} {result : σ} {rest : List Char}
    {motive : Bool → σ → List Char → Prop}
    (closed : ∀ {first text}, nextKey first text = .ok (false, rest) → motive first result text)
    (named : ∀ {first state text start name behind next others},
      nextKey first text = .ok (true, start) → takeBody [] start = .ok (name, behind) →
      (member state name).run behind = .ok (next, others) → motive false next others →
        motive first state text)
    {first : Bool} {state : σ} {text : List Char}
    (success : takeMembers member first state text = .ok (result, rest)) :
    motive first state text := by
  rw [takeMembers] at success
  split at success
  · cases success
  · next ended =>
    cases success
    exact closed ended
  · next more =>
    split at success
    · cases success
    · next name behind key =>
      split at success
      · cases success
      · next read =>
        have start := nextKey_keeps more
        have body := takeBody_shorter key
        have shorter := (member state name).shorter read
        exact named more key read (takeMembers_induction closed named success)
termination_by text.length

theorem takeMembers_keeps {member : σ → String → Reader σ} {first : Bool} {state result : σ}
    {text rest : List Char}
    (success : takeMembers member first state text = .ok (result, rest)) :
    rest.length ≤ text.length := by
  refine takeMembers_induction ?closed ?named success
  case closed => exact nextKey_keeps
  case named =>
    intro first state text start name behind next others more key read further
    have start := nextKey_keeps more
    have body := takeBody_shorter key
    have value := (member state name).shorter read
    omega

namespace Bracket

/-- Takes the end of an array or object. -/
def close : Bracket → List Char → Outcome Unit
  | object => closeObject
  | list => closeList

/-- What is left behind the end of an array or object. -/
def behind : Bracket → List Char → List Char
  | object => behindObject
  | list => behindList

theorem close_shorter {bracket : Bracket} {text rest : List Char}
    (success : bracket.close text = .ok ((), rest)) : rest.length < text.length := by
  cases bracket with
  | object => exact closeObject_shorter success
  | list => exact closeList_shorter success

/-- The body of an array or object behind its opening bracket, and its end. -/
def enclosed (bracket : Bracket) (body : List Char → Outcome α) (text : List Char) : Outcome α :=
  match body text with
  | .error fault => .error (fault.place bracket.behind)
  | .ok (value, rest) =>
    match bracket.close rest with
    | .error fault => .error fault
    | .ok ((), behind) => .ok (value, behind)

theorem exists_of_enclosed {bracket : Bracket} {body : List Char → Outcome α}
    {text rest : List Char} {value : α}
    (success : bracket.enclosed body text = .ok (value, rest)) :
    ∃ inside, body text = .ok (value, inside) ∧ bracket.close inside = .ok ((), rest) := by
  unfold enclosed at success
  split at success
  · cases success
  · next read =>
    split at success <;> cases success
    next closed => exact ⟨_, read, closed⟩

theorem enclosed_shorter {bracket : Bracket} {body : List Char → Outcome α}
    {text rest : List Char} {value : α}
    (keeps : ∀ {value rest}, body text = .ok (value, rest) → rest.length ≤ text.length)
    (success : bracket.enclosed body text = .ok (value, rest)) : rest.length < text.length := by
  obtain ⟨inside, read, closed⟩ := exists_of_enclosed success
  exact Nat.lt_of_lt_of_le (close_shorter closed) (keeps read)

end Bracket

namespace Reader

/-- Takes the colon behind a key and then the value. -/
def behindKey (value : Reader α) (text : List Char) : Outcome α :=
  match takeColon text with
  | .error fault => .error fault
  | .ok ((), rest) => value.run rest

theorem behindKey_shorter {value : Reader α} {text rest : List Char} {result : α}
    (success : value.behindKey text = .ok (result, rest)) : rest.length < text.length := by
  unfold behindKey at success
  split at success
  · cases success
  · next colon =>
    have := takeColon_shorter colon
    have := value.shorter success
    omega

/-- Reads the colon behind a key and then the value. -/
def member (value : Reader α) : Reader α := ⟨value.behindKey, behindKey_shorter⟩

/-- Reads an array of elements of one kind. -/
def list (element : Reader α) : Reader (List α) where
  run text :=
    match skipSpace text with
    | '[' :: rest => Bracket.list.enclosed (takeElements element true []) rest
    | other => .error (mismatch "a sequence" other)
  shorter := by
    intro text value rest success
    have spaces := length_skipSpace_le text
    split at success
    · next tail spaced =>
      rw [spaced, List.length_cons] at spaces
      have := Bracket.enclosed_shorter takeElements_keeps success
      omega
    · cases success

/-- Reads an object as a catalog: a repeated key keeps its place and takes the last value. -/
def catalog (value : Reader α) : Reader (Catalog α) where
  run text :=
    match skipSpace text with
    | '{' :: rest =>
      Bracket.object.enclosed
        (takeMembers (fun entries name => (member value).map (entries.insert name)) true .empty)
        rest
    | other => .error (mismatch "a map" other)
  shorter := by
    intro text value rest success
    have spaces := length_skipSpace_le text
    split at success
    · next tail spaced =>
      rw [spaced, List.length_cons] at spaces
      have := Bracket.enclosed_shorter takeMembers_keeps success
      omega
    · cases success

end Reader

end ThemeCss.Json
