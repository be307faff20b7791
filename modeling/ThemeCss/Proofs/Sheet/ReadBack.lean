import ThemeCss.Proofs.Sheet.Classes

/-! # Names that are read back from selectors

The search for classes finds a name again exactly if it has characters and no line break. An escape
does not reach over the end of a line, so no class that is found has a line break in it, however the
selector was written. A name without one is read whole, and as different names are escaped
differently a sheet has as many classes as there are names in its selectors.
-/

namespace ThemeCss

/-- A match begins where the pattern does, and has the length that the pattern tells. -/
theorem exists_of_hit_mem_piecesBehind {pattern : Pattern} {before front : Option Char}
    {text matched : List Char} (member : .hit front matched ∈ piecesBehind pattern before text) :
    ∃ c rest more, pattern (c :: rest) = some more ∧ matched = c :: rest.take more := by
  induction length : text.length using Nat.strongRecOn generalizing before text with
  | ind bound ih =>
    subst length
    cases text with
    | nil =>
      rw [piecesBehind_nil] at member
      contradiction
    | cons c rest =>
      cases found : pattern (c :: rest) with
      | none =>
        rw [piecesBehind_cons_of_none before found, List.mem_cons] at member
        exact ih rest.length (by simp) (member.resolve_left Piece.noConfusion) rfl
      | some more =>
        have shorter : (rest.drop more).length < (c :: rest).length := by
          simp only [List.length_cons, List.length_drop]
          omega
        rw [piecesBehind_cons_of_some before found, List.mem_cons] at member
        rcases member with first | further
        · obtain ⟨-, rfl⟩ := Piece.hit.inj first
          exact ⟨c, rest, more, found, rfl⟩
        · exact ih _ shorter further rfl

section Lines

variable {text rest : List Char} {c : Char} {length more : Nat}

theorem not_mem_take_escapeLength? (reads : escapeLength? text = some length) :
    '\n' ∉ text.take length := by
  rw [escapeLength?.eq_def] at reads
  split at reads
  · split at reads
    · next c rest =>
      split at reads
      · contradiction
      · next line =>
        obtain rfl := Option.some.inj reads
        simpa using Ne.symm line
    · contradiction
  · have front := (List.takeWhile_prefix fun c => (hexDigit? c).isSome).trans
      (List.take_prefix 6 text)
    have letters (d : Char) (member : d ∈ (text.take 6).takeWhile fun c => (hexDigit? c).isSome) :
        (hexDigit? d).isSome = true :=
      List.mem_takeWhile_imp (p := fun c => (hexDigit? c).isSome) member
    generalize (text.take 6).takeWhile (fun c => (hexDigit? c).isSome) = digits at *
    obtain ⟨behind, rfl⟩ := front
    have line : '\n' ∉ digits := fun member => absurd (letters '\n' member) (by decide)
    rw [List.drop_left] at reads
    split at reads
    · obtain rfl := Option.some.inj reads
      rw [List.take_length_add_append]
      simpa using line
    · obtain rfl := Option.some.inj reads
      rwa [List.take_left]

theorem not_mem_take_nameCharLength? {first : Bool}
    (reads : nameCharLength? first text = some length) :
    0 < length ∧ '\n' ∉ text.take length := by
  rw [nameCharLength?.eq_def] at reads
  split at reads
  · next rest =>
    obtain ⟨length, escape, rfl⟩ := Option.map_eq_some_iff.mp reads
    have behind := not_mem_take_escapeLength? escape
    exact ⟨Nat.succ_pos _, by simpa using behind⟩
  · next c rest _ =>
    split at reads
    · next letter =>
      obtain rfl := Option.some.inj reads
      refine ⟨Nat.one_pos, ?_⟩
      rw [List.take_succ_cons, List.take_zero, List.mem_singleton]
      rintro rfl
      cases first <;> contradiction
    · contradiction
  · contradiction

/-- What is read of a name behind its first characters is on the same line. -/
theorem exists_nameLength (passed : Nat) (text : List Char) :
    ∃ more, nameLength passed text = passed + more ∧ '\n' ∉ text.take more := by
  match text with
  | [] => exact ⟨0, by rw [nameLength]; rfl, by simp⟩
  | c :: rest =>
    cases reads : nameCharLength? false (c :: rest) with
    | none => exact ⟨0, by rw [nameLength, reads]; rfl, by simp⟩
    | some length =>
      obtain ⟨positive, first⟩ := not_mem_take_nameCharLength? reads
      obtain ⟨length, rfl⟩ := Nat.exists_eq_add_one.mpr positive
      obtain ⟨more, same, absent⟩ := exists_nameLength (passed + (length + 1)) (rest.drop length)
      refine ⟨length + 1 + more, ?_, ?_⟩
      · simp only [nameLength, reads, Nat.add_sub_cancel, same]
        omega
      · rw [List.take_add, List.drop_succ_cons, List.mem_append, not_or]
        exact ⟨first, absent⟩
termination_by text.length

theorem not_mem_of_classPattern (found : classPattern (c :: rest) = some more) :
    '\n' ∉ c :: rest.take more := by
  rw [classPattern.eq_def] at found
  split at found
  · next text same =>
    obtain ⟨rfl, rfl⟩ := List.cons.inj same
    obtain ⟨length, reads, rfl⟩ := Option.map_eq_some_iff.mp found
    obtain ⟨further, same, behind⟩ := exists_nameLength length (rest.drop length)
    have first := (not_mem_take_nameCharLength? reads).2
    rw [same, List.take_add, List.mem_cons, List.mem_append, not_or, not_or]
    exact ⟨by decide, first, behind⟩
  · contradiction

/-- No class that is found in a selector has a line break. -/
theorem not_mem_of_mem_classesIn {selector : List Char} :
    ∀ name ∈ classesIn selector, '\n' ∉ name.toList := by
  intro name member
  obtain ⟨piece, listed, shown⟩ := List.mem_filterMap.mp member
  cases piece with
  | plain c => contradiction
  | hit before matched =>
    obtain rfl := Option.some.inj shown
    obtain ⟨c, rest, more, found, rfl⟩ := exists_of_hit_mem_piecesBehind listed
    rw [String.toList_ofList]
    exact fun line => not_mem_of_classPattern found (List.mem_of_mem_drop line)

end Lines

theorem mem_escapeClass_newline {name : String} (line : '\n' ∈ name.toList) :
    '\n' ∈ (escapeClass name).toList := by
  rw [escapeClass, String.toList_ofList]
  exact mem_escapeName line (by decide)

namespace Sheet

variable {sheet : Sheet} {name : String} {names : List String}

/-- A class that is found in a sheet comes from one of its selectors. -/
theorem not_mem_of_mem_classNames : ∀ name ∈ sheet.classNames, '\n' ∉ name.toList := by
  intro name member
  rw [classNames_eq_selectors, List.mem_eraseDups] at member
  obtain ⟨selector, -, found⟩ := List.mem_flatMap.mp member
  exact not_mem_of_mem_classesIn name found

/-- The names that can be read are read. -/
theorem classNames_of_selectors (same : sheet.selectors = names.map classSelector)
    (named : ∀ name ∈ names, IsClassName name) :
    sheet.classNames = names.eraseDups.map escapeClass :=
  Mentions.classNames (same ▸ Mentions.classSelectors named)

/-- The class of a single selector is its name exactly if the name can be read. -/
theorem classNames_eq_singleton_iff (same : sheet.selectors = [classSelector name]) :
    sheet.classNames = [escapeClass name] ↔ IsClassName name := by
  constructor
  · intro found
    constructor
    · rintro rfl
      have empty : classesIn (classSelector "").toList = [] := by decide +kernel
      rw [classNames_eq_selectors, same, List.flatMap_singleton, empty] at found
      exact absurd found (by simp)
    · intro line
      have member : escapeClass name ∈ sheet.classNames := found ▸ List.mem_singleton_self _
      exact not_mem_of_mem_classNames _ member (mem_escapeClass_newline line)
  · intro named
    have single : sheet.selectors = [name].map classSelector := same
    rw [classNames_of_selectors single (List.forall_mem_singleton.mpr named)]
    rfl

end Sheet

/-- Escaping keeps names apart, and the search for classes takes it back: from a single selector it
reads exactly the names that have characters and no line break. So a sheet with a selector for each
of some such names has as many classes as there are different names, in the order in which they come
first. -/
theorem Sheet.classNames_readBack :
    Function.Injective escapeClass ∧
      (∀ (sheet : Sheet) (name : String), sheet.selectors = [classSelector name] →
        (sheet.classNames = [escapeClass name] ↔ name ≠ "" ∧ '\n' ∉ name.toList)) ∧
      ∀ (sheet : Sheet) (names : List String), sheet.selectors = names.map classSelector →
        (∀ name ∈ names, name ≠ "" ∧ '\n' ∉ name.toList) →
        sheet.classNames = names.eraseDups.map escapeClass ∧
          sheet.classNames.length = names.toFinset.card := by
  refine ⟨injective_escapeClass, fun _ _ => classNames_eq_singleton_iff, ?_⟩
  intro sheet names same named
  have listed := classNames_of_selectors same named
  have members : names.eraseDups.toFinset = names.toFinset := by
    ext name
    rw [List.mem_toFinset, List.mem_toFinset, List.mem_eraseDups]
  refine ⟨listed, ?_⟩
  rw [listed, List.length_map, ← members, List.toFinset_card_of_nodup (nodup_eraseDups names)]

/-- A digit, a colon, a dot and a blank in names, one of which comes twice. -/
theorem Sheet.classNames_readBack_steps :
    let named (name : String) : Block := .rule { selector := classSelector name, declarations := [] }
    let names := ["2xl:m-0.5", "a b", "2xl:m-0.5"]
    (Sheet.mk [named "a b"]).selectors = [classSelector "a b"] ∧
      (Sheet.mk [named "a b"]).classNames = [escapeClass "a b"] ∧
      (Sheet.mk (names.map named)).selectors = names.map classSelector ∧
      (∀ name ∈ names, name ≠ "" ∧ '\n' ∉ name.toList) ∧
      (Sheet.mk (names.map named)).classNames = ["\\32 xl\\:m-0\\.5", "a\\ b"] := by
  intro named names
  have single := (classNames_readBack.2.1 ⟨[named "a b"]⟩ "a b" rfl).mpr (by decide)
  have plain : ∀ name ∈ names, name ≠ "" ∧ '\n' ∉ name.toList := by decide
  have whole := (classNames_readBack.2.2 ⟨names.map named⟩ names rfl plain).1
  exact ⟨rfl, single, rfl, plain, whole.trans (by decide)⟩

end ThemeCss
