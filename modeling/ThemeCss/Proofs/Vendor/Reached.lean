import ThemeCss.Proofs.Vendor.Inserted
import ThemeCss.Proofs.Vendor.Quoted

/-! # Declarations that an earlier match takes along

A match goes on to the next semicolon, and whether a declaration may begin where it begins is only
asked afterwards. A property at the end of a longer word, or in a comment, is thus matched as well:
the match is refused, but what stands between it and its semicolon is not searched again. A
declaration that begins in there gets no copies. So the copies of a declaration are put in directly
in front of it exactly if its property does not stand earlier on the way from the delimiter behind
which it begins.
-/

namespace ThemeCss

namespace VendorRule

/-- What the declarations of a rule begin with. -/
def opening (rule : VendorRule) : List Char := rule.property.toList ++ [':']

/-- The property stands in the text with its colon, and neither a semicolon nor a brace follows. -/
def Reaches (rule : VendorRule) (text : List Char) : Prop :=
  ∃ lead inner, text = lead ++ (rule.opening ++ inner) ∧ ∀ c ∈ inner, isValueChar c = true

variable {rule : VendorRule}

theorem Declares.opening_prefix {declaration : List Char} (declares : rule.Declares declaration) :
    rule.opening <+: declaration := by
  obtain ⟨shown, -, rfl⟩ := declares
  exact ⟨shown ++ [';'], by simp [opening]⟩

section Openings

variable (wellFormed : rule.WellFormed)

include wellFormed

theorem isValueChar_of_mem_opening : ∀ c ∈ rule.opening, isValueChar c = true := by
  rw [opening, List.forall_mem_append, List.forall_mem_singleton]
  exact ⟨fun c member => isValueChar_of_isPropertyChar (wellFormed.property.2 c member), rfl⟩

/-- An opening has one colon, so no two openings overlap. -/
theorem eq_nil_of_append_eq_opening {front behind : List Char}
    (whole : front ++ behind = rule.opening) (nonempty : behind ≠ [])
    (starts : behind <+: rule.opening) : front = [] := by
  have absent : ':' ∉ rule.property.toList := fun member =>
    absurd (wellFormed.property.2 ':' member) (by decide)
  have ends : behind.getLast? = some ':' := by
    have last := congrArg List.getLast? whole
    rwa [List.getLast?_append_of_ne_nil _ nonempty, opening, List.getLast?_concat] at last
  obtain ⟨inner, rfl⟩ := List.getLast?_eq_some_iff.mp ends
  obtain ⟨more, same⟩ := starts
  have split : inner ++ ':' :: more = rule.property.toList ++ [':'] := by simpa [opening] using same
  rcases append_cons_eq_append split with ⟨rest, letters, -⟩ | ⟨rest, rfl, -⟩
  · exact absurd (letters ▸ by simp) absent
  · have lengths := congrArg List.length whole
    simp only [opening, List.length_append, List.length_singleton] at lengths
    exact List.eq_nil_of_length_eq_zero (by omega)

/-- What stands in front of an opening is rewritten on its own, if no other opening reaches it. -/
theorem rewrite_append_opening {front behind : List Char} (apart : ¬ rule.Reaches front)
    (starts : rule.opening <+: behind) (before : Option Char) :
    rule.rewrite before (front ++ behind) =
      rule.rewrite before front ++ rule.rewrite (front.getLast?.or before) behind := by
  refine rewrite_append wellFormed (fun last next nonempty further suffix start declares => ?_) _
  obtain ⟨lead, rfl⟩ := suffix
  rcases List.prefix_or_prefix_of_prefix declares.opening_prefix (List.prefix_append last next)
    with ⟨inner, rfl⟩ | ⟨rest, whole⟩
  · -- The opening ends in the text in front, and what is behind it belongs to a value.
    obtain ⟨cut, same, plain⟩ := declares.exists_eq_concat wellFormed
    refine apart ⟨lead, inner, rfl, fun c member => plain c ?_⟩
    have dropped := congrArg List.dropLast same
    rw [List.dropLast_append_of_ne_nil further, List.dropLast_concat] at dropped
    simp [← dropped, member]
  · -- The opening ends behind the cut, where another one begins.
    by_cases empty : rest = []
    · refine apart ⟨lead, [], ?_, List.forall_mem_nil _⟩
      rw [List.append_nil, ← whole, empty, List.append_nil]
    · have inside : rest <+: next := by
        have front := declares.opening_prefix
        rwa [← whole, List.prefix_append_right_inj] at front
      have shorter : rest.length ≤ rule.opening.length := by
        rw [← whole, List.length_append]
        omega
      exact nonempty (eq_nil_of_append_eq_opening wellFormed whole empty
        (List.prefix_of_prefix_length_le (inside.trans start) starts shorter))

/-- The first opening that reaches the end of a text. -/
theorem Reaches.exists_first {text : List Char} (reaches : rule.Reaches text) :
    ∃ lead inner, text = lead ++ (rule.opening ++ inner) ∧ (∀ c ∈ inner, isValueChar c = true) ∧
      ¬ rule.Reaches lead := by
  obtain ⟨lead, inner, whole, plain⟩ := reaches
  induction size : lead.length using Nat.strongRecOn generalizing lead inner with
  | ind bound ih =>
    by_cases further : rule.Reaches lead
    · obtain ⟨first, between, rfl, shown⟩ := further
      have letters := isValueChar_of_mem_opening wellFormed
      refine ih first.length ?_ first (between ++ (rule.opening ++ inner)) (by simp [whole]) ?_ rfl
      · simp [← size, opening]
      · simpa only [List.forall_mem_append] using ⟨shown, letters, plain⟩
    · exact ⟨lead, inner, whole, plain, further⟩

end Openings

section Taken

variable {front lead inner declaration : List Char} (wellFormed : rule.WellFormed)
variable (value : rule.value = .anything) (declares : rule.Declares declaration)

/-- For a rule that admits any value, an opening that reaches a declaration declares all of it. -/
theorem Declares.opening_append (wellFormed : rule.WellFormed) (value : rule.value = .anything)
    (declares : rule.Declares declaration) (plain : ∀ c ∈ inner, isValueChar c = true) :
    rule.Declares (rule.opening ++ (inner ++ declaration)) := by
  obtain ⟨shown, rfl, letters⟩ := declares.exists_eq_concat wellFormed
  refine ⟨inner ++ shown, ?_, by simp [opening]⟩
  rw [value, DeclaredValue.admits_anything_iff, List.forall_mem_append]
  exact ⟨plain, letters⟩

include wellFormed

/-- A text that an opening reaches keeps it and what is behind it. -/
theorem apply_append_opening (apart : ¬ rule.Reaches lead)
    (plain : ∀ c ∈ inner, isValueChar c = true) :
    rule.apply (lead ++ (rule.opening ++ inner)) = rule.apply lead ++ (rule.opening ++ inner) := by
  have letters := List.forall_mem_append.mpr ⟨isValueChar_of_mem_opening wellFormed, plain⟩
  rw [apply_eq_rewrite, rewrite_append_opening wellFormed apart (List.prefix_append _ _),
    ← apply_eq_rewrite]
  congr 1
  refine rewrite_eq_self wellFormed fun start rest behind same declares => ?_
  obtain ⟨shown, rfl, -⟩ := declares.exists_eq_concat wellFormed
  exact absurd (letters ';' (by simp [same])) (by decide)

include declares

/-- A declaration that no opening reaches is a match of its own. -/
theorem apply_append_declaration (apart : ¬ rule.Reaches front) (rest : List Char) :
    rule.apply (front ++ (declaration ++ rest)) = rule.apply front ++
      (rule.rewritePiece (.hit front.getLast? declaration) ++ rule.apply rest) := by
  have starts := declares.opening_prefix.trans (List.prefix_append declaration rest)
  have behind : rule.rewrite (some ';') rest = rule.apply rest := rewrite_eq_apply wellFormed rfl _
  rw [apply_eq_rewrite, rewrite_append_opening wellFormed apart starts, Option.or_none,
    rewrite_declaration wellFormed declares, behind, rewritePiece, ← apply_eq_rewrite]

include value

/-- A declaration that an opening reaches is matched together with what stands between them. -/
theorem apply_append_reached (apart : ¬ rule.Reaches lead)
    (plain : ∀ c ∈ inner, isValueChar c = true) (rest : List Char) :
    rule.apply (lead ++ (rule.opening ++ inner) ++ (declaration ++ rest)) = rule.apply lead ++
      (rule.rewritePiece (.hit lead.getLast? (rule.opening ++ (inner ++ declaration))) ++
        rule.apply rest) := by
  have whole := apply_append_declaration wellFormed
    (declares.opening_append wellFormed value plain) apart rest
  simpa only [List.append_assoc] using whole

end Taken

/-- The longer a declaration, the more is put in front of it. -/
theorem length_append_expand_lt (copied : rule.copies ≠ [])
    (marked : ∀ copy ∈ rule.copies, copy.isMarked = true) {front : List Char}
    (nonempty : front ≠ []) (declaration : List Char) :
    (front ++ rule.expand declaration).length < (rule.expand (front ++ declaration)).length := by
  have longer (copy : VendorCopy) (member : copy ∈ rule.copies) :
      (copy.text declaration ++ [' ']).length <
        (copy.text (front ++ declaration) ++ [' ']).length := by
    have own := marked copy member
    cases copy with
    | marked mark => simpa [VendorCopy.text] using List.length_pos_iff.mpr nonempty
    | fixed text => contradiction
  have sum := List.sum_lt_sum_of_ne_nil copied _ _ longer
  rw [← List.length_flatMap, ← List.length_flatMap] at sum
  rw [expand, expand, List.length_append, List.length_append, List.length_append,
    List.length_append]
  omega

/-- A declaration with any value, where one may begin, is copied in its own place exactly if no
opening of its property reaches it. Otherwise the first opening that does takes all that follows
up to the semicolon as one match: copies of all of that are put in front of the opening if one may
begin there, and none at all if not. -/
theorem apply_reached {rule : VendorRule} (member : rule ∈ vendorRules)
    (value : rule.value = .anything) {front declaration : List Char}
    (declares : rule.Declares declaration) (begins : beginsDeclaration front.getLast? = true)
    (rest : List Char) :
    (rule.apply (front ++ (declaration ++ rest)) =
        rule.apply front ++ (rule.expand declaration ++ rule.apply rest) ↔
      ¬ rule.Reaches front) ∧
    (rule.Reaches front → ∃ lead inner, front = lead ++ (rule.opening ++ inner) ∧
      (∀ c ∈ inner, isValueChar c = true) ∧ ¬ rule.Reaches lead ∧
      rule.apply (front ++ (declaration ++ rest)) = rule.apply lead ++
        (rule.rewritePiece (.hit lead.getLast? (rule.opening ++ (inner ++ declaration))) ++
          rule.apply rest)) := by
  have wellFormed := wellFormed_of_mem_vendorRules rule member
  have copies := copiesPlainly_of_mem_vendorRules rule member
  have marked : ∀ copy ∈ rule.copies, copy.isMarked = true := by
    have bare := isBare_of_mem_vendorRules rule member
    rw [isBare, value, Bool.and_eq_true] at bare
    exact List.all_eq_true.mp bare.2
  refine ⟨⟨fun same reaches => ?_, fun apart => ?_⟩, fun reaches => ?_⟩
  · obtain ⟨lead, inner, rfl, plain, apart⟩ := reaches.exists_first wellFormed
    rw [apply_append_reached wellFormed value declares apart plain,
      apply_append_opening wellFormed apart plain, List.append_assoc, List.append_cancel_left_eq,
      ← List.append_assoc, ← List.append_assoc, List.append_cancel_right_eq] at same
    have lengths := congrArg List.length same
    cases taken : beginsDeclaration lead.getLast? with
    | true =>
      have nonempty : rule.opening ++ inner ≠ [] := by simp [opening]
      have longer := length_append_expand_lt copies.copied marked nonempty declaration
      rw [rewritePiece, taken, if_pos rfl] at lengths
      exact longer.ne' lengths
    | false =>
      have longer := length_lt_expand copies declaration
      simp only [rewritePiece, taken, Bool.false_eq_true, if_false, List.length_append] at lengths
      omega
  · rw [apply_append_declaration wellFormed declares apart, rewritePiece, begins, if_pos rfl]
  · obtain ⟨lead, inner, rfl, plain, apart⟩ := reaches.exists_first wellFormed
    exact ⟨lead, inner, rfl, plain, apart,
      apply_append_reached wellFormed value declares apart plain rest⟩

/-- The entry of the table for transforms. -/
def transforms : VendorRule := ⟨"transform", .anything, [.marked "-webkit-", .marked "-ms-"]⟩

/-- A comment names a property whose name ends like that of the declaration behind it. -/
theorem apply_reached_comment :
    (transforms ∈ vendorRules ∧ transforms.value = .anything ∧
      transforms.Declares "transform: y;".toList ∧
      beginsDeclaration "/* text-transform: x */ ".toList.getLast? = true ∧
      transforms.Reaches "/* text-transform: x */ ".toList) ∧
    ∃ lead inner, "/* text-transform: x */ ".toList = lead ++ (transforms.opening ++ inner) ∧
      (∀ c ∈ inner, isValueChar c = true) ∧ ¬ transforms.Reaches lead ∧
      transforms.apply ("/* text-transform: x */ ".toList ++ ("transform: y;".toList ++ [])) =
        transforms.apply lead ++
          (transforms.rewritePiece
            (.hit lead.getLast? (transforms.opening ++ (inner ++ "transform: y;".toList))) ++
          transforms.apply []) := by
  have member : transforms ∈ vendorRules := by decide
  have declares : transforms.Declares "transform: y;".toList :=
    ⟨" y".toList, by decide, by decide⟩
  have reaches : transforms.Reaches "/* text-transform: x */ ".toList :=
    ⟨"/* text-".toList, " x */ ".toList, by decide +kernel, by simp [isValueChar]⟩
  exact ⟨⟨member, rfl, declares, rfl, reaches⟩,
    (apply_reached member rfl declares rfl []).2 reaches⟩

/-- Not every declaration is copied that stands where one may begin, outside of all that a match
from such a place would take. -/
theorem apply_reached_refuted :
    ¬ ∀ rule ∈ vendorRules, rule.value = .anything → ∀ front declaration rest,
      rule.Declares declaration → beginsDeclaration front.getLast? = true →
      (∀ lead inner cut, front = lead ++ inner → inner ≠ [] → cut ≠ [] →
        cut <+: declaration ++ rest → rule.Declares (inner ++ cut) →
        beginsDeclaration lead.getLast? = false) →
      rule.expand declaration <:+: rule.apply (front ++ (declaration ++ rest)) := by
  intro claimed
  let front := "/* text-transform: x */ ".toList
  let declaration := "transform: y;".toList
  have declares : transforms.Declares declaration := ⟨" y".toList, by decide, by decide⟩
  have copied := claimed transforms (by decide) rfl front declaration [] declares rfl
  refine absurd (copied fun lead inner cut whole nonempty _ start declared => ?_)
    (by decide +kernel)
  have places : ∀ n < front.length, transforms.opening <+: front.drop n ++ (declaration ++ []) →
      beginsDeclaration (front.take n).getLast? = false := by decide +kernel
  have within : lead.length < front.length := by
    rw [whole, List.length_append]
    exact Nat.lt_add_of_pos_right (List.length_pos_iff.mpr nonempty)
  have property := declared.opening_prefix.trans ((List.prefix_append_right_inj inner).mpr start)
  have place := places lead.length within
  rw [whole, List.drop_left, List.take_left] at place
  exact place property

end VendorRule

end ThemeCss
