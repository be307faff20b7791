import ThemeCss.Proofs.Minified.Shut
import ThemeCss.Proofs.Vendor.Locality

/-! # Copies around names in quotation marks

A vendor rule knows nothing of quotation marks. A declaration that it finds may begin in front of a
quoted name and reach over it, or end inside the name at a semicolon: in both cases the name is
whole in what is put there. Only where a declaration begins inside the name are copies put into the
name itself. Nothing that a rule puts in opens a comment.
-/

namespace ThemeCss

/-- The text has the name between quotation marks, and no comment opens before the name ends. -/
def ShowsName (name text : List Char) : Prop :=
  ∃ before behind, text = before ++ '"' :: (name ++ '"' :: behind) ∧
    ¬ OpensComment (before ++ '"' :: name)

/-- Where two texts are cut apart, a character of theirs is in the first part or in the second. -/
theorem append_cons_eq_append {α : Type} {c : α} {before behind front rest : List α}
    (same : before ++ c :: behind = front ++ rest) :
    (∃ more, front = before ++ c :: more ∧ behind = more ++ rest) ∨
      ∃ more, before = front ++ more ∧ rest = more ++ c :: behind := by
  rcases List.append_eq_append_iff.mp same with ⟨more, rfl, split⟩ | ⟨more, rfl, rfl⟩
  · cases more with
    | nil => exact .inr ⟨[], by simp, split.symm⟩
    | cons d more =>
      obtain ⟨rfl, rfl⟩ := List.cons.inj split
      exact .inl ⟨more, rfl, rfl⟩
  · exact .inr ⟨more, rfl, rfl⟩

namespace ShowsName

variable {c : Char} {name front first second text : List Char}

theorem append (shown : ShowsName name text) (rest : List Char) :
    ShowsName name (text ++ rest) := by
  obtain ⟨before, behind, rfl, unopened⟩ := shown
  exact ⟨before, behind ++ rest, by simp, unopened⟩

theorem shut_append (shut : IsShut ['/', '*'] front) (shown : ShowsName name text) :
    ShowsName name (front ++ text) := by
  obtain ⟨before, behind, rfl, unopened⟩ := shown
  refine ⟨front ++ before, behind, (List.append_assoc ..).symm, ?_⟩
  rw [List.append_assoc]
  exact shut _ unopened

theorem cons (shown : ShowsName name text) (apart : ¬ ['/', '*'] <+: c :: text) :
    ShowsName name (c :: text) := by
  obtain ⟨before, behind, rfl, unopened⟩ := shown
  refine ⟨c :: before, behind, rfl, ?_⟩
  rw [← List.cons_append, prefix_append_cons_iff (by decide)] at apart
  rw [OpensComment, List.cons_append, List.infix_cons_iff, not_or, ← List.cons_append,
    prefix_append_cons_iff (by decide)]
  exact ⟨apart, unopened⟩

/-- The mark of the name is the first character, or the name stands behind that one. -/
theorem of_cons (shown : ShowsName name (c :: text)) :
    (c = '"' ∧ ¬ OpensComment ('"' :: name) ∧ ∃ behind, text = name ++ '"' :: behind) ∨
      (ShowsName name text ∧ ¬ ['/', '*'] <+: c :: text) := by
  obtain ⟨before, behind, whole, unopened⟩ := shown
  cases before with
  | nil =>
    obtain ⟨rfl, rfl⟩ := List.cons.inj whole
    exact .inl ⟨rfl, unopened, behind, rfl⟩
  | cons d before =>
    obtain ⟨rfl, rfl⟩ := List.cons.inj whole
    rw [OpensComment, List.cons_append, List.infix_cons_iff, not_or, ← List.cons_append,
      prefix_append_cons_iff (by decide)] at unopened
    refine .inr ⟨⟨before, behind, rfl, unopened.2⟩, ?_⟩
    rw [List.append_eq, ← List.cons_append, prefix_append_cons_iff (by decide)]
    exact unopened.1

/-- Where a text is cut the name is in the first part, cut itself, or in the second part. -/
theorem of_append (shown : ShowsName name (first ++ second)) :
    ShowsName name first ∨
      (∃ before start rest behind, first = before ++ '"' :: start ∧ name = start ++ rest ∧
        second = rest ++ '"' :: behind ∧ ¬ OpensComment (before ++ '"' :: name)) ∨
      (¬ OpensComment first ∧ ShowsName name second) := by
  obtain ⟨before, behind, whole, unopened⟩ := shown
  rcases append_cons_eq_append whole.symm with ⟨more, rfl, split⟩ | ⟨more, rfl, rfl⟩
  · rcases append_cons_eq_append split with ⟨last, rfl, rfl⟩ | ⟨rest, rfl, rfl⟩
    · exact .inl ⟨before, last, rfl, unopened⟩
    · exact .inr (.inl ⟨before, more, rest, behind, rfl, rfl, rfl, unopened⟩)
  · rw [List.append_assoc] at unopened
    refine .inr (.inr ⟨fun opened => unopened ?_, more, behind, rfl, fun opened => unopened ?_⟩)
    · exact opened.trans (List.prefix_append first _).isInfix
    · exact opened.trans (List.suffix_append first _).isInfix

end ShowsName

/-- Neither a quotation mark nor a character that comments open or end with. -/
def isBareChar (c : Char) : Bool := c != '"' && c != '/' && c != '*'

def VendorCopy.isMarked : VendorCopy → Bool
  | marked _ => true
  | fixed _ => false

/-- Whether the words of a rule are bare and its fixed copies, if any, are for a bare keyword. -/
def VendorRule.isBare (rule : VendorRule) : Bool :=
  rule.property.toList.all isBareChar &&
    (rule.copies.all fun copy => (copy.text []).all isBareChar) &&
    match rule.value with
    | .anything => rule.copies.all VendorCopy.isMarked
    | .keyword word => word.toList.all isBareChar

theorem isBare_of_mem_vendorRules : ∀ rule ∈ vendorRules, rule.isBare = true := by
  have table : (vendorRules.all VendorRule.isBare) = true := rfl
  exact List.all_eq_true.mp table

theorem not_mem_of_bare {text : List Char} (bare : ∀ c ∈ text, isBareChar c = true) {c : Char}
    (mark : isBareChar c = false) : c ∉ text := by
  intro member
  rw [bare c member] at mark
  contradiction

namespace VendorRule

/-- A declaration begins in the name where one may begin, and ends in it or behind the quotation
mark at its end. -/
def BeginsIn (rule : VendorRule) (name : List Char) : Prop :=
  ∃ front c rest declaration, name = front ++ c :: rest ∧ beginsDeclaration (some c) = true ∧
    rule.Declares declaration ∧ (declaration <+: rest ∨ rest ++ ['"'] <+: declaration)

variable {rule : VendorRule} (wellFormed : rule.WellFormed) (bare : rule.isBare = true)
variable {declaration : List Char} (declares : rule.Declares declaration)

section Bare

include bare

theorem isBareChar_of_mem_property : ∀ c ∈ rule.property.toList, isBareChar c = true := by
  rw [isBare, Bool.and_eq_true, Bool.and_eq_true] at bare
  exact List.all_eq_true.mp bare.1.1

theorem isBareChar_of_mem_copies {copy : VendorCopy} (member : copy ∈ rule.copies) :
    ∀ c ∈ copy.text [], isBareChar c = true := by
  rw [isBare, Bool.and_eq_true, Bool.and_eq_true] at bare
  exact List.all_eq_true.mp (List.all_eq_true.mp bare.1.2 copy member)

include wellFormed declares

/-- A declaration with a quotation mark in it is only copied as a whole. -/
theorem isMarked_of_mem_copies (quoted : '"' ∈ declaration) {copy : VendorCopy}
    (member : copy ∈ rule.copies) : copy.isMarked = true := by
  have property : '"' ∉ rule.property.toList :=
    not_mem_of_bare (isBareChar_of_mem_property bare) rfl
  have named := wellFormed.value
  rw [isBare, Bool.and_eq_true] at bare
  obtain ⟨shown, admitted, rfl⟩ := declares
  cases value : rule.value with
  | anything =>
    rw [value] at bare
    exact List.all_eq_true.mp bare.2 copy member
  | keyword word =>
    rw [value] at bare named admitted
    obtain ⟨front, back, left, right, rfl⟩ := (DeclaredValue.admits_keyword_iff named).mp admitted
    have letters : '"' ∉ word.toList := not_mem_of_bare (List.all_eq_true.mp bare.2) rfl
    simp [property, letters, left.not_mem (c := '"') rfl, right.not_mem (c := '"') rfl] at quoted

end Bare

section Comments

variable {mark : List Char} [IsCommentMark mark]

include wellFormed

/-- Where no declaration begins, what stands in front was there before. -/
theorem prefix_of_prefix_rewrite {front text : List Char} {before : Option Char}
    (never : beginsDeclaration before = false)
    (plain : ∀ c ∈ front, beginsDeclaration (some c) = false)
    (starts : front <+: rule.rewrite before text) : front <+: text := by
  induction text using matchInduction wellFormed generalizing before front with
  | nil => rwa [rewrite_nil] at starts
  | cons c rest unmatched ih =>
    rw [rewrite_cons wellFormed unmatched] at starts
    cases front with
    | nil => exact List.nil_prefix
    | cons d front =>
      obtain ⟨rfl, further⟩ := List.cons_prefix_cons.mp starts
      obtain ⟨first, others⟩ := List.forall_mem_cons.mp plain
      exact List.cons_prefix_cons.mpr ⟨rfl, ih first others further⟩
  | declaration declaration rest declares _ =>
    rw [rewrite_declaration wellFormed declares, never] at starts
    obtain ⟨inner, rfl, -⟩ := declares.exists_eq_concat wellFormed
    have absent : ';' ∉ front := fun member => absurd (plain ';' member) (by decide)
    simp only [Bool.false_eq_true, if_false, List.append_assoc, List.singleton_append] at starts ⊢
    rwa [prefix_append_cons_iff absent] at starts ⊢

/-- A mark that begins with a character in front begins with it before the rule does anything. -/
theorem prefix_cons_of_prefix_cons_rewrite {c : Char} {text : List Char}
    (starts : mark <+: c :: rule.rewrite (some c) text) : mark <+: c :: text := by
  obtain rfl := IsCommentMark.eq_slash starts
  have slash : mark.head? = some '/' := IsCommentMark.slash
  have letters : ∀ c ∈ mark, c = '/' ∨ c = '*' := IsCommentMark.letters
  obtain ⟨tail, rfl⟩ := List.head?_eq_some_iff.mp slash
  refine List.cons_prefix_cons.mpr ⟨rfl, ?_⟩
  refine prefix_of_prefix_rewrite wellFormed rfl (fun c member => ?_)
    (List.cons_prefix_cons.mp starts).2
  rcases letters c (List.mem_cons_of_mem _ member) with rfl | rfl <;> rfl

include declares

theorem isShut_declaration (unmarked : ¬ mark <:+: declaration) : IsShut mark declaration := by
  obtain ⟨inner, rfl, -⟩ := declares.exists_eq_concat wellFormed
  refine .concat (fun inside => unmarked ?_) (by decide) (by decide)
  exact inside.trans (List.prefix_append inner [';']).isInfix

include bare

/-- Copies of a declaration without a mark have none either. -/
theorem isShut_copies (unmarked : ¬ mark <:+: declaration) :
    IsShut mark (rule.copies.flatMap fun copy => copy.text declaration ++ [' ']) := by
  refine .flatMap fun copy member => ?_
  have letters : IsShut mark (copy.text []) :=
    .of_not_mem (not_mem_of_bare (isBareChar_of_mem_copies bare member) rfl)
  have space : IsShut mark [' '] := .of_not_mem (by decide)
  cases copy with
  | marked word =>
    rw [VendorCopy.text, List.append_nil] at letters
    exact (letters.append (isShut_declaration wellFormed declares unmarked)).append space
  | fixed text => exact letters.append space

/-- Whatever is put in front of a declaration, there is no mark in it. -/
theorem exists_rewrite_declaration (unmarked : ¬ mark <:+: declaration) (before : Option Char)
    (rest : List Char) : ∃ front, IsShut mark front ∧
      rule.rewrite before (declaration ++ rest) =
        front ++ (declaration ++ rule.rewrite (some ';') rest) := by
  rw [rewrite_declaration wellFormed declares]
  split
  · exact ⟨_, isShut_copies wellFormed bare declares unmarked, by rw [expand, List.append_assoc]⟩
  · exact ⟨[], .nil, rfl⟩

omit declares

/-- A rule brings no mark forth. -/
theorem not_infix_rewrite {text : List Char} (unmarked : ¬ mark <:+: text)
    (before : Option Char) : ¬ mark <:+: rule.rewrite before text := by
  induction text using matchInduction wellFormed generalizing before with
  | nil => rwa [rewrite_nil]
  | cons c rest unmatched ih =>
    rw [List.infix_cons_iff, not_or] at unmarked
    rw [rewrite_cons wellFormed unmatched, List.infix_cons_iff, not_or]
    exact ⟨fun starts => unmarked.1 (prefix_cons_of_prefix_cons_rewrite wellFormed starts),
      ih unmarked.2 _⟩
  | declaration declaration rest declares ih =>
    have own : ¬ mark <:+: declaration := fun inside =>
      unmarked (inside.trans (List.prefix_append declaration rest).isInfix)
    have further : ¬ mark <:+: rest := fun inside =>
      unmarked (inside.trans (List.suffix_append declaration rest).isInfix)
    obtain ⟨front, shut, whole⟩ :=
      exists_rewrite_declaration wellFormed bare declares own before rest
    rw [whole]
    exact shut _ (isShut_declaration wellFormed declares own _ (ih further _))

end Comments

section Names

variable {name : List Char}

/-- In a name without a colon no declaration begins. -/
theorem BeginsIn.mem_colon (bare : rule.isBare = true) (begins : rule.BeginsIn name) :
    ':' ∈ name := by
  obtain ⟨front, c, rest, _, rfl, -, ⟨shown, -, rfl⟩, place⟩ := begins
  refine List.mem_append_right _ (List.mem_cons_of_mem _ ?_)
  rcases place with inside | ⟨more, same⟩
  · exact inside.subset (by simp)
  · have split : rule.property.toList ++ ':' :: (shown ++ [';']) = rest ++ '"' :: more := by
      simpa using same.symm
    rcases append_cons_eq_append split with ⟨_, rfl, -⟩ | ⟨gap, property, behind⟩
    · simp
    · have letters := isBareChar_of_mem_property bare
      cases gap with
      | nil => simp at behind
      | cons d gap =>
        obtain ⟨rfl, -⟩ := List.cons.inj behind
        exact absurd (letters '"' (by simp [property])) (by decide)

/-- A declaration that begins in the rest of a name begins where none may, unless one begins in the
name. -/
theorem beginsDeclaration_of_not_beginsIn {inside : List Char}
    (absent : ¬ rule.BeginsIn (inside ++ name)) (declares : rule.Declares declaration)
    {behind rest : List Char} (whole : name ++ '"' :: behind = declaration ++ rest) :
    beginsDeclaration (inside.getLast?.or (some '"')) = false := by
  rcases List.eq_nil_or_concat inside with rfl | ⟨front, c, rfl⟩
  · rfl
  · by_contra begins
    refine absent ⟨front, c, name, declaration, by simp, by simpa using begins, declares, ?_⟩
    rcases append_cons_eq_append whole with ⟨more, rfl, -⟩ | ⟨more, rfl, -⟩
    · exact .inr ⟨more, by simp⟩
    · exact .inl (List.prefix_append _ _)

include wellFormed

/-- The rest of a name is kept if no declaration begins in the name. -/
theorem exists_rewrite_name {inside : List Char} (absent : ¬ rule.BeginsIn (inside ++ name))
    (behind : List Char) :
    ∃ more, rule.rewrite (inside.getLast?.or (some '"')) (name ++ '"' :: behind) =
      name ++ '"' :: more := by
  generalize whole : name ++ '"' :: behind = text
  -- What has been passed of the name moves to `inside`; their concatenation stays the same.
  induction text using matchInduction wellFormed generalizing inside name with
  | nil => simp at whole
  | cons c rest unmatched ih =>
    rw [rewrite_cons wellFormed unmatched]
    cases name with
    | nil =>
      obtain ⟨rfl, -⟩ := List.cons.inj whole
      exact ⟨_, rfl⟩
    | cons d name =>
      obtain ⟨rfl, split⟩ := List.cons.inj whole
      obtain ⟨more, kept⟩ := @ih name (inside ++ [d]) (by simpa using absent) split
      rw [List.getLast?_concat, Option.some_or] at kept
      exact ⟨more, by rw [kept, List.cons_append]⟩
  | declaration declaration rest declares ih =>
    have never := beginsDeclaration_of_not_beginsIn absent declares whole
    rw [rewrite_declaration wellFormed declares, never]
    rcases append_cons_eq_append whole with ⟨more, rfl, -⟩ | ⟨more, rfl, split⟩
    · exact ⟨more ++ rule.rewrite (some ';') rest, by simp⟩
    · obtain ⟨last, kept⟩ := @ih more (inside ++ declaration) (by simpa using absent) split.symm
      rw [List.getLast?_append, declares.getLast?, Option.some_or, Option.some_or] at kept
      exact ⟨last, by rw [kept]; simp⟩

end Names

end VendorRule

namespace ShowsName

variable {rule : VendorRule} (wellFormed : rule.WellFormed) (bare : rule.isBare = true)
variable {name text : List Char}

include wellFormed bare

/-- The first copy of a declaration with a name in it has the name whole. -/
theorem expand {declaration : List Char} (declares : rule.Declares declaration)
    (shown : ShowsName name declaration) : ShowsName name (rule.expand declaration) := by
  have quoted : '"' ∈ declaration := by
    obtain ⟨before, behind, rfl, -⟩ := shown
    simp
  cases copies : rule.copies with
  | nil => simpa [VendorRule.expand, copies] using shown
  | cons copy others =>
    have member : copy ∈ rule.copies := copies ▸ List.mem_cons_self
    have marked := VendorRule.isMarked_of_mem_copies wellFormed bare declares quoted member
    have letters := VendorRule.isBareChar_of_mem_copies bare member
    cases copy with
    | marked mark =>
      have shut : IsShut ['/', '*'] mark.toList :=
        .of_not_mem (not_mem_of_bare (by simpa [VendorCopy.text] using letters) rfl)
      simpa [VendorRule.expand, copies, VendorCopy.text] using (shown.shut_append shut).append _
    | fixed text => contradiction

/-- A rule keeps a name whole, unless a declaration begins in it. -/
theorem rewrite (absent : ¬ rule.BeginsIn name) (shown : ShowsName name text)
    (before : Option Char) : ShowsName name (rule.rewrite before text) := by
  induction text using VendorRule.matchInduction wellFormed generalizing before with
  | nil =>
    obtain ⟨front, behind, whole, -⟩ := shown
    simp at whole
  | cons c rest unmatched ih =>
    rw [VendorRule.rewrite_cons wellFormed unmatched]
    rcases shown.of_cons with ⟨rfl, unopened, behind, rfl⟩ | ⟨further, apart⟩
    · have absent : ¬ rule.BeginsIn ([] ++ name) := absent
      obtain ⟨more, kept⟩ := VendorRule.exists_rewrite_name wellFormed absent behind
      exact ⟨[], more, congrArg (List.cons '"') kept, unopened⟩
    · exact (ih further _).cons fun starts =>
        apart (VendorRule.prefix_cons_of_prefix_cons_rewrite wellFormed starts)
  | declaration declaration rest declares ih =>
    rcases shown.of_append with own | ⟨front, start, last, behind, rfl, rfl, rfl, unopened⟩ |
      ⟨own, further⟩
    · -- The name ends in the declaration.
      rw [VendorRule.rewrite_declaration wellFormed declares]
      split
      · exact (expand wellFormed bare declares own).append _
      · exact own.append _
    · -- The declaration ends in the name.
      have own : ¬ OpensComment (front ++ '"' :: start) := fun opened =>
        unopened (opened.trans ⟨[], last, by simp⟩)
      have ends : start.getLast?.or (some '"') = some ';' := by
        have semicolon := declares.getLast?
        rw [List.getLast?_append, List.getLast?_cons, Option.some_or] at semicolon
        rw [← semicolon]
        cases start.getLast? <;> rfl
      obtain ⟨kept, same⟩ := VendorRule.exists_rewrite_name wellFormed absent behind
      obtain ⟨copies, shut, placed⟩ := VendorRule.exists_rewrite_declaration wellFormed bare
        declares own before (last ++ '"' :: behind)
      rw [placed, ← ends, same]
      exact shut_append shut ⟨front, kept, by simp, unopened⟩
    · -- The declaration ends in front of the name.
      obtain ⟨copies, shut, placed⟩ :=
        VendorRule.exists_rewrite_declaration wellFormed bare declares own before rest
      rw [placed]
      exact ((ih further _).shut_append
        (VendorRule.isShut_declaration wellFormed declares own)).shut_append shut

end ShowsName

/-- No mark of a comment comes forth in the copies. -/
theorem not_infix_addVendorCopies {mark text : List Char} [IsCommentMark mark]
    (unmarked : ¬ mark <:+: text) : ¬ mark <:+: addVendorCopies text := by
  refine List.foldlRecOn (motive := fun text => ¬ mark <:+: text) vendorRules _ unmarked
    fun text unmarked rule member => ?_
  exact VendorRule.not_infix_rewrite (wellFormed_of_mem_vendorRules rule member)
    (isBare_of_mem_vendorRules rule member) unmarked none

/-- The copies keep a name whole, unless a declaration of the table begins in it. -/
theorem ShowsName.addVendorCopies {name text : List Char}
    (absent : ∀ rule ∈ vendorRules, ¬ rule.BeginsIn name) (shown : ShowsName name text) :
    ShowsName name (addVendorCopies text) := by
  refine List.foldlRecOn (motive := ShowsName name) vendorRules _ shown
    fun text shown rule member => ?_
  exact shown.rewrite (wellFormed_of_mem_vendorRules rule member)
    (isBare_of_mem_vendorRules rule member) (absent rule member) none

end ThemeCss
