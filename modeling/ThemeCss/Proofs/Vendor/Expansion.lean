import ThemeCss.Proofs.Sheet.Lines
import ThemeCss.Proofs.Vendor.Locality

/-! # The copies of one declaration

Read structurally, a declaration has copies if the table has an entry with its property and its
value, and then they are declarations themselves. The entries are apart: the one that puts copies in
front of a declaration leaves nothing for the later ones to find, neither in the declaration nor in
its copies. So the passes over the text of a declaration write the copies of that one entry.
-/

namespace ThemeCss

namespace Declaration

/-- A property without blanks or punctuation, and a value without punctuation. -/
@[mk_iff]
structure Simple (declaration : Declaration) : Prop where
  property : ∀ c ∈ declaration.property.toList, isPropertyChar c = true
  value : ∀ c ∈ declaration.value.toList, isValueChar c = true ∧ c ≠ ':'

/-- The declaration that a text writes. -/
def ofText (text : String) : Declaration :=
  let letters := text.toList
  { property := String.ofList (letters.takeWhile (· != ':'))
    value := String.ofList ((letters.dropWhile (· != ':')).drop 2).dropLast }

end Declaration

/-- The copy of a declaration as a declaration. -/
def VendorCopy.declaration (original : Declaration) : VendorCopy → Declaration
  | marked mark => { original with property := mark ++ original.property }
  | fixed text => .ofText text

/-- Whether a declaration is one of those that a rule copies. -/
def VendorRule.admits (rule : VendorRule) (declaration : Declaration) : Bool :=
  rule.property == declaration.property && rule.value.admits declaration.value.toList

namespace Declaration

/-- The copies of a declaration that the first rule for it asks for. -/
def copiesBy (rules : List VendorRule) (declaration : Declaration) : List Declaration :=
  match rules.find? (·.admits declaration) with
  | none => []
  | some rule => rule.copies.map (VendorCopy.declaration declaration)

/-- The copies that the table asks for. -/
def copies (declaration : Declaration) : List Declaration := declaration.copiesBy vendorRules

/-- The copies of a declaration and then the declaration. -/
def withCopies (declaration : Declaration) : List Declaration :=
  declaration.copies ++ [declaration]

/-- The text of a declaration behind its copies. -/
def vendorText (declaration : Declaration) : String :=
  String.join (declaration.copies.map fun copy => copy.text ++ " ") ++ declaration.text

end Declaration

example : (Declaration.mk "display" "flex").vendorText =
    "display: -webkit-box; display: -ms-flexbox; display: flex;" := by cbv

section Single

variable {declaration : Declaration} (simple : declaration.Simple)

include simple

/-- A declaration is the only one in its text. -/
theorem Declaration.Simple.eq_of_toList_text {front property shown behind : List Char}
    (whole : declaration.text.toList =
      front ++ ((property ++ ':' :: (shown ++ [';'])) ++ behind)) :
    declaration.property.toList = front ++ property ∧
      shown = ' ' :: declaration.value.toList ∧ behind = [] := by
  have noColon : ':' ∉ declaration.property.toList := fun member =>
    absurd (simple.property ':' member) (by decide)
  have noSecondColon : ':' ∉ ' ' :: (declaration.value.toList ++ [';']) := by
    simp only [List.mem_cons, List.mem_append, List.not_mem_nil, or_false, not_or]
    exact ⟨by decide, fun member => (simple.value ':' member).2 rfl, by decide⟩
  have noSemicolon : ';' ∉ ' ' :: declaration.value.toList := by
    rw [List.mem_cons, not_or]
    exact ⟨by decide, fun member => absurd (simple.value ';' member).1 (by decide)⟩
  rw [declaration.toList_text] at whole
  have sides : declaration.property.toList ++ ':' :: (' ' :: (declaration.value.toList ++ [';'])) =
      front ++ property ++ ':' :: (shown ++ ';' :: behind) := by simpa using whole
  obtain ⟨left, -, right⟩ := (List.append_cons_inj_of_notMem noColon noSecondColon).mp sides
  rw [← List.cons_append] at right
  obtain ⟨value, -, rest⟩ :=
    (List.append_cons_inj_of_notMem noSemicolon List.not_mem_nil).mp right
  exact ⟨left, value.symm, rest.symm⟩

theorem VendorRule.admits_iff_declares (rule : VendorRule) :
    rule.admits declaration = true ↔ rule.Declares declaration.text.toList := by
  have padded : rule.value.admits (' ' :: declaration.value.toList) =
      rule.value.admits declaration.value.toList := by
    rw [DeclaredValue.admits.eq_def, DeclaredValue.admits.eq_def, trim_cons_of_isBlank _ rfl]
    rfl
  rw [VendorRule.admits, Bool.and_eq_true, beq_iff_eq]
  constructor
  · rintro ⟨same, admitted⟩
    exact ⟨' ' :: declaration.value.toList, padded.trans admitted, by
      rw [declaration.toList_text, same]; simp⟩
  · rintro ⟨shown, admitted, whole⟩
    have alone : declaration.text.toList =
        [] ++ ((rule.property.toList ++ ':' :: (shown ++ [';'])) ++ []) := by simpa using whole
    obtain ⟨left, rfl, -⟩ := simple.eq_of_toList_text alone
    exact ⟨String.toList_inj.mp left.symm, padded ▸ admitted⟩

/-- A rule puts copies in front of the declarations that it admits and of no others. -/
theorem VendorRule.apply_text {rule : VendorRule} (wellFormed : rule.WellFormed) :
    rule.apply declaration.text.toList =
      if rule.admits declaration then rule.expand declaration.text.toList
      else declaration.text.toList := by
  split
  · next admitted =>
    have declares := (admits_iff_declares simple rule).mp admitted
    have whole := rewrite_declaration wellFormed declares none []
    simpa [rewrite_nil, apply_eq_rewrite, beginsDeclaration] using whole
  · next refused =>
    apply rewrite_eq_self wellFormed
    rintro front _ behind whole ⟨shown, admitted, rfl⟩
    obtain ⟨left, rfl, rfl⟩ := simple.eq_of_toList_text whole
    rcases List.eq_nil_or_concat front with rfl | ⟨start, c, rfl⟩
    · refine absurd ((admits_iff_declares simple rule).mpr ⟨_, admitted, ?_⟩) refused
      simpa using whole
    · have letter := simple.property c (by simp [left])
      have solid := isBlank_eq_false_of_isPropertyChar letter
      have plain := isValueChar_of_isPropertyChar letter
      simp only [isValueChar, Bool.and_eq_true, bne_iff_ne] at plain
      simp [beginsDeclaration, solid, plain]

end Single

/-- A mark can stand in a property, and a fixed text is that of a declaration. -/
def VendorCopy.WellFormed : VendorCopy → Prop
  | marked mark => ∀ c ∈ mark.toList, isPropertyChar c = true
  | fixed text => (Declaration.ofText text).Simple ∧ (Declaration.ofText text).text = text

theorem VendorCopy.WellFormed.simple_declaration {copy : VendorCopy} (wellFormed : copy.WellFormed)
    {original : Declaration} (simple : original.Simple) : (copy.declaration original).Simple := by
  cases copy with
  | marked mark =>
    refine ⟨?_, simple.value⟩
    rw [VendorCopy.declaration, String.toList_append, List.forall_mem_append]
    exact ⟨wellFormed, simple.property⟩
  | fixed text => exact wellFormed.1

theorem VendorCopy.WellFormed.toList_text_declaration {copy : VendorCopy}
    (wellFormed : copy.WellFormed) (original : Declaration) :
    (copy.declaration original).text.toList = copy.text original.text.toList := by
  cases copy with
  | marked mark =>
    simp [VendorCopy.declaration, VendorCopy.text, Declaration.toList_text]
  | fixed text => exact congrArg String.toList wellFormed.2

/-- A later rule has nothing to do where an earlier one has put in its copies. -/
def VendorRule.Apart (first later : VendorRule) : Prop :=
  ∀ original, first.admits original = true → later.admits original = false ∧
    ∀ copy ∈ first.copies, later.admits (copy.declaration original) = false

/-- Whether no value is admitted together with another one. -/
def DeclaredValue.excludes : DeclaredValue → DeclaredValue → Bool
  | keyword word, keyword other => word != other
  | _, _ => false

theorem DeclaredValue.admits_eq_false_of_excludes {first later : DeclaredValue}
    (excluded : first.excludes later = true) {shown : List Char}
    (admitted : first.admits shown = true) : later.admits shown = false := by
  cases first with
  | anything => contradiction
  | keyword word =>
    cases later with
    | anything => contradiction
    | keyword other =>
      rw [excludes, bne_iff_ne] at excluded
      rw [admits, Bool.and_eq_true, beq_iff_eq] at admitted
      rw [admits, Bool.and_eq_false_iff, beq_eq_false_iff_ne, admitted.2]
      exact .inr fun same => excluded (String.toList_inj.mp same)

/-- Whether two rules are told apart by their properties and keywords. -/
def VendorRule.separates (first later : VendorRule) : Bool :=
  (first.property != later.property || first.value.excludes later.value) &&
    first.copies.all fun
      | .marked mark => mark ++ first.property != later.property
      | .fixed text => !later.admits (.ofText text)

theorem VendorRule.apart_of_separates {first later : VendorRule}
    (separated : first.separates later = true) : first.Apart later := by
  intro original admitted
  rw [admits, Bool.and_eq_true, beq_iff_eq] at admitted
  obtain ⟨same, value⟩ := admitted
  rw [separates, Bool.and_eq_true, Bool.or_eq_true, bne_iff_ne] at separated
  obtain ⟨other, copies⟩ := separated
  constructor
  · rw [admits, ← same, Bool.and_eq_false_iff, beq_eq_false_iff_ne]
    rcases other with property | excluded
    · exact .inl property.symm
    · exact .inr (DeclaredValue.admits_eq_false_of_excludes excluded value)
  · intro copy member
    have single := List.all_eq_true.mp copies copy member
    cases copy with
    | marked mark =>
      rw [bne_iff_ne, same] at single
      rw [admits, Bool.and_eq_false_iff, beq_eq_false_iff_ne]
      exact .inl single.symm
    | fixed text => exact (Bool.not_eq_eq_eq_not ..).mp single

theorem pairwise_apart_vendorRules : vendorRules.Pairwise VendorRule.Apart := by
  have separated : vendorRules.Pairwise fun first later => first.separates later = true := by
    simp [vendorRules, VendorRule.separates, DeclaredValue.excludes, VendorRule.admits,
      DeclaredValue.admits.eq_def, Declaration.ofText, trim, trimRight, isBlank]
  exact separated.imp VendorRule.apart_of_separates

theorem wellFormed_of_mem_copies :
    ∀ rule ∈ vendorRules, ∀ copy ∈ rule.copies, copy.WellFormed := by
  simp [vendorRules, VendorCopy.WellFormed, Declaration.simple_iff, isPropertyChar, isValueChar,
    isBlank, Declaration.ofText, Declaration.text, toString]

section Table

variable {rules : List VendorRule} (wellFormed : ∀ rule ∈ rules, rule.WellFormed)

/-- Copies as they stand in front of a declaration. -/
def copiesText (copies : List Declaration) : List Char :=
  copies.flatMap fun copy => copy.text.toList ++ [' ']

theorem Declaration.toList_vendorText (declaration : Declaration) :
    declaration.vendorText.toList = copiesText declaration.copies ++ declaration.text.toList := by
  simp [vendorText, copiesText, List.flatMap_map]

theorem VendorRule.expand_text {rule : VendorRule}
    (wellFormed : ∀ copy ∈ rule.copies, copy.WellFormed) (declaration : Declaration) :
    rule.expand declaration.text.toList =
      copiesText (rule.copies.map (VendorCopy.declaration declaration)) ++
        declaration.text.toList := by
  rw [expand, copiesText, List.flatMap_map]
  congr 1
  apply List.flatMap_congr
  intro copy member
  rw [(wellFormed copy member).toList_text_declaration]

/-- A local pass goes on behind a declaration as if it stood there alone. -/
theorem Local.text_append {pass : List Char → List Char} (isLocal : Local pass)
    (declaration : Declaration) (rest : List Char) :
    pass (declaration.text.toList ++ rest) = pass declaration.text.toList ++ pass rest := by
  have whole : declaration.text.toList =
      declaration.property.toList ++ ':' :: ' ' :: declaration.value.toList ++ [';'] := by
    rw [declaration.toList_text]
    simp
  rw [whole, List.append_assoc, List.singleton_append, isLocal.semicolon]

/-- A rule leaves declarations alone that it does not admit, and goes on behind them. -/
theorem VendorRule.apply_copiesText {rule : VendorRule} (wellFormed : rule.WellFormed)
    {items : List Declaration} (simple : ∀ item ∈ items, item.Simple)
    (refused : ∀ item ∈ items, rule.admits item = false) (rest : List Char) :
    rule.apply (copiesText items ++ rest) = copiesText items ++ rule.apply rest := by
  have isLocal := local_apply wellFormed
  induction items with
  | nil => rfl
  | cons item items ih =>
    obtain ⟨front, behind⟩ := List.forall_mem_cons.mp simple
    obtain ⟨first, others⟩ := List.forall_mem_cons.mp refused
    have whole : copiesText (item :: items) ++ rest =
        item.text.toList ++ ' ' :: (copiesText items ++ rest) := by simp [copiesText]
    rw [whole, isLocal.text_append, apply_text front wellFormed, first,
      isLocal.blank _ _ isBlank_space, ih behind others]
    simp [copiesText]

include wellFormed

theorem foldl_apply_of_refused {items : List Declaration}
    (simple : ∀ item ∈ items, item.Simple)
    (refused : ∀ rule ∈ rules, ∀ item ∈ items, rule.admits item = false) (rest : List Char) :
    rules.foldl (fun text rule => rule.apply text) (copiesText items ++ rest) =
      copiesText items ++ rules.foldl (fun text rule => rule.apply text) rest := by
  induction rules generalizing rest with
  | nil => rfl
  | cons rule others ih =>
    obtain ⟨single, further⟩ := List.forall_mem_cons.mp wellFormed
    obtain ⟨never, later⟩ := List.forall_mem_cons.mp refused
    rw [List.foldl_cons, List.foldl_cons, VendorRule.apply_copiesText single simple never,
      ih further later]

/-- Rules that are apart write the copies that the first rule for a declaration asks for. -/
theorem foldl_apply_text (copies : ∀ rule ∈ rules, ∀ copy ∈ rule.copies, copy.WellFormed)
    (apart : rules.Pairwise VendorRule.Apart) {declaration : Declaration}
    (simple : declaration.Simple) :
    rules.foldl (fun text rule => rule.apply text) declaration.text.toList =
      copiesText (declaration.copiesBy rules) ++ declaration.text.toList := by
  induction rules with
  | nil => rfl
  | cons rule others ih =>
    obtain ⟨single, further⟩ := List.forall_mem_cons.mp wellFormed
    obtain ⟨written, behind⟩ := List.forall_mem_cons.mp copies
    obtain ⟨first, rest⟩ := List.pairwise_cons.mp apart
    rw [List.foldl_cons, VendorRule.apply_text simple single, Declaration.copiesBy, List.find?_cons]
    cases admitted : rule.admits declaration with
    | false => exact ih further behind rest
    | true =>
      have nothing : declaration.copiesBy others = [] := by
        have none : others.find? (·.admits declaration) = none :=
          List.find?_eq_none.mpr fun other member => by
            simp [(first other member declaration admitted).1]
        rw [Declaration.copiesBy, none]
      have alone := ih further behind rest
      rw [nothing] at alone
      rw [if_pos rfl, VendorRule.expand_text written, foldl_apply_of_refused further, alone]
      · rfl
      · rw [List.forall_mem_map]
        intro copy member
        exact (written copy member).simple_declaration simple
      · intro other member
        rw [List.forall_mem_map]
        exact (first other member declaration admitted).2

end Table

/-- The text of a declaration becomes the declaration behind its copies. -/
theorem addVendorCopies_text {declaration : Declaration} (simple : declaration.Simple) :
    addVendorCopies declaration.text.toList = declaration.vendorText.toList := by
  rw [declaration.toList_vendorText]
  exact foldl_apply_text wellFormed_of_mem_vendorRules wellFormed_of_mem_copies
    pairwise_apart_vendorRules simple

/-- Of rules that are apart at most one admits a declaration, and that one gives it its copies. -/
theorem copiesBy_of_admits {rules : List VendorRule} (apart : rules.Pairwise VendorRule.Apart)
    {declaration : Declaration} {rule : VendorRule} (member : rule ∈ rules)
    (admitted : rule.admits declaration = true) :
    declaration.copiesBy rules = rule.copies.map (VendorCopy.declaration declaration) := by
  induction rules with
  | nil => exact absurd member List.not_mem_nil
  | cons first others ih =>
    obtain ⟨never, rest⟩ := List.pairwise_cons.mp apart
    rw [Declaration.copiesBy, List.find?_cons]
    rcases List.mem_cons.mp member with rfl | later
    · rw [admitted]
    · cases earlier : first.admits declaration with
      | false => exact ih rest later
      | true =>
        have refused := (never rule later declaration earlier).1
        rw [admitted] at refused
        contradiction

/-- A declaration whose property no rule has is written as it is. -/
theorem vendorText_of_forall_ne {declaration : Declaration}
    (other : ∀ rule ∈ vendorRules, rule.property ≠ declaration.property) :
    declaration.vendorText = declaration.text := by
  have none : vendorRules.find? (·.admits declaration) = none := by
    apply List.find?_eq_none.mpr
    intro rule member
    rw [VendorRule.admits, beq_eq_false_iff_ne.mpr (other rule member)]
    exact Bool.false_ne_true
  have nothing : declaration.copies = [] := by
    rw [Declaration.copies, Declaration.copiesBy, none]
  rw [Declaration.vendorText, nothing]
  exact String.empty_append

end ThemeCss
