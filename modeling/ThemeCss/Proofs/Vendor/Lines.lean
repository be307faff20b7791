import ThemeCss.Proofs.Vendor.Expansion

/-! # Copies in the lines of a sheet

Where semicolons stand only behind declarations, the copies of a sheet's text are those of its
declarations, put in where each declaration is written. What a pass makes of a piece of the lines
does not depend on what is behind the piece, and a text without semicolons in front of a block, such
as a comment, does not change that.
-/

namespace ThemeCss

/-- The passes write `written` for `plain`, whatever is behind it. -/
def Expands (plain written : List Char) : Prop :=
  ∀ rest, addVendorCopies (plain ++ rest) = written ++ addVendorCopies rest

namespace Expands

variable {plain written front : List Char}

theorem nil : Expands [] [] := fun _ => rfl

theorem append {further more : List Char} (left : Expands plain written)
    (right : Expands further more) : Expands (plain ++ further) (written ++ more) := by
  intro rest
  rw [List.append_assoc, left, right, List.append_assoc]

theorem blanks {gap : List Char} (blank : IsBlankText gap) : Expands gap gap :=
  local_addVendorCopies.blanks blank

theorem eq (expands : Expands plain written) : addVendorCopies plain = written := by
  simpa [local_addVendorCopies.nil] using expands []

theorem text {declaration : Declaration} (simple : declaration.Simple) :
    Expands declaration.text.toList declaration.vendorText.toList := by
  intro rest
  rw [local_addVendorCopies.text_append, addVendorCopies_text simple]

theorem flatMap {α : Type} {items : List α} {plain written : α → List Char}
    (each : ∀ item ∈ items, Expands (plain item) (written item)) :
    Expands (items.flatMap plain) (items.flatMap written) := by
  induction items with
  | nil => exact nil
  | cons item rest ih =>
    rw [List.flatMap_cons, List.flatMap_cons]
    exact (each item List.mem_cons_self).append
      (ih fun other member => each other (List.mem_cons_of_mem item member))

/-- What is in braces is expanded on its own. -/
theorem braced (quiet : ';' ∉ front) (body : Expands plain written) :
    Expands (front ++ '{' :: (plain ++ '}' :: ['\n']))
      (front ++ '{' :: (written ++ '}' :: ['\n'])) := by
  intro rest
  have isLocal := local_addVendorCopies
  have whole : front ++ '{' :: (plain ++ '}' :: ['\n']) ++ rest =
      front ++ '{' :: (plain ++ '}' :: ('\n' :: rest)) := by simp
  rw [whole, isLocal.opening, isLocal.quiet front quiet, isLocal.closing _ _ (by simp), body.eq,
    isLocal.blank _ _ isBlank_newline]
  simp

end Expands

/-- The declarations are simple, and the selector has no semicolon. -/
@[mk_iff]
structure StyleRule.Simple (rule : StyleRule) : Prop where
  selector : ';' ∉ rule.selector.toList
  declarations : ∀ declaration ∈ rule.declarations, declaration.Simple

/-- All rules are simple, and nothing else has a semicolon. -/
def Block.Simple : Block → Prop
  | comment text => ';' ∉ text.toList
  | rule single => single.Simple
  | media query rules => ';' ∉ query.toList ∧ ∀ rule ∈ rules, rule.Simple

/-- Semicolons stand only behind declarations. -/
def Sheet.Simple (sheet : Sheet) : Prop := ∀ block ∈ sheet.blocks, block.Simple

section Lines

variable {front : List Char}

/-- A rule is expanded on its own, whatever without a semicolon is in front of it. -/
theorem Expands.rule {single : StyleRule} (simple : single.Simple) {indent : String}
    (blank : IsBlankText indent.toList) (quiet : ';' ∉ front) :
    Expands (front ++ (single.textWith Declaration.text indent).toList)
      (front ++ (single.textWith Declaration.vendorText indent).toList) := by
  obtain ⟨opening, before, behind, closing, opens, starts, stops, closes, lines⟩ :=
    single.exists_toList_textWith indent blank
  have declarations := Expands.flatMap fun declaration member =>
    ((blanks starts).append (text (simple.declarations declaration member))).append (blanks stops)
  have body := ((blanks opens).append declarations).append (blanks closes)
  have unbroken : ';' ∉ front ++ (indent.toList ++ (single.selector.toList ++ [' '])) := by
    have noIndent : ';' ∉ indent.toList := blank.not_mem rfl
    simp [quiet, simple.selector, noIndent]
  rw [lines, lines]
  simpa using braced unbroken body

theorem Expands.rules {rules : List StyleRule} (simple : ∀ single ∈ rules, single.Simple)
    {indent : String} (blank : IsBlankText indent.toList) :
    Expands (rules.flatMap fun single => (single.textWith Declaration.text indent).toList)
      (rules.flatMap fun single => (single.textWith Declaration.vendorText indent).toList) :=
  flatMap fun single member => by simpa using rule (simple single member) blank List.not_mem_nil

/-- A block is expanded in front of what is expanded behind any text without semicolons: a comment
is such a text, and braces keep what is in front of them away from what is behind them. -/
theorem addVendorCopies_block {block : Block} (simple : block.Simple) {plain written : List Char}
    (behind : ∀ front, ';' ∉ front → addVendorCopies (front ++ plain) = front ++ written)
    (quiet : ';' ∉ front) :
    addVendorCopies (front ++ ((block.textWith Declaration.text).toList ++ plain)) =
      front ++ ((block.textWith Declaration.vendorText).toList ++ written) := by
  have rest : addVendorCopies plain = written := behind [] List.not_mem_nil
  cases block with
  | comment title =>
    have absent : ';' ∉ title.toList := simple
    have carried : ';' ∉ front ++ ((Block.comment title).textWith Declaration.text).toList := by
      rw [Block.toList_textWith_comment]
      simp [quiet, absent]
    rw [← List.append_assoc, behind _ carried, List.append_assoc]
    rfl
  | rule single =>
    have unindented : IsBlankText "".toList := by simp
    rw [← List.append_assoc, ← List.append_assoc]
    exact (Expands.rule simple unindented quiet plain).trans (congrArg _ rest)
  | media query rules =>
    have indented : IsBlankText "  ".toList := by simp
    have newline : IsBlankText ['\n'] := by simp
    have body := (Expands.blanks newline).append (Expands.rules simple.2 indented)
    have unbroken : ';' ∉ front ++ ("@media ".toList ++ query.toList ++ [' ']) := by
      simp [quiet, simple.1]
    have expanded := Expands.braced unbroken body plain
    rw [Block.toList_textWith_media, Block.toList_textWith_media]
    rw [rest] at expanded
    simpa using expanded

theorem addVendorCopies_blocks {blocks : List Block} (simple : ∀ block ∈ blocks, block.Simple)
    (quiet : ';' ∉ front) :
    addVendorCopies (front ++ blocks.flatMap fun block =>
        (block.textBehindWith Declaration.text).toList) =
      front ++ blocks.flatMap fun block =>
        (block.textBehindWith Declaration.vendorText).toList := by
  induction blocks generalizing front with
  | nil => simpa using local_addVendorCopies.quiet front quiet
  | cons block rest ih =>
    obtain ⟨first, others⟩ := List.forall_mem_cons.mp simple
    obtain ⟨gap, blank, lines⟩ := block.exists_toList_textBehindWith
    have unbroken : ';' ∉ front ++ gap := by
      rw [List.mem_append, not_or]
      exact ⟨quiet, blank.not_mem rfl⟩
    have whole := addVendorCopies_block first (fun front quiet => ih others quiet) unbroken
    rw [List.flatMap_cons, List.flatMap_cons, lines, lines]
    simpa using whole

/-- Behind any text without semicolons, the lines of a simple sheet become those with copies. -/
theorem addVendorCopies_sheet {sheet : Sheet} (simple : sheet.Simple) (quiet : ';' ∉ front) :
    addVendorCopies (front ++ sheet.text.toList) =
      front ++ (sheet.textWith Declaration.vendorText).toList := by
  rw [Sheet.text, Sheet.textWith, Sheet.textWith]
  cases blocks : sheet.blocks with
  | nil => simpa using local_addVendorCopies.quiet front quiet
  | cons first others =>
    rw [Sheet.Simple, blocks] at simple
    obtain ⟨single, rest⟩ := List.forall_mem_cons.mp simple
    have whole := addVendorCopies_block single
      (fun front quiet => addVendorCopies_blocks rest quiet) quiet
    simpa [List.flatMap_map] using whole

/-- The text of a simple sheet becomes the same lines with every declaration behind its copies. The
copies are those of the rule that admits the declaration, and there are none for other properties. -/
theorem Sheet.withVendorCopies_text (sheet : Sheet) (simple : sheet.Simple) :
    withVendorCopies sheet.text = sheet.textWith Declaration.vendorText ∧
      ∀ declaration : Declaration,
        (∀ rule ∈ vendorRules, rule.admits declaration = true →
          declaration.copies = rule.copies.map (VendorCopy.declaration declaration)) ∧
        ((∀ rule ∈ vendorRules, rule.property ≠ declaration.property) →
          declaration.vendorText = declaration.text) := by
  constructor
  · have whole := @addVendorCopies_sheet [] sheet simple List.not_mem_nil
    rw [List.nil_append, List.nil_append] at whole
    rw [withVendorCopies, whole, String.ofList_toList]
  · intro declaration
    constructor
    · intro rule member admitted
      exact copiesBy_of_admits pairwise_apart_vendorRules member admitted
    · intro other
      exact vendorText_of_forall_ne other

theorem Sheet.withVendorCopies_text_row :
    let shadow : Declaration := ⟨"box-shadow", "none"⟩
    let upper : Declaration := ⟨"text-transform", "uppercase"⟩
    let row : StyleRule := ⟨".row", [shadow, upper], .compact⟩
    let sheet : Sheet := ⟨[.comment "Rows", .media "(min-width: 640px)" [row]]⟩
    sheet.Simple ∧ withVendorCopies sheet.text = sheet.textWith Declaration.vendorText ∧
      shadow.copies = [⟨"-webkit-box-shadow", "none"⟩] ∧
        upper.vendorText = "text-transform: uppercase;" := by
  intro shadow upper row sheet
  have simple : sheet.Simple := by
    simp [sheet, row, shadow, upper, Sheet.Simple, Block.Simple, StyleRule.simple_iff,
      Declaration.simple_iff, isPropertyChar, isValueChar, isBlank]
  have other : ∀ rule ∈ vendorRules, rule.property ≠ upper.property := by
    simp [vendorRules, upper]
  have whole := Sheet.withVendorCopies_text sheet simple
  let rule : VendorRule := ⟨"box-shadow", .anything, [.marked "-webkit-"]⟩
  have member : rule ∈ vendorRules := by simp [rule, vendorRules]
  have admitted : rule.admits shadow = true := by
    simp [rule, shadow, VendorRule.admits, DeclaredValue.admits, isValueChar]
  have copies : shadow.copies = [⟨"-webkit-box-shadow", "none"⟩] :=
    (whole.2 shadow).1 rule member admitted
  exact ⟨simple, whole.1, copies, (whole.2 upper).2 other⟩

end Lines

end ThemeCss
