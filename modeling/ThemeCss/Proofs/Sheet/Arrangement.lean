import ThemeCss.Proofs.Minified.Squeezed
import ThemeCss.Proofs.Sheet.Dense
import ThemeCss.Proofs.Sheet.Lines

/-! # Texts that say what a sheet says

A text arranges blocks if it writes them in order, with any blanks around punctuation and any
comments between blocks. The lines that a sheet is written in are one arrangement of its blocks. All
arrangements of the same blocks have the same minified text, the dense one: taking the comments out
leaves another arrangement, and in that one punctuation cuts out the pieces.
-/

namespace ThemeCss

/-- A text that writes declarations in order among blanks. -/
inductive Listing : List Declaration → List Char → Prop where
  | done : Listing [] []
  | blank {declarations : List Declaration} {c : Char} {text : List Char} :
      isBlank c = true → Listing declarations text → Listing declarations (c :: text)
  | declaration (first : Declaration) {declarations : List Declaration} {text : List Char} :
      Listing declarations text →
        Listing (first :: declarations)
          (first.property.toList ++ ':' :: ' ' :: (first.value.toList ++ ';' :: text))

/-- A text that writes blocks in order, among blanks and comments of its own. The comments of the
blocks need not be in it. -/
inductive Arrangement : List Block → List Char → Prop where
  | done : Arrangement [] []
  | blank {blocks : List Block} {c : Char} {text : List Char} :
      isBlank c = true → Arrangement blocks text → Arrangement blocks (c :: text)
  | remark {blocks : List Block} {inside text : List Char} :
      ¬ ClosesComment (inside ++ ['*']) → Arrangement blocks text →
        Arrangement blocks ('/' :: '*' :: (inside ++ '*' :: '/' :: text))
  | comment (title : String) {blocks : List Block} {text : List Char} :
      Arrangement blocks text → Arrangement (.comment title :: blocks) text
  | rule (single : StyleRule) {blocks : List Block} {gap body text : List Char} :
      IsBlankText gap → Listing single.declarations body → Arrangement blocks text →
        Arrangement (.rule single :: blocks)
          (single.selector.toList ++ gap ++ '{' :: (body ++ '}' :: text))
  | media (query : String) (rules : List StyleRule) {blocks : List Block}
      {gap body text : List Char} :
      IsBlankText gap → Arrangement (rules.map .rule) body → Arrangement blocks text →
        Arrangement (.media query rules :: blocks)
          ("@media ".toList ++ query.toList ++ gap ++ '{' :: (body ++ '}' :: text))

namespace Listing

variable {first second : List Declaration} {front back gap text : List Char}

theorem append (left : Listing first front) (right : Listing second back) :
    Listing (first ++ second) (front ++ back) := by
  induction left with
  | done => exact right
  | blank space _ ih => exact .blank space ih
  | declaration head _ ih =>
    have whole := Listing.declaration head ih
    simpa using whole

theorem of_blank (blank : IsBlankText gap) : Listing [] gap := by
  induction gap with
  | nil => exact .done
  | cons c rest ih =>
    obtain ⟨space, further⟩ := IsBlankText.cons_iff.mp blank
    exact .blank space (ih further)

/-- Blanks may stand around what is listed. -/
theorem padded (left : IsBlankText front) (listing : Listing first text)
    (right : IsBlankText back) : Listing first (front ++ text ++ back) := by
  simpa using ((of_blank left).append listing).append (of_blank right)

theorem of_text (declaration : Declaration) : Listing [declaration] declaration.text.toList := by
  rw [declaration.toList_text]
  exact .declaration declaration .done

/-- What is listed for each declaration is listed for all of them. -/
theorem flatMap {α : Type} {items : List α} {listed : α → List Declaration}
    {written : α → List Char} (each : ∀ item ∈ items, Listing (listed item) (written item)) :
    Listing (items.flatMap listed) (items.flatMap written) := by
  induction items with
  | nil => exact .done
  | cons item rest ih =>
    rw [List.flatMap_cons, List.flatMap_cons]
    exact (each item List.mem_cons_self).append
      (ih fun other member => each other (List.mem_cons_of_mem item member))

end Listing

namespace Arrangement

variable {blocks : List Block} {gap text : List Char}

theorem blanks (blank : IsBlankText gap) (arranged : Arrangement blocks text) :
    Arrangement blocks (gap ++ text) := by
  induction gap with
  | nil => exact arranged
  | cons c rest ih =>
    obtain ⟨space, further⟩ := IsBlankText.cons_iff.mp blank
    exact .blank space (ih further)

end Arrangement

/-- A rule with every declaration replaced by a list of them. -/
def StyleRule.unfolded (unfold : Declaration → List Declaration) (rule : StyleRule) : StyleRule :=
  { rule with declarations := rule.declarations.flatMap unfold }

/-- A block with every declaration replaced by a list of them. -/
def Block.unfolded (unfold : Declaration → List Declaration) : Block → Block
  | comment text => comment text
  | rule single => rule (single.unfolded unfold)
  | media query rules => media query (rules.map (StyleRule.unfolded unfold))

/-- A sheet with every declaration replaced by a list of them. -/
def Sheet.unfolded (unfold : Declaration → List Declaration) (sheet : Sheet) : Sheet :=
  ⟨sheet.blocks.map (Block.unfolded unfold)⟩

section Lines

variable {write : Declaration → String} {unfold : Declaration → List Declaration}

/-- Both styles write a rule as one piece in braces. -/
theorem Arrangement.rule_text (listed : ∀ declaration, Listing (unfold declaration)
    (write declaration).toList) (single : StyleRule) {indent : String}
    (blank : IsBlankText indent.toList) {blocks : List Block} {text : List Char}
    (arranged : Arrangement blocks text) :
    Arrangement (.rule (single.unfolded unfold) :: blocks)
      ((single.textWith write indent).toList ++ text) := by
  obtain ⟨opening, before, behind, closing, opens, starts, stops, closes, lines⟩ :=
    single.exists_toList_textWith indent blank
  have declarations : Listing (single.unfolded unfold).declarations
      (single.declarations.flatMap fun declaration =>
        before ++ (write declaration).toList ++ behind) :=
    .flatMap fun declaration _ => (listed declaration).padded starts stops
  have space : IsBlankText [' '] := by simp
  have piece := Arrangement.rule (single.unfolded unfold) space (declarations.padded opens closes)
    (arranged.blank isBlank_newline)
  rw [lines]
  simpa [StyleRule.unfolded] using piece.blanks blank

theorem Arrangement.rules_text (listed : ∀ declaration, Listing (unfold declaration)
    (write declaration).toList) (rules : List StyleRule) {indent : String}
    (blank : IsBlankText indent.toList) :
    Arrangement ((rules.map (StyleRule.unfolded unfold)).map .rule)
      (rules.flatMap fun single => (single.textWith write indent).toList) := by
  induction rules with
  | nil => exact .done
  | cons single rest ih => exact .rule_text listed single blank ih

/-- The text of a comment between its spaces does not end it early. -/
theorem not_closesComment_inside {title : List Char} (unclosed : ¬ ClosesComment title) :
    ¬ ClosesComment ((' ' :: title ++ [' ']) ++ ['*']) := by
  have whole : (' ' :: title ++ [' ']) ++ ['*'] = [] ++ ' ' :: (title ++ ' ' :: ['*']) := by simp
  rw [ClosesComment, whole, pair_infix_append_cons_iff (by decide) (by decide),
    pair_infix_append_cons_iff (by decide) (by decide)]
  rintro (nothing | inside | star)
  · simp at nothing
  · exact unclosed inside
  · simp [pair_infix_cons_iff] at star

theorem Arrangement.block_text (listed : ∀ declaration, Listing (unfold declaration)
    (write declaration).toList) {block : Block} (inert : block.Inert) {blocks : List Block}
    {text : List Char} (arranged : Arrangement blocks text) :
    Arrangement (block.unfolded unfold :: blocks) ((block.textWith write).toList ++ text) := by
  have behind : Arrangement blocks ('\n' :: text) := arranged.blank isBlank_newline
  cases block with
  | comment title =>
    rw [Block.toList_textWith_comment]
    simpa [Block.unfolded] using (behind.remark (not_closesComment_inside inert)).comment title
  | rule single =>
    have unindented : IsBlankText "".toList := by simp
    exact .rule_text listed single unindented arranged
  | media query rules =>
    have space : IsBlankText [' '] := by simp
    have body : Arrangement ((rules.map (StyleRule.unfolded unfold)).map .rule)
        (['\n'] ++ rules.flatMap fun single => (single.textWith write "  ").toList) :=
      (Arrangement.rules_text listed rules (by simp)).blanks (by simp)
    rw [Block.toList_textWith_media]
    simpa [Block.unfolded] using Arrangement.media query _ space body behind

/-- The lines of a sheet arrange its blocks, with its declarations as they are written. -/
theorem Sheet.arrangement_text (listed : ∀ declaration, Listing (unfold declaration)
    (write declaration).toList) {sheet : Sheet} (inert : sheet.Inert) :
    Arrangement (sheet.unfolded unfold).blocks (sheet.textWith write).toList := by
  have behind (blocks : List Block) (inert : ∀ block ∈ blocks, block.Inert) :
      Arrangement (blocks.map (Block.unfolded unfold))
        (blocks.flatMap fun block => (block.textBehindWith write).toList) := by
    induction blocks with
    | nil => exact .done
    | cons block rest ih =>
      obtain ⟨first, others⟩ := List.forall_mem_cons.mp inert
      obtain ⟨gap, blank, lines⟩ := block.exists_toList_textBehindWith
      rw [List.flatMap_cons, lines, List.append_assoc]
      exact (Arrangement.block_text listed first (ih others)).blanks blank
  rw [Sheet.unfolded, Sheet.textWith]
  cases blocks : sheet.blocks with
  | nil => exact .done
  | cons first others =>
    rw [Sheet.Inert, blocks] at inert
    obtain ⟨single, rest⟩ := List.forall_mem_cons.mp inert
    simpa [List.flatMap_map] using Arrangement.block_text listed single (behind others rest)

end Lines

section Comments

/-- Nothing in a listing opens a comment if nothing in the declarations does. -/
theorem Listing.not_opensComment {declarations : List Declaration} {text : List Char}
    (listing : Listing declarations text)
    (inert : ∀ declaration ∈ declarations, declaration.Inert) : ¬ OpensComment text := by
  induction listing with
  | done => simp [OpensComment]
  | @blank declarations c text blank _ ih =>
    have other : c ≠ '/' := by
      rintro rfl
      contradiction
    rw [OpensComment, pair_infix_cons_iff, not_or]
    exact ⟨fun opened => other opened.1, ih inert⟩
  | declaration first _ ih =>
    obtain ⟨single, others⟩ := List.forall_mem_cons.mp inert
    rw [OpensComment, pair_infix_append_cons_iff (by decide) (by decide), pair_infix_cons_iff,
      pair_infix_append_cons_iff (by decide) (by decide)]
    rintro (inProperty | ⟨space, -⟩ | inValue | behind)
    · exact single.property.unopened inProperty
    · contradiction
    · exact single.value.unopened inValue
    · exact ih others behind

theorem not_opensComment_append_blank {front gap : List Char} (unopened : ¬ OpensComment front)
    (blank : IsBlankText gap) : ¬ OpensComment (front ++ gap) := by
  rw [OpensComment, pair_infix_append_iff_of_not_mem (blank.not_mem rfl)]
  exact unopened

theorem not_opensComment_query {query : String} (inert : IsInert query) :
    ¬ OpensComment ("@media ".toList ++ query.toList) := by
  have whole : "@media ".toList ++ query.toList = "@media".toList ++ ' ' :: query.toList := by simp
  rw [OpensComment, whole, pair_infix_append_cons_iff (by decide) (by decide), not_or]
  exact ⟨by simp [pair_infix_cons_iff], inert.unopened⟩

theorem not_opensComment_braced {front body text : List Char} (unopened : ¬ OpensComment front)
    (within : ¬ OpensComment body) (behind : ¬ OpensComment text) :
    ¬ OpensComment (front ++ '{' :: (body ++ '}' :: text)) := by
  rw [OpensComment, pair_infix_append_cons_iff (by decide) (by decide),
    pair_infix_append_cons_iff (by decide) (by decide), not_or, not_or]
  exact ⟨unopened, within, behind⟩

/-- Comments are taken out of braces and of what is behind them. -/
theorem removeComments_braced {front body bareBody text bare : List Char}
    (unopened : ¬ OpensComment front)
    (within : ∀ rest, removeComments (body ++ '}' :: rest) = bareBody ++ '}' :: removeComments rest)
    (behind : ∀ rest, removeComments (text ++ rest) = bare ++ removeComments rest)
    (rest : List Char) :
    removeComments (front ++ '{' :: (body ++ '}' :: text) ++ rest) =
      front ++ '{' :: (bareBody ++ '}' :: bare) ++ removeComments rest := by
  calc
    removeComments (front ++ '{' :: (body ++ '}' :: text) ++ rest) =
        removeComments (front ++ '{' :: (body ++ '}' :: (text ++ rest))) := by simp
    _ = front ++ '{' :: removeComments (body ++ '}' :: (text ++ rest)) :=
      removeComments_append unopened (by decide) (by decide) _
    _ = front ++ '{' :: (bareBody ++ '}' :: bare) ++ removeComments rest := by
      simp [within, behind]

/-- Taking the comments out of an arrangement leaves an arrangement of the same blocks. -/
theorem Arrangement.exists_removeComments {blocks : List Block} {text : List Char}
    (arranged : Arrangement blocks text) (inert : ∀ block ∈ blocks, block.Inert) :
    ∃ bare, Arrangement blocks bare ∧ ¬ OpensComment bare ∧
      ∀ rest, removeComments (text ++ rest) = bare ++ removeComments rest := by
  induction arranged with
  | done => exact ⟨[], .done, by simp [OpensComment], fun rest => rfl⟩
  | @blank blocks c text blank _ ih =>
    obtain ⟨bare, arranged, unopened, removed⟩ := ih inert
    have other : c ≠ '/' := by
      rintro rfl
      contradiction
    refine ⟨c :: bare, .blank blank arranged, ?_, ?_⟩
    · rw [OpensComment, pair_infix_cons_iff, not_or]
      exact ⟨fun opened => other opened.1, unopened⟩
    · intro rest
      rw [List.cons_append, removeComments_cons_of_none, removed, List.cons_append]
      exact commentPattern_eq_none_iff.mpr fun opened => other opened.1
  | @remark blocks inside text unclosed _ ih =>
    obtain ⟨bare, arranged, unopened, removed⟩ := ih inert
    refine ⟨bare, arranged, unopened, ?_⟩
    intro rest
    simpa [removed] using removeComments_comment unclosed (text ++ rest)
  | comment title _ ih =>
    obtain ⟨bare, arranged, rest⟩ := ih (List.forall_mem_cons.mp inert).2
    exact ⟨bare, arranged.comment title, rest⟩
  | @rule single blocks gap body text blank listing _ ih =>
    obtain ⟨piece, others⟩ := List.forall_mem_cons.mp inert
    obtain ⟨bare, arranged, unopened, removed⟩ := ih others
    have front : ¬ OpensComment (single.selector.toList ++ gap) :=
      not_opensComment_append_blank piece.selector.unopened blank
    have within : ¬ OpensComment body := listing.not_opensComment piece.declarations
    exact ⟨_, .rule single blank listing arranged, not_opensComment_braced front within unopened,
      removeComments_braced front (removeComments_append within (by decide) (by decide)) removed⟩
  | @media query rules blocks gap body text blank _ _ inner outer =>
    obtain ⟨piece, others⟩ := List.forall_mem_cons.mp inert
    obtain ⟨bare, arranged, unopened, removed⟩ := outer others
    obtain ⟨bareBody, arrangedBody, within, removedBody⟩ :=
      inner (List.forall_mem_map.mpr piece.2)
    have front : ¬ OpensComment ("@media ".toList ++ query.toList ++ gap) :=
      not_opensComment_append_blank (not_opensComment_query piece.1) blank
    have closing (rest : List Char) :
        removeComments (body ++ '}' :: rest) = bareBody ++ '}' :: removeComments rest := by
      rw [removedBody, removeComments_cons_of_none]
      exact commentPattern_eq_none_iff.mpr fun opened => absurd opened.1 (by decide)
    exact ⟨_, .media query rules blank arrangedBody arranged,
      not_opensComment_braced front within unopened, removeComments_braced front closing removed⟩

end Comments

section Dense

theorem toList_minified_of_inert {text : String} (inert : IsInert text) :
    (minified text).toList = squeezed text.toList := by
  rw [minified, String.toList_ofList, minifyText_of_not_opensComment inert.unopened]

theorem IsInert.not_mem {text : String} (inert : IsInert text) {c : Char}
    (mark : isValueChar c = false) : c ∉ text.toList := by
  intro member
  rw [inert.plain c member] at mark
  contradiction

/-- Squeezing cuts a declaration at its colon. -/
theorem squeezed_declaration {declaration : Declaration} (inert : declaration.Inert) :
    squeezed (declaration.property.toList ++ ':' :: ' ' :: declaration.value.toList) =
      declaration.dense.toList := by
  rw [squeezed_append_cons _ _ rfl (by decide) (by decide), squeezed_cons_of_isBlank _ rfl,
    ← toList_minified_of_inert inert.property, ← toList_minified_of_inert inert.value]
  simp [Declaration.dense]

/-- Declarations without needless characters. -/
def denseDeclarations (declarations : List Declaration) : List Char :=
  (String.intercalate ";" (declarations.map Declaration.dense)).toList

/-- Behind a declaration only another one keeps the semicolon. -/
theorem head?_denseDeclarations_cons {first : Declaration} (inert : first.Inert)
    (others : List Declaration) (rest : List Char) :
    (denseDeclarations (first :: others) ++ rest).head? ≠ some '}' := by
  have start : ∃ more, denseDeclarations (first :: others) ++ rest =
      squeezed first.property.toList ++ ':' :: more := by
    rw [← toList_minified_of_inert inert.property]
    cases others with
    | nil => exact ⟨_, by simp [denseDeclarations, Declaration.dense]; rfl⟩
    | cons second others => exact ⟨_, by simp [denseDeclarations, Declaration.dense]; rfl⟩
  obtain ⟨more, same⟩ := start
  rw [same]
  intro front
  cases kept : squeezed first.property.toList with
  | nil => simp [kept] at front
  | cons c tail =>
    rw [kept] at front
    obtain rfl : c = '}' := Option.some.inj front
    exact not_mem_squeezed (by decide) (inert.property.not_mem rfl) (kept ▸ List.mem_cons_self)

/-- A listing in braces is squeezed to its declarations, with semicolons between them. -/
theorem Listing.squeezed_append_brace {declarations : List Declaration} {text : List Char}
    (listing : Listing declarations text)
    (inert : ∀ declaration ∈ declarations, declaration.Inert) (rest : List Char) :
    squeezed (text ++ '}' :: rest) = denseDeclarations declarations ++ '}' :: squeezed rest := by
  induction listing with
  | done => exact ThemeCss.squeezed_append_brace List.not_mem_nil rest
  | blank blank _ ih => rw [List.cons_append, squeezed_cons_of_isBlank _ blank, ih inert]
  | @declaration first declarations text _ ih =>
    obtain ⟨single, others⟩ := List.forall_mem_cons.mp inert
    have behind := ih others
    have whole : first.property.toList ++ ':' :: ' ' :: (first.value.toList ++ ';' :: text) ++
        '}' :: rest = (first.property.toList ++ ':' :: ' ' :: first.value.toList) ++
          ';' :: (text ++ '}' :: rest) := by simp
    rw [whole]
    cases declarations with
    | nil =>
      have absent : ';' ∉ first.property.toList ++ ':' :: ' ' :: first.value.toList := by
        simp [single.property.not_mem, single.value.not_mem, isValueChar]
      rw [squeezed_append_semicolon_of_brace absent (by rw [behind]; rfl), behind,
        squeezed_declaration single]
      simp [denseDeclarations]
    | cons second declarations =>
      have kept : (squeezed (text ++ '}' :: rest)).head? ≠ some '}' := by
        rw [behind]
        exact head?_denseDeclarations_cons (others second List.mem_cons_self) _ _
      rw [squeezed_append_semicolon _ kept, behind, squeezed_declaration single]
      simp [denseDeclarations]

/-- An arrangement without comments is squeezed to the dense text of its blocks. -/
theorem Arrangement.squeezed_append {blocks : List Block} {text : List Char}
    (arranged : Arrangement blocks text) (inert : ∀ block ∈ blocks, block.Inert)
    (unopened : ¬ OpensComment text) (rest : List Char) :
    squeezed (text ++ rest) = (String.join (blocks.map Block.dense)).toList ++ squeezed rest := by
  induction arranged generalizing rest with
  | done => rfl
  | blank blank _ ih =>
    rw [OpensComment, pair_infix_cons_iff, not_or] at unopened
    rw [List.cons_append, squeezed_cons_of_isBlank _ blank, ih inert unopened.2]
  | remark _ _ _ => exact absurd ⟨[], _, rfl⟩ unopened
  | comment title _ ih =>
    rw [ih (List.forall_mem_cons.mp inert).2 unopened]
    simp [Block.dense]
  | @rule single blocks gap body text blank listing _ ih =>
    obtain ⟨piece, others⟩ := List.forall_mem_cons.mp inert
    rw [OpensComment, pair_infix_append_cons_iff (by decide) (by decide),
      pair_infix_append_cons_iff (by decide) (by decide), not_or, not_or] at unopened
    have whole : single.selector.toList ++ gap ++ '{' :: (body ++ '}' :: text) ++ rest =
        single.selector.toList ++ gap ++ '{' :: (body ++ '}' :: (text ++ rest)) := by simp
    rw [whole, squeezed_append_cons _ _ rfl (by decide) (by decide),
      squeezed_append_blank _ blank, listing.squeezed_append_brace piece.declarations,
      ih others unopened.2.2, ← toList_minified_of_inert piece.selector]
    simp [Block.dense, StyleRule.dense, denseDeclarations]
  | @media query rules blocks gap body text blank _ _ inner outer =>
    obtain ⟨piece, others⟩ := List.forall_mem_cons.mp inert
    rw [OpensComment, pair_infix_append_cons_iff (by decide) (by decide),
      pair_infix_append_cons_iff (by decide) (by decide), not_or, not_or] at unopened
    have whole : "@media ".toList ++ query.toList ++ gap ++ '{' :: (body ++ '}' :: text) ++ rest =
        "@media ".toList ++ query.toList ++ gap ++ '{' :: (body ++ '}' :: (text ++ rest)) := by simp
    have closing := ThemeCss.squeezed_append_brace List.not_mem_nil (text ++ rest)
    have front : (minified ("@media " ++ query)).toList =
        squeezed ("@media ".toList ++ query.toList) := by
      rw [minified, String.toList_ofList, String.toList_append,
        minifyText_of_not_opensComment (not_opensComment_query piece.1)]
    rw [whole, squeezed_append_cons _ _ rfl (by decide) (by decide),
      squeezed_append_blank _ blank, inner (List.forall_mem_map.mpr piece.2) unopened.2.1, ← front]
    rw [List.nil_append] at closing
    rw [closing, outer others unopened.2.2]
    simp [Block.dense, List.map_map, Function.comp_def]

end Dense

/-- All arrangements of inert blocks have one minified text. -/
theorem Arrangement.minifyText_eq {blocks : List Block} {text : List Char}
    (arranged : Arrangement blocks text) (inert : ∀ block ∈ blocks, block.Inert) :
    minifyText text = (String.join (blocks.map Block.dense)).toList := by
  obtain ⟨bare, rearranged, unopened, removed⟩ := arranged.exists_removeComments inert
  have stripped : removeComments text = bare := by simpa using removed []
  have single : stripComments text = bare := by
    rw [stripComments_eq_removeComments, stripped]
    rw [stripped]
    exact not_hasComment_of_not_opensComment unopened
  have dense := rearranged.squeezed_append inert unopened []
  rw [minifyText_eq_squeezed, single]
  simpa using dense

/-- The lines of a sheet are minified to its dense text, with its declarations as they are written. -/
theorem Sheet.minified_textWith {write : Declaration → String}
    {unfold : Declaration → List Declaration}
    (listed : ∀ declaration, Listing (unfold declaration) (write declaration).toList)
    {sheet : Sheet} (inert : sheet.Inert) (unfoldedInert : (sheet.unfolded unfold).Inert) :
    minified (sheet.textWith write) = (sheet.unfolded unfold).dense := by
  rw [minified, (Sheet.arrangement_text listed inert).minifyText_eq unfoldedInert,
    String.ofList_toList, Sheet.dense]

theorem Sheet.unfolded_singleton (sheet : Sheet) :
    sheet.unfolded (fun declaration => [declaration]) = sheet := by
  have rules : StyleRule.unfolded (fun declaration => [declaration]) = id := by
    funext single
    simp [StyleRule.unfolded]
  have blocks : Block.unfolded (fun declaration => [declaration]) = id := by
    funext block
    cases block with
    | comment title => rfl
    | rule single => rw [Block.unfolded, rules, id, id]
    | media query nested => rw [Block.unfolded, rules, List.map_id, id]
  rw [Sheet.unfolded, blocks, List.map_id]

/-- Minifying the text of a sheet of inert pieces writes it densely. So sheets that differ in
comments and layout only have the same minified text. -/
theorem Sheet.minified_text (sheet : Sheet) (inert : sheet.Inert) :
    minified sheet.text = sheet.dense ∧
      ∀ other : Sheet, other.Inert → other.content = sheet.content →
        minified other.text = minified sheet.text := by
  have dense (sheet : Sheet) (inert : sheet.Inert) : minified sheet.text = sheet.dense := by
    have whole := Sheet.minified_textWith Listing.of_text inert
      (by rw [sheet.unfolded_singleton]; exact inert)
    rwa [sheet.unfolded_singleton] at whole
  refine ⟨dense sheet inert, ?_⟩
  intro other otherInert same
  rw [dense other otherInert, dense sheet inert, other.dense_eq_content, same,
    ← sheet.dense_eq_content]

theorem Sheet.minified_text_card :
    let card : StyleRule := ⟨".card", [⟨"margin", "0 auto"⟩], .expanded⟩
    let titled : Sheet := ⟨[.comment "Cards", .rule card]⟩
    let compact : Sheet := ⟨[.rule { card with style := .compact }]⟩
    titled.Inert ∧ compact.Inert ∧ compact.content = titled.content ∧
      minified titled.text = titled.dense ∧ minified compact.text = minified titled.text := by
  intro card titled compact
  have inert : card.Inert := {
    selector := .of_not_mem (by simp [card, isValueChar]) (by simp [card])
    declarations := by
      intro declaration member
      obtain rfl := List.mem_singleton.mp member
      exact ⟨.of_not_mem (by simp [isValueChar]) (by simp),
        .of_not_mem (by simp [isValueChar]) (by simp)⟩ }
  have compactInert : compact.Inert := List.forall_mem_singleton.mpr ⟨inert.1, inert.2⟩
  have titledInert : titled.Inert := by
    refine List.forall_mem_cons.mpr ⟨?_, List.forall_mem_singleton.mpr inert⟩
    simp [Block.Inert, ClosesComment, pair_infix_cons_iff]
  have same : compact.content = titled.content := rfl
  have whole := Sheet.minified_text titled titledInert
  exact ⟨titledInert, compactInert, same, whole.1, whole.2 compact compactInert same⟩

end ThemeCss
