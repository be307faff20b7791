import ThemeCss.Proofs.Minified.Escaped
import ThemeCss.Proofs.Sheet.Titled

/-! # Where the selectors of classes stand

In the text of a sheet there are only braces, blanks and titles in front of a selector. A colon in
the name of a class stands behind a backslash, where no property ends. So the copies that are put
into a sheet leave the selectors of classes alone, whatever names the classes have.
-/

namespace ThemeCss

/-- Every colon of the text is behind a backslash. -/
def EscapesColons (text : List Char) : Prop :=
  ∀ front behind, text = front ++ ':' :: behind → front.getLast? = some '\\'

namespace EscapesColons

variable {first second text : List Char}

theorem of_not_mem (absent : ':' ∉ text) : EscapesColons text := by
  rintro front behind rfl
  simp at absent

theorem append (left : EscapesColons first) (right : EscapesColons second) :
    EscapesColons (first ++ second) := by
  intro front behind whole
  rcases append_cons_eq_append whole.symm with ⟨more, rfl, -⟩ | ⟨more, rfl, rfl⟩
  · exact left front more rfl
  · rw [List.getLast?_append, right more behind rfl, Option.some_or]

theorem escapeNameChar (c : Char) : EscapesColons (escapeNameChar c) := by
  by_cases colon : c = ':'
  · subst colon
    intro front behind whole
    have letters : ['\\', ':'] = front ++ ':' :: behind := whole
    cases front with
    | nil => simp at letters
    | cons d front =>
      obtain ⟨rfl, split⟩ := List.cons.inj letters
      cases front with
      | nil => rfl
      | cons e front => simp at split
  · refine of_not_mem ?_
    rw [ThemeCss.escapeNameChar]
    split
    · simpa using Ne.symm colon
    · simpa using Ne.symm colon

theorem flatMap_escapeNameChar (name : List Char) :
    EscapesColons (name.flatMap ThemeCss.escapeNameChar) := by
  induction name with
  | nil => exact of_not_mem List.not_mem_nil
  | cons c rest ih => exact (escapeNameChar c).append ih

theorem escapeName (name : List Char) : EscapesColons (escapeName name) := by
  cases name with
  | nil => exact of_not_mem List.not_mem_nil
  | cons c rest =>
    rw [escapeName_cons, escapeFirstChar]
    refine append ?_ (flatMap_escapeNameChar rest)
    split
    · next digit =>
      refine of_not_mem ?_
      simp only [List.mem_cons, List.not_mem_nil, or_false, not_or]
      refine ⟨by decide, by decide, ?_, by decide⟩
      rintro rfl
      contradiction
    · exact escapeNameChar c

/-- No property of the table ends in a backslash, so nothing is copied in such a text. -/
theorem addVendorCopies_eq (escapes : EscapesColons text) : addVendorCopies text = text := by
  have table : (vendorRules.all fun rule => rule.property.toList.all isNameChar) = true := rfl
  refine List.foldlRecOn (motive := fun copied => copied = text) vendorRules _ rfl
    fun copied same rule member => ?_
  have wellFormed := wellFormed_of_mem_vendorRules rule member
  subst same
  refine (VendorRule.apply_eq_rewrite rule copied).trans
    (VendorRule.rewrite_eq_self wellFormed fun front declaration behind whole declares => ?_)
  obtain ⟨shown, -, rfl⟩ := declares
  have last := escapes (front ++ rule.property.toList) (shown ++ [';'] ++ behind) (by simp [whole])
  have nonempty : rule.property.toList ≠ [] := by simpa using wellFormed.property.1
  rw [List.getLast?_append_of_ne_nil _ nonempty] at last
  have named := List.all_eq_true.mp (List.all_eq_true.mp table rule member) '\\'
    (List.mem_of_getLast? last)
  contradiction

end EscapesColons

/-- Behind its last brace the text has nothing but blanks, the first of them the end of the line if
the brace closes. -/
inductive IsCut : List Char → Prop where
  | blank {gap : List Char} (blank : IsBlankText gap) : IsCut gap
  | opened (front : List Char) {gap : List Char} (blank : IsBlankText gap) :
    IsCut (front ++ '{' :: gap)
  | closed (front : List Char) {gap : List Char} (blank : IsBlankText gap) :
    IsCut (front ++ '}' :: '\n' :: gap)

theorem EndsBraced.isCut {text : List Char} (ends : EndsBraced text) : IsCut text := by
  obtain ⟨body, rfl⟩ := ends
  exact .closed body .nil

namespace IsCut

variable {text gap : List Char}

theorem append_blank (cut : IsCut text) (blank : IsBlankText gap) : IsCut (text ++ gap) := by
  cases cut with
  | blank before => exact .blank (before.append blank)
  | opened front before => simpa using IsCut.opened front (before.append blank)
  | closed front before => simpa using IsCut.closed front (before.append blank)

/-- What is behind the place gets its copies on its own. -/
theorem addVendorCopies_append (cut : IsCut text) (rest : List Char) :
    addVendorCopies (text ++ rest) = addVendorCopies text ++ addVendorCopies rest := by
  have isLocal := local_addVendorCopies
  have alone {gap : List Char} (blank : IsBlankText gap) : addVendorCopies gap = gap := by
    simpa [isLocal.nil] using isLocal.blanks blank []
  cases cut with
  | blank blank => rw [isLocal.blanks blank, alone blank]
  | opened front blank =>
    rw [List.append_assoc, List.cons_append, isLocal.opening, isLocal.opening, isLocal.blanks blank,
      alone blank, List.append_assoc, List.cons_append]
  | @closed front gap blank =>
    have spaced : IsBlankText ('\n' :: gap) := IsBlankText.cons_iff.mpr ⟨rfl, blank⟩
    rw [List.append_assoc, List.cons_append, isLocal.closing _ _ (by simp),
      isLocal.closing _ _ (by simp), isLocal.blanks spaced, alone spaced, List.append_assoc,
      List.cons_append, List.cons_append, List.cons_append]

/-- Copies are put in in front of a selector and behind its brace. -/
theorem addVendorCopies_selector (cut : IsCut text) {selector : List Char}
    (escapes : EscapesColons selector) (behind : List Char) :
    addVendorCopies (text ++ (selector ++ ' ' :: '{' :: behind)) =
      addVendorCopies text ++ (selector ++ ' ' :: '{' :: addVendorCopies behind) := by
  have line : EscapesColons (selector ++ [' ']) := escapes.append (.of_not_mem (by simp))
  have split (rest : List Char) : selector ++ ' ' :: '{' :: rest =
      (selector ++ [' ']) ++ '{' :: rest := by simp
  rw [cut.addVendorCopies_append, split, local_addVendorCopies.opening, line.addVendorCopies_eq,
    ← split]

end IsCut

/-- The selector stands in the text in front of an opening brace. Where the text itself stands at
such a place, so does the selector. -/
def ShowsSelector (before selector text : List Char) : Prop :=
  (∃ behind, text = before ++ (selector ++ ' ' :: '{' :: behind)) ∧
    ∀ front, IsCut front → IsCut (front ++ before)

section Shown

variable {rule : StyleRule}

theorem StyleRule.showsSelector (rule : StyleRule) {indent : String}
    (blank : IsBlankText indent.toList) : ShowsSelector indent.toList rule.selector.toList
      (rule.textWith Declaration.text indent).toList := by
  obtain ⟨opening, before, behind, closing, -, -, -, -, lines⟩ :=
    rule.exists_toList_textWith indent blank
  refine ⟨⟨opening ++ (rule.declarations.flatMap fun declaration =>
    before ++ declaration.text.toList ++ behind) ++ closing ++ '}' :: ['\n'], ?_⟩,
    fun front cut => cut.append_blank blank⟩
  rw [lines]
  simp

/-- A selector is shown behind texts that end with a closing brace. -/
theorem exists_showsSelector_flatMap {α : Type} {items : List α} {written : α → List Char}
    (ends : ∀ item ∈ items, EndsBraced (written item)) {item : α} (member : item ∈ items)
    {before selector : List Char} (shown : ShowsSelector before selector (written item)) :
    ∃ more, ShowsSelector more selector (items.flatMap written) := by
  obtain ⟨earlier, later, rfl⟩ := List.append_of_mem member
  obtain ⟨⟨behind, own⟩, keeps⟩ := shown
  refine ⟨earlier.flatMap written ++ before, ⟨behind ++ later.flatMap written, ?_⟩, ?_⟩
  · simp [own]
  · intro front cut
    rw [← List.append_assoc]
    refine keeps _ ?_
    rcases List.eq_nil_or_concat earlier with rfl | ⟨first, last, rfl⟩
    · simpa using cut
    · have braced := ends last (by simp)
      simpa using ((braced.append (first.flatMap written)).append front).isCut

theorem Block.exists_showsSelector {block : Block} (member : rule ∈ block.rules) :
    ∃ before, ShowsSelector before rule.selector.toList
      (block.textWith Declaration.text).toList := by
  cases block with
  | comment text => contradiction
  | rule single =>
    obtain rfl := List.mem_singleton.mp member
    exact ⟨_, rule.showsSelector (by simp)⟩
  | media query rules =>
    have indented : IsBlankText "  ".toList := by simp
    have newline : IsBlankText ['\n'] := by simp
    have member : rule ∈ rules := member
    obtain ⟨before, ⟨behind, inside⟩, keeps⟩ := exists_showsSelector_flatMap
      (fun rule _ => rule.endsBraced Declaration.text indented) member
      (rule.showsSelector indented)
    refine ⟨"@media ".toList ++ query.toList ++ [' '] ++ '{' :: ('\n' :: before),
      ⟨behind ++ '}' :: ['\n'], ?_⟩, fun front _ => ?_⟩
    · rw [Block.toList_textWith_media, inside]
      simp
    · have opened := IsCut.opened (front ++ "@media ".toList ++ query.toList ++ [' ']) newline
      simpa using keeps _ opened

end Shown

namespace Sheet

variable {blocks : List Block} {rule : StyleRule}

theorem toList_text_of_braced (braced : ∀ block ∈ blocks, block.IsBraced) :
    (Sheet.mk blocks).text.toList =
      blocks.flatMap fun block => (block.textWith Declaration.text).toList := by
  cases blocks with
  | nil => rfl
  | cons first others =>
    rw [toList_text_cons, List.flatMap_cons]
    refine congrArg _ (List.flatMap_congr fun block member => ?_)
    have known := braced block (List.mem_cons_of_mem first member)
    cases block with
    | comment text => exact known.elim
    | rule single => rfl
    | media query rules => rfl

/-- What is behind some blocks in a sheet is written behind their text. -/
theorem exists_toList_text_append (nonempty : blocks ≠ []) (others : List Block) :
    ∃ more, (Sheet.mk (blocks ++ others)).text.toList = (Sheet.mk blocks).text.toList ++ more := by
  obtain ⟨first, rest, rfl⟩ := List.exists_cons_of_ne_nil nonempty
  refine ⟨others.flatMap fun block => (block.textBehindWith Declaration.text).toList, ?_⟩
  rw [List.cons_append, toList_text_cons, toList_text_cons, List.flatMap_append, List.append_assoc]

/-- The selector of a rule in braces is shown in the sheet. -/
theorem exists_showsSelector (braced : ∀ block ∈ blocks, block.IsBraced)
    (member : rule ∈ blocks.flatMap Block.rules) :
    ∃ before, ShowsSelector before rule.selector.toList (Sheet.mk blocks).text.toList := by
  obtain ⟨block, known, inside⟩ := List.mem_flatMap.mp member
  obtain ⟨before, shown⟩ := Block.exists_showsSelector inside
  rw [toList_text_of_braced braced]
  exact exists_showsSelector_flatMap
    (fun block member => (braced block member).endsBraced Declaration.text) known shown

/-- The sheet is a title and blocks below it, the first of them a rule, and the given rule is in one
of those that come before any other comment. -/
inductive Lists : Sheet → StyleRule → Prop where
  | intro {title : String} {first rule : StyleRule} {blocks others : List Block}
    (quiet : ';' ∉ title.toList) (unclosed : ¬ ClosesComment title.toList)
    (unbroken : ';' ∉ first.selector.toList) (braced : ∀ block ∈ blocks, block.IsBraced)
    (member : rule ∈ (Block.rule first :: blocks).flatMap Block.rules) :
    Lists (Sheet.titled title (.rule first :: blocks ++ others)) rule

/-- A rule that is listed keeps its selector when copies are put in, and only the title opens a
comment in front of it. -/
theorem Lists.exists_toList {sheet : Sheet} (lists : sheet.Lists rule)
    (lacks : ∀ block ∈ sheet.blocks, block.IsBraced → block.Lacks ['/', '*'])
    (escapes : EscapesColons rule.selector.toList) :
    ∃ title before behind, ¬ ClosesComment title.toList ∧ ¬ OpensComment before ∧
      (withVendorCopies sheet.text).toList = titleLine title ++
        '\n' :: (before ++ (rule.selector.toList ++ ' ' :: '{' :: behind)) := by
  obtain @⟨title, first, rule, blocks, others, quiet, unclosed, unbroken, braced, member⟩ := lists
  have each : ∀ block ∈ Block.rule first :: blocks, block.IsBraced :=
    List.forall_mem_cons.mpr ⟨trivial, braced⟩
  have own : ∀ block ∈ Block.rule first :: blocks, block.Lacks ['/', '*'] := fun block known =>
    lacks block (List.mem_cons_of_mem _ (List.mem_append_left others known)) (each block known)
  obtain ⟨before, ⟨behind, shown⟩, keeps⟩ := exists_showsSelector each member
  obtain ⟨more, whole⟩ := exists_toList_text_append (List.cons_ne_nil _ blocks) others
  have cut : IsCut before := by simpa using keeps [] (.blank .nil)
  have unopened : ¬ OpensComment before := fun opened =>
    (Sheet.isShut_text own).unmarked (opened.trans (shown ▸ (List.prefix_append before _).isInfix))
  refine ⟨title, addVendorCopies before, addVendorCopies (behind ++ more), unclosed,
    not_infix_addVendorCopies unopened, ?_⟩
  have copied := cut.addVendorCopies_selector escapes (behind ++ more)
  rw [List.cons_append, withVendorCopies_titled quiet unbroken, ← List.cons_append, whole, shown,
    ← copied]
  simp

end Sheet

end ThemeCss
