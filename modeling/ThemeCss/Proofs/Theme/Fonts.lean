import ThemeCss.Proofs.Minified.Quoted
import ThemeCss.Proofs.Theme.Palette

/-! # Quoted names of fonts

A font stack goes into the sheet as it is, and all passes over the sheet take it for text: none of
them knows of quotation marks. So a quoted name comes out of minifying shortened like everything
around it. It may be lost altogether where something in front of it opens a comment, or have copies
put into it where a declaration begins in it; apart from that it stays in its quotation marks.
-/

namespace ThemeCss

/-- A font of a stack, by a name in quotation marks or without them. -/
inductive FontName where
  | quoted (name : List Char)
  | plain (name : List Char)

namespace FontName

def text : FontName → List Char
  | quoted name => '"' :: (name ++ ['"'])
  | plain name => name

/-- A quoted name has no quotation mark, backslash or end of a line in it, any other name no
quotation mark and no comma. -/
def WellFormed : FontName → Prop
  | quoted name => ∀ c ∈ name, c ≠ '"' ∧ c ≠ '\\' ∧ c ≠ '\n'
  | plain name => ∀ c ∈ name, c ≠ '"' ∧ c ≠ ','

end FontName

/-- The text of a font stack: fonts with commas between them, and blanks around each. -/
inductive IsFontStack : List FontName → List Char → Prop where
  | last {font : FontName} {front back : List Char} (wellFormed : font.WellFormed)
      (before : IsBlankText front) (after : IsBlankText back) :
      IsFontStack [font] (front ++ (font.text ++ back))
  | cons {font : FontName} {fonts : List FontName} {front back rest : List Char}
      (wellFormed : font.WellFormed) (before : IsBlankText front) (after : IsBlankText back)
      (further : IsFontStack fonts rest) :
      IsFontStack (font :: fonts) (front ++ (font.text ++ (back ++ ',' :: rest)))

/-- A quoted name stands whole in the stack. -/
theorem IsFontStack.showsName {earlier later : List FontName} {name main : List Char}
    (stack : IsFontStack (earlier ++ .quoted name :: later) main)
    (unopened : ∀ font ∈ earlier ++ [.quoted name], ¬ OpensComment font.text) :
    ShowsName name main := by
  induction earlier generalizing main with
  | nil =>
    have own : ShowsName name (FontName.quoted name).text := by
      have single := unopened (.quoted name) List.mem_cons_self
      exact ⟨[], [], rfl, fun opened => single (opened.trans ⟨[], ['"'], rfl⟩)⟩
    generalize whole : [] ++ FontName.quoted name :: later = fonts at stack
    cases stack with
    | last wellFormed before after =>
      obtain ⟨rfl, -⟩ := List.cons.inj whole
      exact (own.append _).shut_append before.isShut
    | cons wellFormed before after further =>
      obtain ⟨rfl, -⟩ := List.cons.inj whole
      exact (own.append _).shut_append before.isShut
  | cons font earlier ih =>
    obtain ⟨single, others⟩ := List.forall_mem_cons.mp unopened
    generalize whole : font :: earlier ++ FontName.quoted name :: later = fonts at stack
    cases stack with
    | last wellFormed before after => simp at whole
    | @cons _ _ front back rest wellFormed before after further =>
      obtain ⟨rfl, rfl⟩ := List.cons.inj whole
      have shut : IsShut ['/', '*'] (front ++ (font.text ++ back) ++ [',']) := by
        refine .concat ?_ (by decide) (by decide)
        exact before.isShut _ (not_opensComment_append_blank single after)
      simpa using (ih further others).shut_append shut

theorem isFontStack_pair {name other : List Char} (first : (FontName.quoted name).WellFormed)
    (second : (FontName.plain other).WellFormed) :
    IsFontStack [.quoted name, .plain other] ('"' :: (name ++ '"' :: ',' :: ' ' :: other)) := by
  have space : IsBlankText [' '] := by simp
  simpa [FontName.text] using IsFontStack.cons first .nil .nil (.last second space .nil)

/-- Behind a comment, and whatever stands in front of that, a quoted name is kept. -/
theorem ShowsName.exists_stripComments {comment front bare name text : List Char}
    (cleared : IsCleared comment '\n' front bare) (shown : ShowsName name text) :
    ∃ before behind, stripComments (front ++ '\n' :: (comment ++ '\n' :: text)) =
      before ++ '"' :: (name ++ '"' :: behind) := by
  obtain ⟨before, behind, rfl, unopened⟩ := shown
  have split : before ++ '"' :: (name ++ '"' :: behind) =
      before ++ '"' :: name ++ '"' :: behind := by simp
  refine ⟨bare ++ '\n' :: before, stripComments behind, ?_⟩
  rw [split, cleared.stripComments_eq unopened (by decide) (by decide)]
  simp

/-- Texts with a character between them are texts behind that character. -/
theorem cons_intercalate {α : Type} (c : α) {texts : List (List α)} (nonempty : texts ≠ []) :
    c :: [c].intercalate texts = texts.flatMap (c :: ·) := by
  induction texts with
  | nil => contradiction
  | cons text rest ih =>
    cases rest with
    | nil => simp
    | cons next rest =>
      rw [List.intercalate_cons_cons, List.flatMap_cons, ← ih (List.cons_ne_nil next rest)]
      simp

namespace Theme

variable {theme : Theme}

/-- The banner is the only text in front of the sections. -/
theorem readable_eq (theme : Theme) :
    theme.readable = banner ++ "\n" ++ withVendorCopies theme.sheet.text := by
  obtain ⟨tail, opens⟩ := theme.toList_text_sheet
  rw [← String.toList_inj, readable, withVendorCopies, withVendorCopies, String.toList_append,
    opens, local_addVendorCopies.quiet_append (by simp [banner]) (by simp)]
  simp

/-- Behind the banner every section is written behind an empty line. -/
theorem toList_readable (theme : Theme) : theme.readable.toList = banner.toList ++
    theme.sections.flatMap fun part => '\n' :: (withVendorCopies part.text).toList := by
  have nonempty : theme.sections ≠ [] := List.cons_ne_nil _ _
  have lines : '\n' :: ['\n'].intercalate
      (theme.sections.map (String.toList ∘ fun part => withVendorCopies part.text)) =
      theme.sections.flatMap fun part => '\n' :: (withVendorCopies part.text).toList := by
    rw [cons_intercalate '\n' (by simpa using nonempty), List.flatMap_map]
    rfl
  rw [readable_eq, sheet, Sheet.withVendorCopies_merged nonempty theme.isSection_of_mem_sections,
    String.toList_append, String.toList_append, String.toList_intercalate, List.map_map, ← lines]
  simp

/-- The section of the fonts stands behind the palette. -/
theorem exists_toList_readable (theme : Theme) : ∃ more, theme.readable.toList =
    (banner.toList ++ '\n' :: (withVendorCopies theme.palette.text).toList) ++
      '\n' :: ((withVendorCopies theme.text.text).toList ++ more) := by
  obtain ⟨rest, split⟩ : ∃ rest, theme.sections = theme.palette :: theme.text :: rest := ⟨_, rfl⟩
  refine ⟨rest.flatMap fun part => '\n' :: (withVendorCopies part.text).toList, ?_⟩
  rw [toList_readable, split, List.flatMap_cons, List.flatMap_cons]
  simp

/-- The section of the fonts below its title. -/
def fontRules (theme : Theme) : Sheet :=
  ⟨[.rule (Page.bodyRule theme), .rule (Page.headingRule theme)]⟩

theorem toList_withVendorCopies_fonts (theme : Theme) : (withVendorCopies theme.text.text).toList =
    Sheet.titleLine "Typography" ++ '\n' :: addVendorCopies theme.fontRules.text.toList :=
  Sheet.withVendorCopies_titled (by simp) (by simp [Page.bodyRule])

/-- The page has the font stack in its first declaration. -/
theorem exists_toList_fontRules (theme : Theme) : ∃ front more, IsShut ['/', '*'] front ∧
    theme.fontRules.text.toList = front ++ (theme.typography.main.toList ++ more) := by
  obtain ⟨opening, before, behind, closing, opens, starts, -, -, lines⟩ :=
    (Page.bodyRule theme).exists_toList_textWith "" (by simp)
  have selector : IsShut ['/', '*'] "body \x7b".toList := .of_not_mem (by simp)
  have property : IsShut ['/', '*'] "font-family: ".toList := .of_not_mem (by simp)
  have whole : ∃ more, theme.fontRules.text.toList =
      ("body \x7b".toList ++ (opening ++ (before ++ "font-family: ".toList))) ++
        (theme.typography.main.toList ++ more) := by
    rw [fontRules, Sheet.toList_text_cons, Block.textWith, lines]
    simp [Page.bodyRule, Declaration.toList_text]
  obtain ⟨more, same⟩ := whole
  exact ⟨_, more, selector.append (opens.isShut.append (starts.isShut.append property)), same⟩

/-- Unless a comment opens in the font stack in front of its end, or can come forth in the palette,
a quoted name is in the text that is left without comments. -/
theorem exists_stripComments_readable {name : List Char}
    (colors : ∀ color ∈ theme.colors.names, ¬ OpensBehindSlash color.toList)
    (shown : ShowsName name theme.typography.main.toList)
    (absent : ∀ rule ∈ vendorRules, ¬ rule.BeginsIn name) : ∃ before behind,
    stripComments theme.readable.toList = before ++ '"' :: (name ++ '"' :: behind) := by
  obtain ⟨more, whole⟩ := theme.exists_toList_readable
  obtain ⟨front, rest, shut, body⟩ := theme.exists_toList_fontRules
  have title : IsComment (Sheet.titleLine "Typography") := Sheet.isComment_titleLine (by decide)
  have unslashed : ¬ OpensBehindSlash
      (banner.toList ++ '\n' :: (withVendorCopies theme.palette.text).toList) := by
    rw [OpensBehindSlash, infix_append_cons_iff IsCommentMark.nonempty (by decide), not_or]
    exact ⟨by decide, not_opensBehindSlash_palette colors⟩
  obtain ⟨bare, cleared⟩ : ∃ bare, IsCleared _ '\n' _ bare :=
    exists_isCleared title (by decide) (by decide) unslashed
  have stack : ShowsName name theme.fontRules.text.toList :=
    body ▸ (shown.append rest).shut_append shut
  have stripped := ((stack.addVendorCopies absent).append more).exists_stripComments cleared
  rw [whole, toList_withVendorCopies_fonts]
  simpa using stripped

/-- A quoted name of a font stands in the minified artifact in its quotation marks, with the blanks
around punctuation dropped, the semicolons in front of closing braces dropped, and other stretches
of blanks as single spaces. So it is there as it was configured if it has nothing of this kind. No
font up to it may open a comment, and no declaration that is copied may begin in it. A comment that
the name of a colour opens ends at the title of the fonts, unless it only comes forth when another
one is taken out. -/
theorem quotedName_minified {earlier later : List FontName} {name : List Char}
    (stack : IsFontStack (earlier ++ .quoted name :: later) theme.typography.main.toList)
    (fonts : ∀ font ∈ earlier ++ [.quoted name], ¬ OpensComment font.text)
    (colors : ∀ color ∈ theme.colors.names, ¬ OpensBehindSlash color.toList)
    (absent : ∀ rule ∈ vendorRules, ¬ rule.BeginsIn name) :
    '"' :: (shortened name ++ ['"']) <:+: theme.compile.minified.toList ∧
      (IsShort name → (FontName.quoted name).text <:+: theme.compile.minified.toList) := by
  obtain ⟨before, behind, stripped⟩ :=
    exists_stripComments_readable colors (stack.showsName fonts) absent
  have kept : '"' :: (shortened name ++ ['"']) <:+: theme.compile.minified.toList := by
    have whole : theme.compile.minified.toList = minifyText theme.readable.toList := by
      rw [compile, minified, String.toList_ofList]
    rw [whole]
    exact quoted_infix_minifyText stripped
  exact ⟨kept, fun short => short.shortened_eq ▸ kept⟩

/-- A name of two words is kept. -/
theorem quotedName_minified_openSans :
    let theme : Theme := { ofColors shore with typography := ⟨"\"Open Sans\", serif", "Georgia"⟩ }
    IsFontStack [.quoted "Open Sans".toList, .plain "serif".toList] theme.typography.main.toList ∧
      (∀ color ∈ theme.colors.names, ¬ OpensBehindSlash color.toList) ∧
      "\"Open Sans\"".toList <:+: theme.compile.minified.toList := by
  intro theme
  have letters : "Open Sans".toList = ['O', 'p', 'e', 'n', ' ', 'S', 'a', 'n', 's'] := by simp
  have stack : IsFontStack ([] ++ .quoted "Open Sans".toList :: [.plain "serif".toList])
      theme.typography.main.toList := by
    have pair := @isFontStack_pair "Open Sans".toList "serif".toList (by simp [FontName.WellFormed])
      (by simp [FontName.WellFormed])
    simpa [theme] using pair
  have fonts : ∀ font ∈ [] ++ [FontName.quoted "Open Sans".toList], ¬ OpensComment font.text :=
    List.forall_mem_singleton.mpr (not_opensComment_of_not_mem (by simp [FontName.text]))
  have colors : ∀ color ∈ theme.colors.names, ¬ OpensBehindSlash color.toList := by decide
  have absent : ∀ rule ∈ vendorRules, ¬ rule.BeginsIn "Open Sans".toList :=
    fun rule known begins => absurd (begins.mem_colon (isBare_of_mem_vendorRules rule known))
      (by simp)
  have short : IsShort "Open Sans".toList := by
    rw [letters]
    exact ⟨by decide, by decide, by simp [isBlank], by decide⟩
  have kept := (theme.quotedName_minified stack fonts colors absent).2 short
  exact ⟨stack, colors, by simpa [FontName.text] using kept⟩

/-- Minifying changes what stands in quotation marks. -/
theorem quotedName_minified_refuted : ¬ ∀ (text : String) (theme : Theme)
    (diagnostics : List Diagnostic), ofJson text = .ok theme → theme.check = .ok diagnostics →
      ∀ fonts, IsFontStack fonts theme.typography.main.toList → ∀ name, .quoted name ∈ fonts →
        (FontName.quoted name).text <:+: theme.compile.minified.toList := by
  intro claim
  obtain ⟨text, theme, diagnostics, read, checked, -, typography⟩ :=
    exists_accepted shore ⟨"\"A, B\", serif", "Georgia"⟩
  have stack : IsFontStack [.quoted "A, B".toList, .plain "serif".toList]
      theme.typography.main.toList := by
    have pair := @isFontStack_pair "A, B".toList "serif".toList (by simp [FontName.WellFormed])
      (by simp [FontName.WellFormed])
    rw [typography]
    simpa using pair
  have inside := claim text theme diagnostics read checked _ stack _ List.mem_cons_self
  have normal : IsNormal theme.compile.minified.toList := by
    rw [compile, minified, String.toList_ofList]
    exact isNormal_minifyText _
  have spaced : [',', ' '] <:+: (FontName.quoted "A, B".toList).text :=
    ⟨['"', 'A'], ['B', '"'], by simp [FontName.text]⟩
  have tight := normal.tight.infix (spaced.trans inside)
  simp [isPunctuation] at tight

end Theme

end ThemeCss
