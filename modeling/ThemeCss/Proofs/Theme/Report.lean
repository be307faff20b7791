import ThemeCss.Proofs.Minified.Size
import ThemeCss.Proofs.Report.Table
import ThemeCss.Proofs.Theme.Artifacts
import ThemeCss.Proofs.Theme.Selectors

/-! # Reports of compiled themes

The minified artifact lacks at least the banner, so it is always the smaller one, and whether its
size and the ratio fit the table can be told from the two sizes. Nothing bounds the sizes themselves:
a long name of a colour is enough to move a line of the table.
-/

namespace ThemeCss

open String (utf8Len utf8Len_append utf8Len_cons)

theorem utf8Len_bannerWords : utf8Len bannerWords = 53 := by decide

namespace Theme

variable (theme : Theme)

/-- The banner is missing from the minified artifact with all of its bytes but the last. -/
theorem size_compile :
    theme.compile.minified.utf8ByteSize + 57 ≤ theme.compile.readable.utf8ByteSize := by
  obtain ⟨rest, text⟩ : ∃ rest, theme.readable.toList =
      '/' :: '*' :: (bannerWords ++ '*' :: '/' :: rest) := by
    rw [toList_readable, toList_banner_eq]
    exact ⟨'\n' :: (theme.sections.flatMap fun part => '\n' :: (withVendorCopies part.text).toList),
      by simp⟩
  have minified := utf8Len_minifyText_comment_le not_closesComment_bannerWords rest
  have marks : '/'.utf8Size = 1 ∧ '*'.utf8Size = 1 := ⟨rfl, rfl⟩
  have readable : utf8Len theme.readable.toList = utf8Len rest + 57 := by
    rw [text, utf8Len_cons, utf8Len_cons, utf8Len_append, utf8Len_cons, utf8Len_cons,
      utf8Len_bannerWords]
    omega
  rw [← text] at minified
  rw [← String.utf8Len_toList, ← String.utf8Len_toList, compile, readable, ThemeCss.minified,
    String.toList_ofList]
  omega

/-- The report of what a theme is compiled to. -/
def report : Report := .ofArtifacts theme.compile

theorem not_mem_fingerprint_report : '\n' ∉ theme.report.fingerprint.toList :=
  not_mem_fingerprint theme.compile.readable

theorem length_fingerprint_report : theme.report.fingerprint.length = 12 :=
  length_fingerprint theme.compile.readable

theorem length_lines_report : (lines theme.report.table).length = 6 := by
  rw [Report.lines_table theme.not_mem_fingerprint_report, List.length_map]
  rfl

theorem isAligned_report_iff : IsAligned theme.report.table ↔
    theme.report.classCount < 10 ^ 14 ∧ theme.report.readableBytes < 10 ^ 12 ∧
      (theme.report.minifiedBytes < 10 ^ 4 ∨ theme.report.minifiedBytes < 10 ^ 5 ∧
        2000 * theme.report.minifiedBytes < 199 * theme.report.readableBytes) := by
  have short : theme.report.fingerprint.length ≤ 14 :=
    theme.length_fingerprint_report.trans_le (by decide)
  rw [Report.isAligned_table_iff theme.not_mem_fingerprint_report short]
  exact and_congr_right fun _ => and_congr_right fun few =>
    Report.minifiedCell_fits_iff theme.size_compile few

/-- The six lines of a report are of one length as long as the count and the sizes have not too many
digits: the size of the minified artifact has at most four, or five if the ratio to the other size
is less than ten per cent. -/
theorem table_report :
    (lines theme.report.table).length = 6 ∧
      (IsAligned theme.report.table ↔
        theme.report.classCount < 10 ^ 14 ∧ theme.report.readableBytes < 10 ^ 12 ∧
          (theme.report.minifiedBytes < 10 ^ 4 ∨ theme.report.minifiedBytes < 10 ^ 5 ∧
            2000 * theme.report.minifiedBytes < 199 * theme.report.readableBytes)) :=
  ⟨theme.length_lines_report, theme.isAligned_report_iff⟩

variable {theme}

/-- The name of a colour is in the minified artifact. -/
theorem Uncommented.length_le_minifiedBytes (own : theme.Uncommented) {color : String}
    (known : color ∈ theme.colors.names) (solid : ∀ c ∈ color.toList, isBlank c = false) :
    color.length ≤ theme.report.minifiedBytes := by
  obtain ⟨before, behind, stripped⟩ := own.exists_stripComments_readable (mem_rules_textClass known)
  have named : (labelled none (Palette.textClass color "").name).toList =
      ['t', 'e', 'x', 't', '-'] ++ color.toList := by
    simp [labelled, Palette.textClass, toString]
  rw [named] at stripped
  have inner : HasInnerSpaces (['t', 'e', 'x', 't', '-'] ++ color.toList) :=
    .of_solid (List.forall_mem_append.mpr ⟨by simp [isBlank], solid⟩)
  have inside := (selector_minifyText stripped (by simp)).2.mpr inner
  have bytes : theme.report.minifiedBytes = utf8Len (minifyText theme.readable.toList) :=
    String.utf8ByteSize_ofList (minifyText theme.readable.toList)
  have escaped := length_le_length_escapeName (['t', 'e', 'x', 't', '-'] ++ color.toList)
  have kept := inside.length_le.trans (length_le_utf8Len _)
  rw [List.length_append, String.length_toList] at escaped
  rw [List.length_append, List.length_cons, ← bytes] at kept
  omega

theorem Uncommented.of_keeps {again : Theme} (own : theme.Uncommented) (keeps : theme.Keeps again) :
    again.Uncommented where
  colors := keeps.colors ▸ own.colors
  widths := by
    have each := keeps.layout.breakpoints
    have plain := own.widths
    generalize theme.layout.breakpoints.entries = widths at each plain
    generalize again.layout.breakpoints.entries = others at each
    induction each with
    | nil => exact List.forall_mem_nil _
    | cons first _ ih =>
      obtain ⟨single, rest⟩ := List.forall_mem_cons.mp plain
      exact List.forall_mem_cons.mpr ⟨first.2.unit ▸ single, ih rest⟩
  main := keeps.typography ▸ own.main
  headlines := keeps.typography ▸ own.headlines
  duration := keeps.transition ▸ own.duration
  easing := keeps.transition ▸ own.easing
  container := keeps.layout.container.unit ▸ own.container
  baseUnit := keeps.baseUnit.unit ▸ own.baseUnit

/-- A name of a hundred thousand letters takes a line of the report out of the table. -/
theorem table_report_refuted : ¬ ∀ (text : String) (theme : Theme)
    (diagnostics : List Diagnostic), ofJson text = .ok theme → theme.check = .ok diagnostics →
      IsAligned theme.report.table := by
  intro claim
  obtain ⟨name, letters⟩ : ∃ name : String, name.toList = List.replicate (10 ^ 5) 'a' :=
    ⟨String.ofList _, String.toList_ofList⟩
  let colors : Catalog Color := ⟨[(name, ⟨0, 0x66, 0xcc⟩)], List.nodup_singleton _⟩
  obtain ⟨text, theme, diagnostics, read, checked, keeps⟩ :=
    exists_accepted_keeps colors ⟨"Inter", "Georgia"⟩ []
  have names : theme.colors.names = [name] := congrArg Catalog.names keeps.colors
  have plain : ¬ OpensComment name.toList := by
    intro opened
    have slash : '/' ∈ name.toList := opened.subset (by simp)
    rw [letters] at slash
    exact absurd (List.eq_of_mem_replicate slash) (by decide)
  have fonts : ¬ OpensComment "Inter".toList ∧ ¬ OpensComment "Georgia".toList := by decide
  have timing : ¬ OpensComment "0.3s".toList ∧ ¬ OpensComment "ease".toList := by decide
  have pixels : ¬ OpensComment "px".toList := by decide
  have written : Uncommented { ofColors colors with typography := ⟨"Inter", "Georgia"⟩ } :=
    ⟨fun other member => List.mem_singleton.mp member ▸ plain, List.forall_mem_nil _, fonts.1,
      fonts.2, timing.1, timing.2, pixels, pixels⟩
  have own := written.of_keeps keeps
  have solid : ∀ c ∈ name.toList, isBlank c = false := by
    intro c member
    rw [letters] at member
    rw [List.eq_of_mem_replicate member]
    rfl
  have long := own.length_le_minifiedBytes (names ▸ List.mem_singleton_self name) solid
  rw [← String.length_toList, letters, List.length_replicate] at long
  obtain ⟨-, -, few⟩ := theme.isAligned_report_iff.mp
    (claim text theme diagnostics read checked)
  omega

end Theme

end ThemeCss
