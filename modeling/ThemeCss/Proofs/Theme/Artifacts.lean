import ThemeCss.Proofs.Theme.Sections

/-! # The minified artifact of a theme

Copies and minification are made on the text of all sections together. For a harmless theme the
result is what a recursion on the structure of the sections writes: nothing in the text is lost,
added, moved or merged on the way, and no pass finds anything in the wrong place.
-/

namespace ThemeCss

/-- The text of a declaration behind its copies lists the copies and the declaration. -/
theorem Declaration.listing_vendorText (declaration : Declaration) :
    Listing declaration.withCopies declaration.vendorText.toList := by
  have copies : Listing (declaration.copies.flatMap fun copy => [copy])
      (copiesText declaration.copies) :=
    .flatMap fun copy _ => by
      have space : IsBlankText [' '] := by simp
      simpa using (Listing.of_text copy).append (.of_blank space)
  rw [declaration.toList_vendorText, Declaration.withCopies]
  simpa using copies.append (Listing.of_text declaration)

/-- The dense text of sheets put together is that of each of them. -/
theorem Sheet.dense_unfolded_merged (unfold : Declaration → List Declaration)
    (parts : List Sheet) :
    ((Sheet.merged parts).unfolded unfold).dense =
      String.join (parts.map fun part => (part.unfolded unfold).dense) := by
  rw [← String.toList_inj]
  simp [Sheet.merged, Sheet.unfolded, Sheet.dense, List.flatMap_map, List.flatMap_assoc]

/-- What the comment of the banner says. -/
def bannerWords : List Char := "! breeze v0.1.0 | generated stylesheet - do not edit ".toList

theorem toList_banner_eq :
    banner.toList = '/' :: '*' :: (bannerWords ++ '*' :: '/' :: ['\n']) := rfl

theorem not_closesComment_bannerWords : ¬ ClosesComment (bannerWords ++ ['*']) := by decide

namespace Theme

theorem toList_banner : ∃ inside, ¬ ClosesComment (inside ++ ['*']) ∧
    ';' ∉ (banner ++ "\n").toList ∧
      (banner ++ "\n").toList = '/' :: '*' :: (inside ++ '*' :: '/' :: ['\n', '\n']) := by
  refine ⟨bannerWords, not_closesComment_bannerWords, by simp [banner], ?_⟩
  rw [String.toList_append, toList_banner_eq]
  simp

/-- The readable artifact is the banner and the sections with copies put in. -/
theorem readable_of_harmless {theme : Theme} (harmless : theme.Harmless) :
    theme.readable = banner ++ "\n" ++ theme.sheet.textWith Declaration.vendorText := by
  obtain ⟨inside, -, quiet, -⟩ := toList_banner
  rw [readable, withVendorCopies, String.toList_append,
    addVendorCopies_sheet harmless.sheet.simple quiet, ← String.toList_inj]
  simp

/-- The minified artifact of a harmless theme is the dense text of its sections, each declaration
behind its copies. -/
theorem minified_compile {theme : Theme} (harmless : theme.Harmless) :
    theme.compile.minified =
      String.join (theme.sections.map fun part =>
        (part.unfolded Declaration.withCopies).dense) := by
  obtain ⟨inside, unclosed, -, letters⟩ := toList_banner
  have lines := Sheet.arrangement_text Declaration.listing_vendorText harmless.sheet.inert
  have arranged : Arrangement (theme.sheet.unfolded Declaration.withCopies).blocks
      theme.readable.toList := by
    have behind := ((lines.blank isBlank_newline).blank isBlank_newline).remark unclosed
    rw [readable_of_harmless harmless, String.toList_append, letters]
    simpa using behind
  have dense := arranged.minifyText_eq harmless.sheet.unfolded.inert
  rw [← Sheet.dense_unfolded_merged]
  calc
    theme.compile.minified = String.ofList (minifyText theme.readable.toList) := rfl
    _ = (theme.sheet.unfolded Declaration.withCopies).dense := by
      rw [dense, String.ofList_toList, Sheet.dense]

theorem minified_compile_sea :
    let theme : Theme := {
      colors := ⟨[("sea", ⟨0, 102, 204⟩)], List.nodup_singleton _⟩
      typography := ⟨"Inter, sans-serif", "Georgia, serif"⟩
      layout := ⟨⟨.ofNat 1200, "px"⟩, 12, ⟨[("sm", ⟨.ofNat 640, "px"⟩)], List.nodup_singleton _⟩⟩
      spacing := ⟨⟨.ofNat 16, "px"⟩, Spacing.defaultLineHeight⟩
      transition := Transition.usual
      darkMode := true
      components := ["card", "button"]
      utilities := ["spacing", "flex"] }
    theme.Harmless ∧ theme.compile.minified =
      String.join (theme.sections.map fun part =>
        (part.unfolded Declaration.withCopies).dense) := by
  intro theme
  have sea := @isSafe_of_isSafeWord "sea" rfl
  have small : IsHarmless "sm" := .of_all rfl
  have pixels : IsHarmless "px" := .of_all rfl
  have inter : IsHarmless "Inter, sans-serif" := .of_all rfl
  have georgia : IsHarmless "Georgia, serif" := .of_all rfl
  have duration : IsHarmless "0.3s" := .of_all rfl
  have easing : IsHarmless "ease" := .of_all rfl
  have harmless : theme.Harmless :=
    ⟨List.forall_mem_singleton.mpr ⟨sea.1.harmless, sea.2⟩, List.forall_mem_singleton.mpr small,
      List.forall_mem_singleton.mpr pixels, inter, georgia, duration, easing, pixels, pixels⟩
  exact ⟨harmless, minified_compile harmless⟩

end Theme

end ThemeCss
