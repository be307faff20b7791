import ThemeCss.Proofs.Json.Written
import ThemeCss.Proofs.Json.Yields
import ThemeCss.Proofs.Theme.Values
import ThemeCss.Theme.Reading
import ThemeCss.Theme.Writing

/-! # Themes that are written and read

The JSON text of a theme is read as a theme that differs from it in nothing but the numbers: lengths
come back with their unit and their text, and the height of a line as some double.
-/

namespace ThemeCss

open Json

theorem Color.takes_reader (color : Color) : Color.reader.Takes (quote color.hex).toList color :=
  (takes_string color.hex).interpret (Color.parse_hex color)

theorem Length.takes_reader {length again : Length} (read : Length.parse length.text = .ok again) :
    Length.reader.Takes (quote length.text).toList again :=
  (takes_string length.text).interpret read

theorem Typography.takes_reader (typography : Typography) :
    Typography.form.reader.Takes (writeObject [
      ("main", quote typography.main), ("headlines", quote typography.headlines)]).toList
      typography := by
  refine takes_form (.cons (takes_slot rfl rfl (takes_string _)) (.cons
    (takes_slot rfl rfl (takes_string _)) (.nil _))) rfl

theorem Transition.takes_reader (transition : Transition) :
    Transition.form.reader.Takes (writeObject [
      ("duration", quote transition.duration), ("type", quote transition.easing)]).toList
      transition := by
  refine takes_form (.cons (takes_slot rfl rfl (takes_string _)) (.cons
    (takes_slot rfl rfl (takes_string _)) (.nil _))) rfl

/-- The widths that are read where some widths were written. -/
def KeepWidths (widths again : List (String × Length)) : Prop :=
  List.Forall₂ (fun width new => width.1 = new.1 ∧ width.2.Keeps new.2) widths again

theorem KeepWidths.names {widths again : List (String × Length)} (keeps : KeepWidths widths again) :
    again.map Prod.fst = widths.map Prod.fst := by
  induction keeps with
  | nil => rfl
  | cons first _ ih => rw [List.map_cons, List.map_cons, ih, first.1]

theorem exists_takes_widths {widths : List (String × Length)}
    (wellFormed : ∀ width ∈ widths, width.2.WellFormed) : ∃ again, KeepWidths widths again ∧
      List.Forall₂ Length.reader.TakesEntry
        (widths.map fun (label, width) => (label, quote width.text)) again := by
  induction widths with
  | nil => exact ⟨[], .nil, .nil⟩
  | cons width widths ih =>
    obtain ⟨first, others⟩ := List.forall_mem_cons.mp wellFormed
    obtain ⟨again, keeps, taken⟩ := ih others
    obtain ⟨new, read, kept⟩ := Length.exists_parse_text first
    exact ⟨(width.1, new) :: again, .cons ⟨rfl, kept⟩ keeps,
      .cons ⟨rfl, Length.takes_reader read⟩ taken⟩

/-- What the writing of a layout keeps. -/
structure Layout.Keeps (layout again : Layout) : Prop where
  container : layout.container.Keeps again.container
  columns : again.columns = layout.columns
  breakpoints : KeepWidths layout.breakpoints.entries again.breakpoints.entries

/-- A layout that can be had from a text. -/
structure Layout.WellFormed (layout : Layout) : Prop where
  container : layout.container.WellFormed
  columns : layout.columns < 0x100000000
  breakpoints : ∀ width ∈ layout.breakpoints.entries, width.2.WellFormed

theorem Layout.exists_takes {layout : Layout} (wellFormed : layout.WellFormed) :
    ∃ again, layout.Keeps again ∧ Layout.form.reader.Takes (writeObject [
      ("container", quote layout.container.text),
      ("cols", toString layout.columns),
      ("breakpoints", writeObject
        (layout.breakpoints.entries.map fun (label, width) => (label, quote width.text)))]).toList
      again := by
  obtain ⟨container, read, containerKept⟩ := Length.exists_parse_text wellFormed.container
  obtain ⟨entries, keeps, taken⟩ := exists_takes_widths wellFormed.breakpoints
  have distinct : (entries.map Prod.fst).Nodup := by
    rw [keeps.names]
    exact layout.breakpoints.distinct
  refine ⟨⟨container, layout.columns, ⟨entries, distinct⟩⟩, ⟨containerKept, rfl, keeps⟩, ?_⟩
  exact takes_form (.cons (takes_slot rfl rfl (Length.takes_reader read)) (.cons
    (takes_slot rfl rfl (takes_count wellFormed.columns)) (.cons
      (takes_slot rfl rfl (takes_catalog taken)) (.nil _)))) rfl

theorem Spacing.exists_takes {spacing : Spacing} (wellFormed : spacing.baseUnit.WellFormed)
    (small : spacing.lineHeight.abs.le (.ofDecimal false 1 300) = true) :
    ∃ again : Spacing, spacing.baseUnit.Keeps again.baseUnit ∧
      Spacing.form.reader.Takes (writeObject [
        ("baseUnit", quote spacing.baseUnit.text),
        ("ratioLineHeight", writeDouble spacing.lineHeight)]).toList again := by
  obtain ⟨baseUnit, read, kept⟩ := Length.exists_parse_text wellFormed
  obtain ⟨lineHeight, taken⟩ := exists_takes_double small
  refine ⟨⟨baseUnit, lineHeight⟩, kept, ?_⟩
  exact takes_form (.cons (takes_slot rfl rfl (Length.takes_reader read)) (.cons
    (takes_slot rfl rfl taken) (.nil _))) rfl

/-- A spacing that says nothing about the height of a line has the usual one. -/
theorem Spacing.takes_baseUnit {text : String} {length : Length}
    (read : Length.parse text = .ok length) :
    Spacing.form.reader.Takes (writeObject [("baseUnit", quote text)]).toList
      ⟨length, defaultLineHeight⟩ := by
  have finished : form.finish { baseUnit := some length } = .ok ⟨length, defaultLineHeight⟩ := by
    simp only [form, required, Option.getD_none]
    rfl
  exact takes_form (.cons (takes_slot rfl rfl ((takes_string text).interpret read)) (.nil _))
    finished

namespace Theme

/-- What the writing of a theme keeps: everything but the height of a line and what lengths lose. -/
structure Keeps (theme again : Theme) : Prop where
  colors : again.colors = theme.colors
  typography : again.typography = theme.typography
  layout : theme.layout.Keeps again.layout
  baseUnit : theme.spacing.baseUnit.Keeps again.spacing.baseUnit
  transition : again.transition = theme.transition
  darkMode : again.darkMode = theme.darkMode
  components : again.components = theme.components
  utilities : again.utilities = theme.utilities

/-- A theme that can be had from a text. -/
structure WellFormed (theme : Theme) : Prop where
  layout : theme.layout.WellFormed
  baseUnit : theme.spacing.baseUnit.WellFormed

theorem ofJson_of_takes {text : String} {theme : Theme}
    (taken : form.reader.Takes text.toList theme) : ofJson text = .ok theme := by
  rw [ofJson, taken.parse]

/-- The text of a theme is read as a theme that keeps it. -/
theorem exists_ofJson_toJson {theme : Theme} (wellFormed : theme.WellFormed)
    (small : theme.spacing.lineHeight.abs.le (.ofDecimal false 1 300) = true) :
    ∃ again, ofJson theme.toJson = .ok again ∧ theme.Keeps again := by
  obtain ⟨layout, layoutKept, layoutTaken⟩ := Layout.exists_takes wellFormed.layout
  obtain ⟨spacing, baseUnitKept, spacingTaken⟩ := Spacing.exists_takes wellFormed.baseUnit small
  refine ⟨{ theme with layout, spacing }, ?_,
    ⟨rfl, rfl, layoutKept, baseUnitKept, rfl, rfl, rfl, rfl⟩⟩
  have colors : List.Forall₂ Color.reader.TakesEntry
      (theme.colors.entries.map fun entry => (entry.1, quote entry.2.hex)) theme.colors.entries := by
    rw [List.forall₂_map_left_iff, List.forall₂_same]
    exact fun entry _ => ⟨rfl, Color.takes_reader entry.2⟩
  have taken : form.reader.Takes theme.toJson.toList { theme with layout, spacing } :=
    takes_form (.cons (takes_slot rfl rfl (takes_catalog colors)) (.cons
      (takes_slot rfl rfl (Typography.takes_reader _)) (.cons
        (takes_slot rfl rfl layoutTaken) (.cons
          (takes_slot rfl rfl spacingTaken) (.cons
            (takes_slot rfl rfl (Transition.takes_reader _)) (.cons
              (takes_slot rfl rfl (takes_boolean _)) (.cons
                (takes_slot rfl rfl (takes_strings _)) (.cons
                  (takes_slot rfl rfl (takes_strings _)) (.nil _))))))))) rfl
  exact ofJson_of_takes taken

end Theme

/-- A theme of which only what has no default is written. -/
theorem Theme.takes_required {colors layout spacing : String} {catalog : Catalog Color}
    {typography : Typography} {grid : Layout} {steps : Spacing}
    (colorsTaken : (Reader.catalog Color.reader).Takes colors.toList catalog)
    (layoutTaken : Layout.form.reader.Takes layout.toList grid)
    (spacingTaken : Spacing.form.reader.Takes spacing.toList steps) :
    form.reader.Takes (writeObject [("colors", colors),
      ("typography", writeObject [
        ("main", quote typography.main), ("headlines", quote typography.headlines)]),
      ("layout", layout), ("spacing", spacing)]).toList
      ⟨catalog, typography, grid, steps, .usual, false, [], []⟩ :=
  takes_form (.cons (takes_slot rfl rfl colorsTaken) (.cons
    (takes_slot rfl rfl (Typography.takes_reader typography)) (.cons
      (takes_slot rfl rfl layoutTaken) (.cons
        (takes_slot rfl rfl spacingTaken) (.nil _))))) rfl

theorem Length.yields_reader : Length.reader.Yields Length.WellFormed :=
  Reader.yields_interpret Length.wellFormed_of_parse

namespace Layout

/-- What is there of a layout that is being read. -/
structure Draft.WellFormed (draft : Draft) : Prop where
  container : ∀ length ∈ draft.container, length.WellFormed
  columns : ∀ count ∈ draft.columns, count < 0x100000000
  breakpoints : ∀ catalog ∈ draft.breakpoints, ∀ width ∈ catalog.entries, width.2.WellFormed

theorem keeps_of_mem_fields {field : Json.Field Draft} (known : field ∈ form.fields) :
    field.Keeps Draft.WellFormed := by
  simp only [form, List.mem_cons, List.not_mem_nil, or_false] at known
  rcases known with rfl | rfl | rfl
  · exact Field.keeps_slot Length.yields_reader fun draft length sound formed =>
      ⟨by simpa using formed, sound.columns, sound.breakpoints⟩
  · exact Field.keeps_slot Reader.yields_count fun draft count sound small =>
      ⟨sound.container, by simpa using small, sound.breakpoints⟩
  · exact Field.keeps_slot (yields_catalog Length.yields_reader) fun draft catalog sound formed =>
      ⟨sound.container, sound.columns, by simpa using formed⟩

theorem wellFormed_of_finish {draft : Draft} {layout : Layout} (sound : draft.WellFormed)
    (finished : form.finish draft = .ok layout) : layout.WellFormed := by
  obtain ⟨container, columns, breakpoints⟩ := draft
  cases container with
  | none => nomatch finished
  | some container =>
    cases columns with
    | none => nomatch finished
    | some columns =>
      have same : layout = ⟨container, columns, breakpoints.getD .empty⟩ :=
        (Except.ok.inj finished).symm
      subst same
      refine ⟨sound.container _ rfl, sound.columns _ rfl, ?_⟩
      cases breakpoints with
      | none => exact List.forall_mem_nil _
      | some catalog => exact sound.breakpoints catalog rfl

theorem yields_reader : form.reader.Yields Layout.WellFormed := by
  have blank : form.blank.WellFormed := ⟨by simp [form], by simp [form], by simp [form]⟩
  exact Form.yields_reader blank (fun field => keeps_of_mem_fields) wellFormed_of_finish

end Layout

namespace Spacing

/-- What is there of a spacing that is being read. -/
def Draft.WellFormed (draft : Draft) : Prop := ∀ length ∈ draft.baseUnit, length.WellFormed

theorem keeps_of_mem_fields {field : Json.Field Draft} (known : field ∈ form.fields) :
    field.Keeps Draft.WellFormed := by
  simp only [form, List.mem_cons, List.not_mem_nil, or_false] at known
  rcases known with rfl | rfl
  · exact Field.keeps_slot Length.yields_reader fun draft length sound formed => by
      simpa [Draft.WellFormed] using formed
  · exact Field.keeps_slot_of_forall fun draft value sound => sound

theorem wellFormed_of_finish {draft : Draft} {spacing : Spacing} (sound : draft.WellFormed)
    (finished : form.finish draft = .ok spacing) : spacing.baseUnit.WellFormed := by
  obtain ⟨baseUnit, lineHeight⟩ := draft
  cases baseUnit with
  | none => nomatch finished
  | some baseUnit =>
    have same : spacing = ⟨baseUnit, lineHeight.getD defaultLineHeight⟩ :=
      (Except.ok.inj finished).symm
    subst same
    exact sound _ rfl

theorem yields_reader : form.reader.Yields fun spacing => spacing.baseUnit.WellFormed := by
  have blank : form.blank.WellFormed := by simp [form, Draft.WellFormed]
  exact Form.yields_reader blank (fun field => keeps_of_mem_fields) wellFormed_of_finish

end Spacing

namespace Theme

/-- What is there of a theme that is being read. -/
structure Draft.WellFormed (draft : Draft) : Prop where
  layout : ∀ layout ∈ draft.layout, layout.WellFormed
  spacing : ∀ spacing ∈ draft.spacing, spacing.baseUnit.WellFormed

theorem keeps_of_mem_fields {field : Json.Field Draft} (known : field ∈ form.fields) :
    field.Keeps Draft.WellFormed := by
  simp only [form, List.mem_cons, List.not_mem_nil, or_false] at known
  rcases known with rfl | rfl | rfl | rfl | rfl | rfl | rfl | rfl
  case inr.inr.inl =>
    exact Field.keeps_slot Layout.yields_reader fun draft layout sound formed =>
      ⟨by simpa using formed, sound.spacing⟩
  case inr.inr.inr.inl =>
    exact Field.keeps_slot Spacing.yields_reader fun draft spacing sound formed =>
      ⟨sound.layout, by simpa using formed⟩
  all_goals exact Field.keeps_slot_of_forall fun draft value sound => ⟨sound.layout, sound.spacing⟩

theorem wellFormed_of_finish {draft : Draft} {theme : Theme} (sound : draft.WellFormed)
    (finished : form.finish draft = .ok theme) : theme.WellFormed := by
  obtain ⟨colors, typography, layout, spacing⟩ := draft
  cases colors with
  | none => nomatch finished
  | some colors =>
    cases typography with
    | none => nomatch finished
    | some typography =>
      cases layout with
      | none => nomatch finished
      | some layout =>
        cases spacing with
        | none => nomatch finished
        | some spacing =>
          obtain rfl := Except.ok.inj finished
          exact ⟨sound.layout _ rfl, sound.spacing _ rfl⟩

/-- A theme that was read is well formed. -/
theorem wellFormed_of_ofJson {text : String} {theme : Theme} (success : ofJson text = .ok theme) :
    theme.WellFormed := by
  have blank : form.blank.WellFormed := ⟨by simp [form], by simp [form]⟩
  have yields : form.reader.Yields Theme.WellFormed :=
    Form.yields_reader blank (fun field => keeps_of_mem_fields) wellFormed_of_finish
  unfold ofJson at success
  split at success
  · next read =>
    cases success
    exact yields.parse read
  · cases success

/-- The lengths of a theme: the page, the unit of spacing, and the breakpoints in their order. -/
def lengths (theme : Theme) : List Length :=
  theme.layout.container :: theme.spacing.baseUnit ::
    theme.layout.breakpoints.entries.map Prod.snd

theorem Keeps.lengths {theme again : Theme} (keeps : theme.Keeps again) :
    List.Forall₂ Length.Keeps theme.lengths again.lengths := by
  refine .cons keeps.layout.container (.cons keeps.baseUnit ?_)
  rw [List.forall₂_map_left_iff, List.forall₂_map_right_iff]
  exact keeps.layout.breakpoints.imp fun _ _ kept => kept.2

/-- A theme that was read can be written and read again. Only the height of a line and what lengths
have beyond thousandths may change. -/
theorem ofJson_toJson {text : String} {theme : Theme} (read : ofJson text = .ok theme)
    (small : theme.spacing.lineHeight.abs.le (.ofDecimal false 1 300) = true) :
    ∃ again, ofJson theme.toJson = .ok again ∧
      again.colors = theme.colors ∧
      again.typography = theme.typography ∧
      again.layout.columns = theme.layout.columns ∧
      again.layout.breakpoints.names = theme.layout.breakpoints.names ∧
      again.transition = theme.transition ∧
      again.darkMode = theme.darkMode ∧
      again.components = theme.components ∧
      again.utilities = theme.utilities ∧
      List.Forall₂ (fun length new => new.unit = length.unit ∧ new.text = length.text)
        theme.lengths again.lengths ∧
      ((∀ length ∈ theme.lengths, length.InThousandths) →
        List.Forall₂ (fun length new => new.same length = true) theme.lengths again.lengths) := by
  obtain ⟨again, reread, keeps⟩ := exists_ofJson_toJson (wellFormed_of_ofJson read) small
  refine ⟨again, reread, keeps.colors, keeps.typography, keeps.layout.columns,
    keeps.layout.breakpoints.names, keeps.transition, keeps.darkMode, keeps.components,
    keeps.utilities, ?_, ?_⟩
  · exact keeps.lengths.imp fun _ _ kept => ⟨kept.unit, kept.text⟩
  · intro inThousandths
    exact ((List.forall₂_and_left _ _).mpr ⟨inThousandths, keeps.lengths⟩).imp
      fun _ _ kept => kept.2.same kept.1

/-- A short text is read as a theme whose lengths are thousandths, and all of it comes back. -/
theorem ofJson_toJson_sea :
    let text := "\x7b\"colors\":\x7b\"sea\":\"#0066cc\"\x7d," ++
      "\"typography\":\x7b\"main\":\"Inter\",\"headlines\":\"Georgia\"\x7d," ++
      "\"layout\":\x7b\"container\":\"1200px\",\"cols\":12," ++
      "\"breakpoints\":\x7b\"md\":\"47.5em\"\x7d\x7d," ++
      "\"spacing\":\x7b\"baseUnit\":\"0.25rem\"\x7d\x7d"
    ∃ theme, ofJson text = .ok theme ∧
      theme.spacing.lineHeight.abs.le (.ofDecimal false 1 300) = true ∧
      (∀ length ∈ theme.lengths, length.InThousandths) ∧
      ∃ again, ofJson theme.toJson = .ok again ∧ again.colors = theme.colors ∧
        List.Forall₂ (fun length new => new.same length = true) theme.lengths again.lengths := by
  intro text
  have length {text : String} {length : Length} (read : Length.parse text = .ok length) :
      Length.reader.Takes (quote text).toList length := (takes_string text).interpret read
  have colors : (Reader.catalog Color.reader).Takes (writeObject [("sea", quote "#0066cc")]).toList
      ⟨[("sea", ⟨0, 0x66, 0xcc⟩)], by decide⟩ :=
    takes_catalog (.cons ⟨rfl, Color.takes_reader ⟨0, 0x66, 0xcc⟩⟩ .nil)
  have breakpoints : (Reader.catalog Length.reader).Takes
      (writeObject [("md", quote "47.5em")]).toList
      ⟨[("md", ⟨.ofDecimal false 475 (-1), "em"⟩)], by decide⟩ :=
    takes_catalog (.cons ⟨rfl, length (by decide +kernel)⟩ .nil)
  have layout : Layout.form.reader.Takes (writeObject [("container", quote "1200px"),
      ("cols", toString 12), ("breakpoints", writeObject [("md", quote "47.5em")])]).toList
      ⟨⟨.ofNat 1200, "px"⟩, 12, ⟨[("md", ⟨.ofDecimal false 475 (-1), "em"⟩)], by decide⟩⟩ :=
    takes_form (.cons (takes_slot rfl rfl (length (by decide +kernel))) (.cons
      (takes_slot rfl rfl (takes_count (by decide))) (.cons
        (takes_slot rfl rfl breakpoints) (.nil _)))) rfl
  have spacing : Spacing.form.reader.Takes (writeObject [("baseUnit", quote "0.25rem")]).toList
      ⟨⟨.ofDecimal false 25 (-2), "rem"⟩, Spacing.defaultLineHeight⟩ :=
    Spacing.takes_baseUnit (by decide +kernel)
  have taken : form.reader.Takes _ ⟨_, ⟨"Inter", "Georgia"⟩, _, _, _, _, _, _⟩ :=
    takes_required colors layout spacing
  have written : text = writeObject [
      ("colors", writeObject [("sea", quote "#0066cc")]),
      ("typography", writeObject [("main", quote "Inter"), ("headlines", quote "Georgia")]),
      ("layout", writeObject [("container", quote "1200px"), ("cols", toString 12),
        ("breakpoints", writeObject [("md", quote "47.5em")])]),
      ("spacing", writeObject [("baseUnit", quote "0.25rem")])] := by decide +kernel
  have read := ofJson_of_takes taken
  rw [← written] at read
  have small : Spacing.defaultLineHeight.abs.le (.ofDecimal false 1 300) = true := by decide +kernel
  have inThousandths : ∀ length ∈ [(⟨.ofNat 1200, "px"⟩ : Length),
      ⟨.ofDecimal false 25 (-2), "rem"⟩, ⟨.ofDecimal false 475 (-1), "em"⟩],
      length.InThousandths := by
    rw [List.forall_mem_cons, List.forall_mem_cons, List.forall_mem_singleton]
    exact ⟨⟨1200000, by decide, by decide +kernel⟩, ⟨250, by decide, by decide +kernel⟩,
      ⟨47500, by decide, by decide +kernel⟩⟩
  obtain ⟨again, reread, same, -, -, -, -, -, -, -, -, equal⟩ := ofJson_toJson read (by
    dsimp only
    exact small)
  refine ⟨_, read, ?_, inThousandths, again, reread, same, equal inThousandths⟩
  dsimp only
  exact small

end Theme

end ThemeCss
