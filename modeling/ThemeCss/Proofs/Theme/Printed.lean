import ThemeCss.Proofs.Json.Finite
import ThemeCss.Proofs.Number.Saturated
import ThemeCss.Proofs.Theme.Cascade

/-! # What is printed for a multiple of what is configured

The numbers of a configuration are finite, but a multiple of them may not be, and it may be too large
to be written in full. What is printed then is not a numeral near to the multiple.
-/

namespace ThemeCss

open Binary64 Json

namespace Spacing

theorem takes {unit ratio : String} {baseUnit : Length} {lineHeight : Binary64}
    (unitTaken : Length.reader.Takes (quote unit).toList baseUnit)
    (ratioTaken : Reader.double.Takes ratio.toList lineHeight) :
    form.reader.Takes (writeObject [("baseUnit", quote unit), ("ratioLineHeight", ratio)]).toList
      ⟨baseUnit, lineHeight⟩ :=
  takes_form (.cons (takes_slot rfl rfl unitTaken) (.cons (takes_slot rfl rfl ratioTaken)
    (.nil _))) rfl

/-- The height of a line that was read is finite. -/
theorem yields_lineHeight :
    form.reader.Yields fun spacing => spacing.lineHeight.isFinite = true := by
  have blank : ∀ ratio ∈ form.blank.lineHeight, ratio.isFinite = true := by simp [form]
  have keeps : ∀ field ∈ form.fields,
      field.Keeps fun draft => ∀ ratio ∈ draft.lineHeight, ratio.isFinite = true := by
    intro field known
    simp only [form, List.mem_cons, List.not_mem_nil, or_false] at known
    rcases known with rfl | rfl
    · exact Field.keeps_slot_of_forall fun draft length finite => finite
    · exact Field.keeps_slot yields_double fun draft ratio _ finite => by simpa using finite
  have finish {draft : Draft} {spacing : Spacing}
      (finite : ∀ ratio ∈ draft.lineHeight, ratio.isFinite = true)
      (finished : form.finish draft = .ok spacing) : spacing.lineHeight.isFinite = true := by
    obtain ⟨baseUnit, lineHeight⟩ := draft
    cases baseUnit with
    | none => cases finished
    | some baseUnit =>
      obtain rfl : spacing = ⟨baseUnit, lineHeight.getD defaultLineHeight⟩ :=
        (Except.ok.inj finished).symm
      cases lineHeight with
      | none =>
        have usual : defaultLineHeight.isFinite = true := by decide +kernel
        dsimp only [Option.getD_none]
        exact usual
      | some ratio => exact finite ratio rfl
  exact Form.yields_reader blank keeps finish

end Spacing

namespace Theme

/-- The height of a line of a theme that was read is finite. -/
theorem isFinite_lineHeight {text : String} {theme : Theme} (read : ofJson text = .ok theme) :
    theme.spacing.lineHeight.isFinite = true := by
  have blank : ∀ spacing ∈ form.blank.spacing, spacing.lineHeight.isFinite = true := by
    simp [form]
  have keeps : ∀ field ∈ form.fields,
      field.Keeps fun draft => ∀ spacing ∈ draft.spacing, spacing.lineHeight.isFinite = true := by
    intro field known
    simp only [form, List.mem_cons, List.not_mem_nil, or_false] at known
    rcases known with rfl | rfl | rfl | rfl | rfl | rfl | rfl | rfl
    case inr.inr.inr.inl =>
      exact Field.keeps_slot Spacing.yields_lineHeight fun draft spacing _ finite => by
        simpa using finite
    all_goals exact Field.keeps_slot_of_forall fun draft value finite => finite
  have finish {draft : Draft} {theme : Theme}
      (finite : ∀ spacing ∈ draft.spacing, spacing.lineHeight.isFinite = true)
      (finished : form.finish draft = .ok theme) :
      theme.spacing.lineHeight.isFinite = true := by
    obtain ⟨colors, typography, layout, spacing⟩ := draft
    cases colors with
    | none => cases finished
    | some colors =>
      cases typography with
      | none => cases finished
      | some typography =>
        cases layout with
        | none => cases finished
        | some layout =>
          cases spacing with
          | none => cases finished
          | some spacing =>
            obtain rfl := Except.ok.inj finished
            exact finite spacing rfl
  have yields : form.reader.Yields fun theme => theme.spacing.lineHeight.isFinite = true :=
    Form.yields_reader blank keeps finish
  unfold ofJson at read
  split at read
  · next parsed =>
    cases read
    exact yields.parse parsed
  · cases read

end Theme

/-- Natural numbers of 64 bits are read as the doubles next to them. -/
theorem Json.takes_double_ofNat {n : Nat} (fits : n ≤ greatestSignificand) :
    Reader.double.Takes (toString n).toList (.ofNat n) := by
  have digits : (toString n).toList = (Numeral.ofNat n).text := by
    rw [Numeral.text_ofNat, Nat.toString_eq_repr, Nat.toList_repr]
  rw [digits]
  apply takes_number (Numeral.wellFormed_ofNat n) (Numeral.value_ofNat fits)
  have positive : ¬ (n : Int) < 0 := Int.not_lt.mpr (Int.natCast_nonneg n)
  have size : ofNat (n : Int).natAbs = ofNat n := congrArg ofNat (Int.natAbs_natCast n)
  exact congrArg Except.ok ((if_neg positive).trans size)

/-- A product of finite doubles is a number or infinite. -/
theorem Binary64.mul_ne_nan {x y : Binary64} (left : x.isFinite = true)
    (right : y.isFinite = true) : x * y ≠ .nan := by
  obtain ⟨negative, a, rfl⟩ := exists_of_isFinite left
  obtain ⟨sign, b, rfl⟩ := exists_of_isFinite right
  rw [finite_mul_finite]
  rcases ofUnits_cases (negative ^^ sign) (a.units * b.units) unitsPerOne with
    infinite | ⟨magnitude, finite, -⟩
  · rw [infinite]
    exact Binary64.noConfusion
  · rw [finite]
    exact Binary64.noConfusion

theorem Utilities.isFinite_of_mem_spacingSteps :
    ∀ step ∈ spacingSteps, step.isFinite = true := by
  decide +kernel

namespace Theme

/-- The steps of spacing and the height of a line are written with texts that have to do with the
products as they should. -/
def PrintsMeasures (theme : Theme) (holds : Binary64 → String → Prop) : Prop :=
  (∃ number : Binary64 → String,
    (∀ step ∈ Utilities.spacingSteps, holds (theme.spacing.baseUnit.value * step) (number step)) ∧
    Utilities.spacingClasses theme.spacing.baseUnit =
      Utilities.spacingProperties.flatMap fun (property, letter) =>
        Utilities.spacingDirections.flatMap fun (direction, sides) =>
          Utilities.spacingSteps.zipIdx.map fun (step, index) =>
            ⟨s!"{letter}{direction}-{index}", Utilities.sideDeclarations property sides
              (number step ++ theme.spacing.baseUnit.unit)⟩) ∧
  ∃ ratio : String, holds (theme.spacing.lineHeight * .ofNat 100) ratio ∧
    .rule (Page.bodyRule theme) ∈ theme.text.blocks ∧
    (Page.bodyRule theme).declarations.filter (·.property == "line-height") =
      [⟨"line-height", ratio ++ "%"⟩]

/-- Of a theme that was read, every step of spacing and the height of a line are printed as a numeral
within half a thousandth of the product, if and only if the product is a number of 64 bits. Larger
products are printed as the greatest or the least such number, or as infinite. -/
theorem measures_printed {text : String} {theme : Theme} (read : ofJson text = .ok theme) :
    theme.PrintsMeasures IsPrinted := by
  have unit := (wellFormed_of_ofJson read).baseUnit.finite
  have ratio := isFinite_lineHeight read
  have hundred : (ofNat 100).isFinite = true := isFinite_ofNat (by decide)
  refine ⟨⟨fun step => (theme.spacing.baseUnit.value * step).compact, ?_, rfl⟩,
    _, isPrinted_compact (mul_ne_nan ratio hundred), ?_, rfl⟩
  · intro step known
    exact isPrinted_compact (mul_ne_nan unit (Utilities.isFinite_of_mem_spacingSteps step known))
  · exact List.mem_cons_of_mem _ List.mem_cons_self

/-- The height of a line may be any number that can be read. -/
theorem exists_accepted_lineHeight {ratio : String} {lineHeight : Binary64}
    (ratioTaken : Reader.double.Takes ratio.toList lineHeight) :
    ∃ text theme diagnostics, ofJson text = .ok theme ∧ theme.check = .ok diagnostics ∧
      theme.spacing.lineHeight = lineHeight := by
  have length {text : String} {length : Length} (read : Length.parse text = .ok length) :
      Length.reader.Takes (quote text).toList length := (takes_string text).interpret read
  have unit : Length.parse "16px" = .ok ⟨.ofNat 16, "px"⟩ := by decide +kernel
  have page : Length.parse "1200px" = .ok ⟨.ofNat 1200, "px"⟩ := by decide +kernel
  have layout : Layout.form.reader.Takes
      (writeObject [("container", quote "1200px"), ("cols", toString 12)]).toList
      ⟨⟨.ofNat 1200, "px"⟩, 12, .empty⟩ :=
    takes_form (.cons (takes_slot rfl rfl (length page)) (.cons
      (takes_slot rfl rfl (takes_count (by decide))) (.nil _))) rfl
  have colors : (Reader.catalog Color.reader).Takes (writeObject []).toList .empty :=
    takes_catalog .nil
  have taken : form.reader.Takes _ ⟨_, ⟨"Inter", "Georgia"⟩, _, _, _, _, _, _⟩ :=
    takes_required colors layout (Spacing.takes (length unit) ratioTaken)
  have read := ofJson_of_takes taken
  exact ⟨_, _, _, read, if_neg (Nat.succ_ne_zero 11), rfl⟩

/-- Lines of 10¹⁷ times the size of text are accepted. -/
theorem exists_accepted_tall : ∃ text theme diagnostics, ofJson text = .ok theme ∧
    theme.check = .ok diagnostics ∧ theme.spacing.lineHeight = .ofNat (10 ^ 17) :=
  exists_accepted_lineHeight (takes_double_ofNat (by decide))

/-- A line height of 10¹⁷ is 10¹⁹ per cent, which is more than 64 bits hold. -/
theorem value?_lineHeight_mul :
    (ofNat (10 ^ 17) * ofNat 100).value? = some (10 ^ 19 : ℚ) := by
  have place : (ofNat (10 ^ 17) * ofNat 100).place? = some (10 ^ 19 * unitsPerOne : Nat) := by
    decide +kernel
  have inside : 10 ^ 19 * unitsPerOne < overflowUnits := by decide +kernel
  rw [value?_of_place? place (by rw [Nat.abs_cast]; exact Int.ofNat_lt.mpr inside),
    Int.cast_natCast, Nat.cast_mul, mul_div_cancel_right₀ _ unitsPerOne_cast_pos.ne', Nat.cast_pow,
    Nat.cast_ofNat]

theorem measures_printed_tall : ∃ text theme, ofJson text = .ok theme ∧
    theme.PrintsMeasures IsPrinted ∧
    (Page.bodyRule theme).declarations.filter (·.property == "line-height") =
      [⟨"line-height", "9223372036854775807" ++ "%"⟩] := by
  obtain ⟨text, theme, -, read, -, tall⟩ :=
    exists_accepted_tall
  have prints := measures_printed read
  obtain ⟨-, ratio, printed, -, height⟩ := id prints
  rw [tall] at printed
  refine ⟨text, theme, read, prints, ?_⟩
  rw [height, printed.above _ value?_lineHeight_mul (by norm_num)]

/-- A theme that is accepted may have lines that are too tall to be written. -/
theorem measures_printed_refuted : ¬ ∀ (text : String) (theme : Theme)
    (diagnostics : List Diagnostic), ofJson text = .ok theme → theme.check = .ok diagnostics →
      theme.PrintsMeasures IsFaithful := by
  intro claim
  obtain ⟨text, theme, diagnostics, read, checked, tall⟩ :=
    exists_accepted_tall
  obtain ⟨-, ratio, faithful, -, height⟩ := claim text theme diagnostics read checked
  have written : (theme.spacing.lineHeight * .ofNat 100).compact = ratio := by
    have single : [(⟨"line-height", Page.lineHeight theme.spacing.lineHeight⟩ : Declaration)] =
        [⟨"line-height", ratio ++ "%"⟩] := height
    simpa [Page.lineHeight] using single
  have number : ofNat (10 ^ 17) * ofNat 100 ≠ .nan := by decide +kernel
  rw [← written, tall, (isPrinted_compact number).faithful] at faithful
  obtain ⟨exact, value, -, below⟩ := faithful
  obtain rfl := Option.some.inj (value?_lineHeight_mul.symm.trans value)
  norm_num at below

end Theme

end ThemeCss
