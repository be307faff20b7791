import ThemeCss.Proofs.Theme.Gathered
import ThemeCss.Proofs.Theme.RoundTrip
import ThemeCss.Theme.Reading

/-! # Themes whose text is rearranged

The text of a theme is an object of named members, and so are its typography, layout, spacing and
transition. What is read does not depend on the order of these members, on members without a
meaning, or on members that give a default. In the colours and in the breakpoints a name may be
given more than once.
-/

namespace ThemeCss

open Json

theorem Color.steady_reader : Color.reader.Steady := Reader.steady_string.interpret _

theorem Length.steady_reader : Length.reader.Steady := Reader.steady_string.interpret _

theorem Typography.lawful_form : form.Lawful :=
  Form.lawful_of_pair rfl (Field.lawful_slot Reader.steady_string fun _ _ => rfl)
    (Field.lawful_slot Reader.steady_string fun _ _ => rfl)
    (Field.apart_slot (fun _ _ => rfl) (fun _ _ => rfl) fun _ _ _ => rfl) ⟨rfl, rfl⟩

theorem Transition.lawful_form : form.Lawful :=
  Form.lawful_of_pair rfl (Field.lawful_slot Reader.steady_string fun _ _ => rfl)
    (Field.lawful_slot Reader.steady_string fun _ _ => rfl)
    (Field.apart_slot (fun _ _ => rfl) (fun _ _ => rfl) fun _ _ _ => rfl) ⟨rfl, rfl⟩

theorem Spacing.lawful_form : form.Lawful :=
  Form.lawful_of_pair rfl (Field.lawful_slot Length.steady_reader fun _ _ => rfl)
    (Field.lawful_slot Reader.steady_number fun _ _ => rfl)
    (Field.apart_slot (fun _ _ => rfl) (fun _ _ => rfl) fun _ _ _ => rfl) ⟨rfl, rfl⟩

theorem Layout.lawful_form : form.Lawful where
  fields := by
    simp only [form, List.forall_mem_cons]
    exact ⟨Field.lawful_slot Length.steady_reader fun _ _ => rfl,
      Field.lawful_slot Reader.steady_number fun _ _ => rfl,
      Field.lawful_slot (Reader.steady_catalog Length.steady_reader) fun _ _ => rfl,
      List.forall_mem_nil _⟩
  apart := by
    simp only [form, List.pairwise_cons, List.forall_mem_cons, List.not_mem_nil, IsEmpty.forall_iff,
      implies_true, List.Pairwise.nil, and_true]
    and_intros
    all_goals exact Field.apart_slot (fun _ _ => rfl) (fun _ _ => rfl) fun _ _ _ => rfl
  blank := by simp [form, Field.slot]

theorem Theme.lawful_form : form.Lawful where
  fields := by
    have strings := Reader.steady_list Reader.steady_string
    simp only [form, List.forall_mem_cons]
    exact ⟨Field.lawful_slot (Reader.steady_catalog Color.steady_reader) fun _ _ => rfl,
      Field.lawful_slot (Form.steady_reader Typography.lawful_form.steady) fun _ _ => rfl,
      Field.lawful_slot (Form.steady_reader Layout.lawful_form.steady) fun _ _ => rfl,
      Field.lawful_slot (Form.steady_reader Spacing.lawful_form.steady) fun _ _ => rfl,
      Field.lawful_slot (Form.steady_reader Transition.lawful_form.steady) fun _ _ => rfl,
      Field.lawful_slot Reader.steady_boolean fun _ _ => rfl,
      Field.lawful_slot strings fun _ _ => rfl,
      Field.lawful_slot strings fun _ _ => rfl, List.forall_mem_nil _⟩
  apart := by
    simp only [form, List.pairwise_cons, List.forall_mem_cons, List.not_mem_nil, IsEmpty.forall_iff,
      implies_true, List.Pairwise.nil, and_true]
    and_intros
    all_goals exact Field.apart_slot (fun _ _ => rfl) (fun _ _ => rfl) fun _ _ _ => rfl
  blank := by simp [form, Field.slot]

/-- The objects in a theme whose members have names of their own. -/
inductive Subobject where
  | typography
  | layout
  | spacing
  | transition

namespace Subobject

def name : Subobject → String
  | typography => "typography"
  | layout => "layout"
  | spacing => "spacing"
  | transition => "transition"

/-- The texts that give what such an object has by default. -/
inductive IsDefault : Subobject → String → List Char → Prop where
  | breakpoints {value : List Char} :
    (Reader.catalog Length.reader).whole? value = some .empty →
      IsDefault layout "breakpoints" value
  | lineHeight {value : List Char} :
    Reader.double.whole? value = some Spacing.defaultLineHeight →
      IsDefault spacing "ratioLineHeight" value

/-- The members are put in another order, or one more is inserted that means nothing or
gives a default. -/
def Adjusted (object : Subobject) (members others : List Member) : Prop :=
  match object with
  | typography => Json.Adjusted Typography.form (IsDefault typography) members others
  | layout => Json.Adjusted Layout.form (IsDefault layout) members others
  | spacing => Json.Adjusted Spacing.form (IsDefault spacing) members others
  | transition => Json.Adjusted Transition.form (IsDefault transition) members others

end Subobject

namespace Theme

/-- The texts that give what a theme has by default. -/
inductive IsDefault : String → List Char → Prop where
  | transition {value : List Char} :
    Transition.form.reader.whole? value = some .usual → IsDefault "transition" value
  | darkMode {value : List Char} :
    Reader.boolean.whole? value = some false → IsDefault "darkMode" value
  | components {value : List Char} :
    (Reader.list .string).whole? value = some [] → IsDefault "components" value
  | utilities {value : List Char} :
    (Reader.list .string).whole? value = some [] → IsDefault "utilities" value

/-- The members of a theme, or those of one of its objects, are adjusted. -/
inductive Rearranged : List Member → List Member → Prop where
  | outside {members others : List Member} :
    Adjusted form IsDefault members others → Rearranged members others
  | inside {members others inner new : List Member} {gap newGap : Gap} (object : Subobject) :
    Differ object.name (objectText gap (raw inner)) (objectText newGap (raw new)) members others →
      object.Adjusted inner new → Rearranged members others

end Theme

namespace Theme

theorem isDefault_transition : IsDefault "transition"
    (writeObject [("duration", quote "0.3s"), ("type", quote "ease")]).toList :=
  .transition (Transition.takes_reader .usual).whole?

theorem isDefault_darkMode : IsDefault "darkMode" (writeBool false).toList :=
  .darkMode (takes_boolean false).whole?

theorem isDefault_components : IsDefault "components" (writeList []).toList :=
  .components (takes_strings []).whole?

theorem isDefault_utilities : IsDefault "utilities" (writeList []).toList :=
  .utilities (takes_strings []).whole?

theorem isDefault_breakpoints :
    Subobject.IsDefault .layout "breakpoints" (writeObject []).toList := by
  have taken : (Reader.catalog Length.reader).Takes (writeObject []).toList .empty :=
    takes_catalog .nil
  exact .breakpoints taken.whole?

/-- The usual height of a line, as it is written. -/
def usualLineHeight : Numeral := ⟨false, ['1'], some ['4'], none⟩

theorem wellFormed_usualLineHeight : usualLineHeight.WellFormed :=
  ⟨isDigits_singleton rfl, by simp [usualLineHeight],
    by simpa [usualLineHeight] using isDigits_singleton rfl, by simp [usualLineHeight]⟩

theorem isValue_usualLineHeight : IsValue usualLineHeight.text :=
  .numeral ⟨_, wellFormed_usualLineHeight, Numeral.spelled_text wellFormed_usualLineHeight⟩

theorem takes_usualLineHeight {size : Binary64} (moved : movePoint? (.ofNat 14) (-1) = some size) :
    Reader.double.Takes usualLineHeight.text size := by
  have parts : usualLineHeight.parts = (14, -1) := rfl
  have places : usualLineHeight.places = some ['4'] := rfl
  have power : usualLineHeight.power = none := rfl
  have valued (rest : List Char) : usualLineHeight.value rest = .ok (.floating size) := by
    simp only [Numeral.value, parts, places, power, moved]
    rfl
  exact takes_number wellFormed_usualLineHeight valued rfl

theorem isDefault_lineHeight :
    Subobject.IsDefault .spacing "ratioLineHeight" usualLineHeight.text := by
  have moved : movePoint? (.ofNat 14) (-1) = some Spacing.defaultLineHeight := by decide +kernel
  exact .lineHeight (takes_usualLineHeight moved).whole?

end Theme

theorem Subobject.omissible_layout {name : String} {value : List Char}
    (usual : IsDefault layout name value) : Layout.form.Omissible name value := by
  cases usual with
  | breakpoints read =>
    refine Form.omissible_slot rfl read fun draft free => ?_
    obtain ⟨container, columns, breakpoints⟩ := draft
    obtain rfl : breakpoints = none := free
    rfl

theorem Subobject.omissible_spacing {name : String} {value : List Char}
    (usual : IsDefault spacing name value) : Spacing.form.Omissible name value := by
  cases usual with
  | lineHeight read =>
    refine Form.omissible_slot rfl read fun draft free => ?_
    obtain ⟨baseUnit, lineHeight⟩ := draft
    obtain rfl : lineHeight = none := free
    rfl

theorem Theme.omissible {name : String} {value : List Char} (usual : IsDefault name value) :
    form.Omissible name value := by
  cases usual with
  | transition read =>
    refine Form.omissible_slot rfl read fun draft free => ?_
    obtain ⟨colors, typography, layout, spacing, transition⟩ := draft
    obtain rfl : transition = none := free
    rfl
  | darkMode read =>
    refine Form.omissible_slot rfl read fun draft free => ?_
    obtain ⟨colors, typography, layout, spacing, transition, darkMode⟩ := draft
    obtain rfl : darkMode = none := free
    rfl
  | components read =>
    refine Form.omissible_slot rfl read fun draft free => ?_
    obtain ⟨colors, typography, layout, spacing, transition, darkMode, components⟩ := draft
    obtain rfl : components = none := free
    rfl
  | utilities read =>
    refine Form.omissible_slot rfl read fun draft free => ?_
    obtain ⟨colors, typography, layout, spacing, transition, darkMode, components, utilities⟩ := draft
    obtain rfl : utilities = none := free
    rfl

namespace Theme

theorem ofJson_text_iff {document : Document} {theme : Theme} :
    ofJson document.text = .ok theme ↔ form.record? (raw document.members) = some theme := by
  rw [← lawful_form.toOption_parse document, ofJson]
  cases parse form.reader document.text with
  | error fault => simp [Except.toOption]
  | ok other => simp [Except.toOption]

/-- An adjusted object is read as what it was. -/
theorem record?_of_subobject {object : Subobject} {members others inner new : List Member}
    {gap newGap : Gap}
    (differ : Differ object.name (objectText gap (raw inner)) (objectText newGap (raw new))
      members others) (adjusted : object.Adjusted inner new) :
    form.record? (raw members) = form.record? (raw others) := by
  cases object with
  | typography =>
    have read := Typography.lawful_form.record?_of_adjusted (fun usual => by cases usual) adjusted
    rw [← Typography.lawful_form.whole?_object gap, ← Typography.lawful_form.whole?_object newGap]
      at read
    exact lawful_form.record?_of_alike rfl differ read
  | layout =>
    have read := Layout.lawful_form.record?_of_adjusted Subobject.omissible_layout adjusted
    rw [← Layout.lawful_form.whole?_object gap, ← Layout.lawful_form.whole?_object newGap] at read
    exact lawful_form.record?_of_alike rfl differ read
  | spacing =>
    have read := Spacing.lawful_form.record?_of_adjusted Subobject.omissible_spacing adjusted
    rw [← Spacing.lawful_form.whole?_object gap, ← Spacing.lawful_form.whole?_object newGap] at read
    exact lawful_form.record?_of_alike rfl differ read
  | transition =>
    have read := Transition.lawful_form.record?_of_adjusted (fun usual => by cases usual) adjusted
    rw [← Transition.lawful_form.whole?_object gap, ← Transition.lawful_form.whole?_object newGap]
      at read
    exact lawful_form.record?_of_alike rfl differ read

theorem record?_of_rearranged {members others : List Member}
    (rearranged : Rearranged members others) :
    form.record? (raw members) = form.record? (raw others) := by
  cases rearranged with
  | outside adjusted => exact lawful_form.record?_of_adjusted omissible adjusted
  | inside object differ adjusted => exact record?_of_subobject differ adjusted

/-- Rearranged again and again, in either direction. -/
theorem record?_of_eqvGen {members others : List Member}
    (rearranged : Relation.EqvGen Rearranged members others) :
    form.record? (raw members) = form.record? (raw others) := by
  induction rearranged with
  | rel _ _ step => exact record?_of_rearranged step
  | refl => rfl
  | symm _ _ _ ih => exact ih.symm
  | trans _ _ _ _ _ first second => exact first.trans second

end Theme

section Repeated

variable {members others entries : List Member} {gap emptyGap : Gap}

/-- Nothing but the colours depends on the members of their object. -/
theorem Theme.record?_of_colors {mentions : List (String × Color)}
    (differ : Differ "colors" (objectText gap (raw entries)) (objectText emptyGap (raw []))
      members others) (lists : Color.reader.Lists entries mentions) :
    form.record? (raw members) =
      (form.record? (raw others)).map fun base => { base with colors := .gather mentions } := by
  have read := lists.whole?_eq_map Color.steady_reader gap emptyGap
  refine lawful_form.record?_of_differ rfl differ read fun draft value => ?_
  obtain ⟨colors, typography, layout, spacing⟩ := draft
  cases typography <;> cases layout <;> cases spacing <;> rfl

variable {mentions : List (String × Length)}

theorem Layout.record?_of_breakpoints
    (differ : Differ "breakpoints" (objectText gap (raw entries)) (objectText emptyGap (raw []))
      members others) (lists : Length.reader.Lists entries mentions) :
    form.record? (raw members) =
      (form.record? (raw others)).map fun base => { base with breakpoints := .gather mentions } := by
  have read := lists.whole?_eq_map Length.steady_reader gap emptyGap
  refine lawful_form.record?_of_differ rfl differ read fun draft value => ?_
  obtain ⟨container, columns, breakpoints⟩ := draft
  cases container <;> cases columns <;> rfl

/-- Nothing but the breakpoints depends on the members of their object. -/
theorem Theme.record?_of_breakpoints {inner new : List Member} {innerGap newGap : Gap}
    (outer : Differ "layout" (objectText innerGap (raw inner)) (objectText newGap (raw new))
      members others)
    (differ : Differ "breakpoints" (objectText gap (raw entries)) (objectText emptyGap (raw []))
      inner new) (lists : Length.reader.Lists entries mentions) :
    form.record? (raw members) = (form.record? (raw others)).map fun base =>
      { base with layout := { base.layout with breakpoints := .gather mentions } } := by
  have read := Layout.record?_of_breakpoints differ lists
  rw [← Layout.lawful_form.whole?_object innerGap, ← Layout.lawful_form.whole?_object newGap] at read
  refine lawful_form.record?_of_differ rfl outer read fun draft value => ?_
  obtain ⟨colors, typography, layout, spacing⟩ := draft
  cases colors <;> cases typography <;> cases spacing <;> rfl

end Repeated

namespace Theme

theorem ofJson_text_iff_of_map {document other : Document} {change : Theme → Theme}
    (same : form.record? (raw document.members) =
      (form.record? (raw other.members)).map change) (theme : Theme) :
    ofJson document.text = .ok theme ↔
      ∃ base, ofJson other.text = .ok base ∧ theme = change base := by
  rw [ofJson_text_iff, same, Option.map_eq_some_iff]
  exact exists_congr fun base => and_congr ofJson_text_iff.symm eq_comm

/-- Order, unknown members and explicit defaults do not matter; a name that is given again in the
colours or in the breakpoints keeps its place and takes the last value. This is about every object
in JSON with spaces around it. The defaults that can be given are those of `IsDefault`, and each of
them can be written. -/
theorem ofJson_rearranged :
    (∀ text : List Char, IsValue text → text.head? = some '{' → ∀ front back : Gap,
      ∃ document : Document,
        document.text = String.ofList (front.text ++ (text ++ back.text))) ∧
    (∀ document other : Document, Relation.EqvGen Rearranged document.members other.members →
      ∀ theme, ofJson document.text = .ok theme ↔ ofJson other.text = .ok theme) ∧
    (∀ (document other : Document) {entries : List Member} {gap emptyGap : Gap}
      {mentions : List (String × Color)},
      Differ "colors" (objectText gap (raw entries)) (objectText emptyGap (raw []))
        document.members other.members → Color.reader.Lists entries mentions →
      ∃ colors : Catalog Color, colors.Gathers mentions ∧ ∀ theme,
        ofJson document.text = .ok theme ↔
          ∃ base, ofJson other.text = .ok base ∧ theme = { base with colors }) ∧
    (∀ (document other : Document) {inner new entries : List Member}
      {innerGap newGap gap emptyGap : Gap} {mentions : List (String × Length)},
      Differ "layout" (objectText innerGap (raw inner)) (objectText newGap (raw new))
        document.members other.members →
      Differ "breakpoints" (objectText gap (raw entries)) (objectText emptyGap (raw [])) inner new →
      Length.reader.Lists entries mentions →
      ∃ breakpoints : Catalog Length, breakpoints.Gathers mentions ∧ ∀ theme,
        ofJson document.text = .ok theme ↔ ∃ base, ofJson other.text = .ok base ∧
          theme = { base with layout := { base.layout with breakpoints } }) ∧
    IsDefault "transition"
      (writeObject [("duration", quote "0.3s"), ("type", quote "ease")]).toList ∧
    IsDefault "darkMode" (writeBool false).toList ∧
    IsDefault "components" (writeList []).toList ∧
    IsDefault "utilities" (writeList []).toList ∧
    Subobject.IsDefault .layout "breakpoints" (writeObject []).toList ∧
    Subobject.IsDefault .spacing "ratioLineHeight" usualLineHeight.text := by
  refine ⟨fun _ isValue object => isValue.exists_document object,
    fun _ _ rearranged theme => ?_, fun _ _ _ _ _ _ differ lists => ?_,
    fun _ _ _ _ _ _ _ _ _ _ outer differ lists => ?_, isDefault_transition, isDefault_darkMode,
    isDefault_components, isDefault_utilities, isDefault_breakpoints, isDefault_lineHeight⟩
  · rw [ofJson_text_iff, ofJson_text_iff, record?_of_eqvGen rearranged]
  · exact ⟨_, Catalog.gathers_gather _, ofJson_text_iff_of_map (record?_of_colors differ lists)⟩
  · exact ⟨_, Catalog.gathers_gather _,
      ofJson_text_iff_of_map (record?_of_breakpoints outer differ lists)⟩

/-- The grid of a small theme, with the members of its breakpoints. -/
def seasideLayout (breakpoints : List Member) : List Member :=
  [.plain "container" (isValue_quote "1200px"), .plain "cols" (isValue_count 12),
    .plain "breakpoints" (isValue_object .none breakpoints)]

/-- A small theme, with the members of its colours, of its breakpoints and of its spacing. -/
def seaside (colors breakpoints spacing : List Member) : List Member :=
  [.plain "colors" (isValue_object .none colors),
    .plain "typography" (isValue_object .none [.plain "main" (isValue_quote "Inter"),
      .plain "headlines" (isValue_quote "Georgia")]),
    .plain "layout" (isValue_object .none (seasideLayout breakpoints)),
    .plain "spacing" (isValue_object .none spacing)]

def seasideUnit : Member := .plain "baseUnit" (isValue_quote "4px")

theorem exists_ofJson_seaside : ∃ theme,
    ofJson (Document.text ⟨.none, .none, seaside [] [] [seasideUnit], .none⟩) = .ok theme := by
  have colors : (Reader.catalog Color.reader).Takes (writeObject []).toList .empty :=
    takes_catalog .nil
  have layout : Layout.form.reader.Takes (writeObject [("container", quote "1200px"),
      ("cols", toString 12), ("breakpoints", writeObject [])]).toList
      ⟨⟨.ofNat 1200, "px"⟩, 12, .empty⟩ :=
    takes_form (.cons (takes_slot rfl rfl ((takes_string "1200px").interpret (by decide +kernel)))
      (.cons (takes_slot rfl rfl (takes_count (by decide))) (.cons
        (takes_slot rfl rfl (takes_catalog .nil)) (.nil _)))) rfl
  have spacing : Spacing.form.reader.Takes (writeObject [("baseUnit", quote "4px")]).toList
      ⟨⟨.ofNat 4, "px"⟩, Spacing.defaultLineHeight⟩ :=
    Spacing.takes_baseUnit (by decide +kernel)
  have taken : form.reader.Takes _ ⟨_, ⟨"Inter", "Georgia"⟩, _, _, _, _, _, _⟩ :=
    takes_required colors layout spacing
  have written :
      Document.text ⟨.none, .none, seaside [] [] [seasideUnit], .none⟩ = writeObject [
        ("colors", writeObject []),
        ("typography", writeObject [("main", quote "Inter"), ("headlines", quote "Georgia")]),
        ("layout", writeObject [("container", quote "1200px"), ("cols", toString 12),
          ("breakpoints", writeObject [])]),
        ("spacing", writeObject [("baseUnit", quote "4px")])] := by decide +kernel
  rw [written]
  exact ⟨_, ofJson_of_takes taken⟩

/-- Colours of which one is given twice. -/
def seasideColors : List Member :=
  [.plain "sea" (isValue_quote "#ffffff"), .plain "sky" (isValue_quote "#336699"),
    .plain "sea" (isValue_quote "#0066cc")]

theorem lists_seasideColors : Color.reader.Lists seasideColors
    [("sea", ⟨0xff, 0xff, 0xff⟩), ("sky", ⟨0x33, 0x66, 0x99⟩), ("sea", ⟨0, 0x66, 0xcc⟩)] := by
  have white : Color.parse "#ffffff" = .ok ⟨0xff, 0xff, 0xff⟩ := by decide +kernel
  have sky : Color.parse "#336699" = .ok ⟨0x33, 0x66, 0x99⟩ := by decide +kernel
  have sea : Color.parse "#0066cc" = .ok ⟨0, 0x66, 0xcc⟩ := by decide +kernel
  exact .cons (Member.read_plain "sea" white) (.cons (Member.read_plain "sky" sky)
    (.cons (Member.read_plain "sea" sea) .nil))

/-- Breakpoints of which one is given twice. -/
def seasideWidths : List Member :=
  [.plain "md" (isValue_quote "600px"), .plain "lg" (isValue_quote "64em"),
    .plain "md" (isValue_quote "48em")]

theorem lists_seasideWidths : Length.reader.Lists seasideWidths
    [("md", ⟨.ofNat 600, "px"⟩), ("lg", ⟨.ofNat 64, "em"⟩), ("md", ⟨.ofNat 48, "em"⟩)] := by
  have first : Length.parse "600px" = .ok ⟨.ofNat 600, "px"⟩ := by decide +kernel
  have large : Length.parse "64em" = .ok ⟨.ofNat 64, "em"⟩ := by decide +kernel
  have last : Length.parse "48em" = .ok ⟨.ofNat 48, "em"⟩ := by decide +kernel
  exact .cons (Member.read_plain "md" first) (.cons (Member.read_plain "lg" large)
    (.cons (Member.read_plain "md" last) .nil))

/-- The small theme with a note and the usual height of a line, from its end to its beginning. -/
def seasideReversed : List Member :=
  (.plain "note" .null :: seaside seasideColors seasideWidths
    [.plain "ratioLineHeight" isValue_usualLineHeight, seasideUnit]).reverse

theorem rearranged_seaside :
    Relation.EqvGen Rearranged (seaside seasideColors seasideWidths [seasideUnit])
      seasideReversed := by
  let ratio : Member := .plain "ratioLineHeight" isValue_usualLineHeight
  let whole := seaside seasideColors seasideWidths [ratio, seasideUnit]
  have unsaid : ∀ other ∈ [] ++ [seasideUnit], ¬ other.Named "ratioLineHeight" := by
    rw [List.nil_append, List.forall_mem_singleton]
    exact fun named => absurd ((Member.named_plain "baseUnit" _).unique named) (by decide)
  have spaced : Subobject.spacing.Adjusted [seasideUnit] [ratio, seasideUnit] :=
    @Adjusted.default _ _ _ _ [] _ _ _ (Member.named_plain _ _) isDefault_lineHeight unsaid
  have usual : Rearranged (seaside seasideColors seasideWidths [seasideUnit]) whole :=
    .inside .spacing
      (@Differ.mk _ (objectText .none (raw [seasideUnit])) (objectText .none (raw [ratio, seasideUnit]))
        [_, _, _] [] _ _ (Member.named_plain _ _) rfl (Member.named_plain _ _) rfl) spaced
  have noted : Rearranged whole (.plain "note" .null :: whole) :=
    .outside (@Adjusted.unknown _ _ _ _ [] _ _ _ (Member.named_plain "note" _) (by decide))
  have reversed : Rearranged (.plain "note" .null :: whole) seasideReversed :=
    .outside (.permuted (((List.reverse_perm _).symm.map _).map _))
  exact (Relation.EqvGen.rel _ _ usual).trans _ _ _ ((Relation.EqvGen.rel _ _ noted).trans _ _ _
    (.rel _ _ reversed))

theorem ofJson_rearranged_seaside : ∃ document other : Document, ∃ theme,
    document.members = seaside seasideColors seasideWidths [seasideUnit] ∧
      other.members = seasideReversed ∧
      ofJson document.text = .ok theme ∧ ofJson other.text = .ok theme ∧
      theme.colors.names = ["sea", "sky"] ∧
      theme.colors.find? "sea" = some ⟨0, 0x66, 0xcc⟩ ∧
      theme.layout.breakpoints.names = ["md", "lg"] ∧
      theme.layout.breakpoints.find? "md" = some ⟨.ofNat 48, "em"⟩ := by
  obtain ⟨base, read⟩ := exists_ofJson_seaside
  obtain ⟨-, reorder, color, widen, -⟩ := ofJson_rearranged
  let document (colors breakpoints : List Member) : Document :=
    ⟨.none, .none, seaside colors breakpoints [seasideUnit], .none⟩
  have layout : Differ "layout" (objectText .none (raw (seasideLayout seasideWidths)))
      (objectText .none (raw (seasideLayout []))) (document [] seasideWidths).members
      (document [] []).members :=
    @Differ.mk _ _ _ [_, _] [_] _ _ (Member.named_plain _ _) rfl (Member.named_plain _ _) rfl
  have widths : Differ "breakpoints" (objectText .none (raw seasideWidths))
      (objectText .none (raw [])) (seasideLayout seasideWidths) (seasideLayout []) :=
    @Differ.mk _ _ _ [_, _] [] _ _ (Member.named_plain _ _) rfl (Member.named_plain _ _) rfl
  obtain ⟨breakpoints, gathers, widened⟩ := widen _ _ layout widths lists_seasideWidths
  have colors : Differ "colors" (objectText .none (raw seasideColors)) (objectText .none (raw []))
      (document seasideColors seasideWidths).members (document [] seasideWidths).members :=
    @Differ.mk _ _ _ [] [_, _, _] _ _ (Member.named_plain _ _) rfl (Member.named_plain _ _) rfl
  obtain ⟨palette, mixes, colored⟩ := color _ _ colors lists_seasideColors
  have last {α : Type} (x y z : α) (first second : String) (apart : (first == second) = false) :
      [(first, x), (second, y), (first, z)].reverse.lookup first = some z := by simp
  have whole := (colored _).mpr ⟨_, (widened _).mpr ⟨base, read, rfl⟩, rfl⟩
  refine ⟨_, ⟨.none, .none, seasideReversed, .none⟩, _, rfl, rfl, whole,
    (reorder _ _ rearranged_seaside _).mp whole, ?_, ?_, ?_, ?_⟩
  · exact mixes.names.trans (by decide)
  · exact (mixes.find? "sea").trans (last _ _ _ _ _ rfl)
  · exact gathers.names.trans (by decide)
  · exact (gathers.find? "md").trans (last _ _ _ _ _ rfl)

end Theme

end ThemeCss
