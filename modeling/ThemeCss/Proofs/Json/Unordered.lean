import ThemeCss.Proofs.Json.Members

/-! # Members in any order

Filling one field of a record has nothing to do with filling another one, and a field is filled
once. So the members of a record commute: their order does not matter, a member without a field
can be left out, and so can one that says what the record has by default.
-/

namespace ThemeCss.Json

variable {α β σ τ : Type}

namespace Field

/-- Filling one of the fields and filling the other one have nothing to do with each other. -/
structure Apart (f g : Field σ) : Prop where
  first : ∀ {draft next value}, (f.fill draft).whole? value = some next →
    g.filled next = g.filled draft
  second : ∀ {draft next value}, (g.fill draft).whole? value = some next →
    f.filled next = f.filled draft
  swap : ∀ draft v w,
    ((f.fill draft).whole? v).bind (fun next => (g.fill next).whole? w) =
      ((g.fill draft).whole? w).bind (fun next => (f.fill next).whole? v)

theorem Apart.symm {f g : Field σ} (apart : f.Apart g) : g.Apart f :=
  ⟨apart.second, apart.first, fun draft v w => (apart.swap draft w v).symm⟩

instance : Std.Symm (@Apart σ) := ⟨fun _ _ => Apart.symm⟩

/-- A field is filled from values that are read the same wherever they stand, and is then filled. -/
structure Lawful (field : Field σ) : Prop where
  steady : ∀ draft, (field.fill draft).Steady
  once : ∀ {draft next value}, (field.fill draft).whole? value = some next →
    field.filled next = true

theorem Lawful.fillOnce?_twice {field : Field σ} (lawful : field.Lawful) (draft : σ)
    (v w : List Char) : (field.fillOnce? draft v).bind (field.fillOnce? · w) = none := by
  rw [Option.bind_eq_none_iff]
  intro next first
  simp only [fillOnce?] at first ⊢
  split at first
  · cases first
  · rw [if_pos (lawful.once first)]

theorem Apart.fillOnce?_bind {f g : Field σ} (apart : f.Apart g) (draft : σ) (v w : List Char) :
    (f.fillOnce? draft v).bind (g.fillOnce? · w) =
      if f.filled draft ∨ g.filled draft then none
      else ((f.fill draft).whole? v).bind fun next => (g.fill next).whole? w := by
  by_cases first : f.filled draft
  · simp [fillOnce?, first]
  · cases read : (f.fill draft).whole? v with
    | none => simp [fillOnce?, read]
    | some next => simp [fillOnce?, first, read, apart.first read]

theorem Apart.fillOnce?_comm {f g : Field σ} (apart : f.Apart g) (draft : σ) (v w : List Char) :
    (f.fillOnce? draft v).bind (g.fillOnce? · w) =
      (g.fillOnce? draft w).bind (f.fillOnce? · v) := by
  rw [apart.fillOnce?_bind, apart.symm.fillOnce?_bind, apart.swap]
  simp only [or_comm]

section Slots

variable {name other : String} {get : σ → Option α} {set : σ → α → σ} {reader : Reader α}
  {get' : σ → Option β} {set' : σ → β → σ} {reader' : Reader β}

theorem whole?_slot (draft : σ) (value : List Char) :
    ((slot name get set reader).fill draft).whole? value = (reader.whole? value).map (set draft) :=
  Reader.whole?_map (set draft)

theorem lawful_slot (steady : reader.Steady)
    (set_get : ∀ draft value, get (set draft value) = some value) :
    (slot name get set reader).Lawful where
  steady draft := steady.map (set draft)
  once read := by
    rw [whole?_slot] at read
    obtain ⟨value, -, rfl⟩ := Option.map_eq_some_iff.mp read
    exact congrArg Option.isSome (set_get _ value)

theorem apart_slot (left : ∀ draft value, get' (set draft value) = get' draft)
    (right : ∀ draft value, get (set' draft value) = get draft)
    (swap : ∀ draft v w, set' (set draft v) w = set (set' draft w) v) :
    (slot name get set reader).Apart (slot other get' set' reader') where
  first read := by
    rw [whole?_slot] at read
    obtain ⟨value, -, rfl⟩ := Option.map_eq_some_iff.mp read
    exact congrArg Option.isSome (left _ value)
  second read := by
    rw [whole?_slot] at read
    obtain ⟨value, -, rfl⟩ := Option.map_eq_some_iff.mp read
    exact congrArg Option.isSome (right _ value)
  swap draft v w := by
    simp only [whole?_slot]
    cases reader.whole? v <;> cases reader'.whole? w <;> simp [swap]

end Slots

end Field

theorem foldlM_perm {step : σ → τ → Option σ}
    (comm : ∀ state a b, (step state a).bind (step · b) = (step state b).bind (step · a))
    {items others : List τ} (perm : items.Perm others) (state : σ) :
    items.foldlM step state = others.foldlM step state := by
  induction perm generalizing state with
  | nil => rfl
  | cons item _ ih =>
    rw [List.foldlM_cons, List.foldlM_cons]
    exact congrArg (step state item).bind (funext ih)
  | swap a b items =>
    simp only [List.foldlM_cons, Option.bind_eq_bind]
    have same := congrArg (fun next? => Option.bind next? fun next => items.foldlM step next)
      (comm state b a)
    simpa only [Option.bind_assoc] using same
  | trans _ _ ih ih' => exact (ih state).trans (ih' state)

namespace RawMember

/-- What is read of a member: its key and its value, without the spaces around them. -/
def content (member : RawMember) : List Char × List Char := (member.key, member.value)

end RawMember

namespace Form

variable {form : Form σ α}

theorem lead?_of_field {member : RawMember} {field : Field σ} {name : String}
    (named : member.name? = some name)
    (found : form.fields.find? (·.name == name) = some field) (draft : σ) :
    member.lead? form.fill? draft = field.fillOnce? draft member.value := by
  rw [RawMember.lead?, named]
  exact fill?_of_field found draft member.value

/-- Lawful fields that have nothing to do with each other. -/
structure Lawful (form : Form σ α) : Prop where
  fields : ∀ field ∈ form.fields, field.Lawful
  apart : form.fields.Pairwise Field.Apart
  blank : ∀ field ∈ form.fields, field.filled form.blank = false

/-- The laws of a record with two fields. -/
theorem lawful_of_pair {f g : Field σ} (fields : form.fields = [f, g]) (first : f.Lawful)
    (second : g.Lawful) (apart : f.Apart g)
    (blank : f.filled form.blank = false ∧ g.filled form.blank = false) : form.Lawful := by
  refine ⟨?_, ?_, ?_⟩ <;> rw [fields]
  · exact List.forall_mem_cons.mpr ⟨first, List.forall_mem_singleton.mpr second⟩
  · exact List.pairwise_pair.mpr apart
  · exact List.forall_mem_cons.mpr ⟨blank.1, List.forall_mem_singleton.mpr blank.2⟩

namespace Lawful

variable (lawful : form.Lawful)
include lawful

theorem steady : form.Steady := fun field known => (lawful.fields field known).steady

theorem apart_of_ne {f g : Field σ} (known : f ∈ form.fields) (other : g ∈ form.fields)
    (ne : f ≠ g) : f.Apart g :=
  lawful.apart.forall known other ne

/-- What two members fill does not depend on their order; two members of one field fill nothing. -/
theorem fill?_comm (draft : σ) (n m : String) (v w : List Char) :
    (form.fill? draft n v).bind (form.fill? · m w) =
      (form.fill? draft m w).bind (form.fill? · n v) := by
  cases first : form.fields.find? (·.name == n) with
  | none => simp only [fill?_of_unknown first, Option.bind_some, Option.bind_fun_some]
  | some f =>
    cases second : form.fields.find? (·.name == m) with
    | none => simp only [fill?_of_unknown second, Option.bind_some, Option.bind_fun_some]
    | some g =>
      have known := List.mem_of_find?_eq_some first
      have other := List.mem_of_find?_eq_some second
      simp only [fill?_of_field first, fill?_of_field second]
      by_cases same : f = g
      · subst same
        rw [(lawful.fields f known).fillOnce?_twice, (lawful.fields f known).fillOnce?_twice]
      · exact (lawful.apart_of_ne known other same).fillOnce?_comm draft v w

/-- The record of an object does not depend on the order of the members, nor on the spaces between
them. -/
theorem record?_perm {members others : List RawMember}
    (perm : (members.map RawMember.content).Perm (others.map RawMember.content)) :
    form.record? members = form.record? others := by
  let step (draft : σ) (content : List Char × List Char) : Option σ :=
    (Reader.string.whole? ('"' :: (content.1 ++ ['"']))).bind fun name =>
      form.fill? draft name content.2
  have comm (draft : σ) (a b : List Char × List Char) :
      (step draft a).bind (step · b) = (step draft b).bind (step · a) := by
    simp only [step]
    cases Reader.string.whole? ('"' :: (a.1 ++ ['"'])) with
    | none => simp
    | some n =>
      cases Reader.string.whole? ('"' :: (b.1 ++ ['"'])) with
      | none => simp
      | some m => exact lawful.fill?_comm draft n m a.2 b.2
  have contents (members : List RawMember) (draft : σ) :
      members.foldlM (RawMember.lead? form.fill?) draft =
        (members.map RawMember.content).foldlM step draft := by
    rw [List.foldlM_map]
    rfl
  rw [record?, record?, draft?, draft?, contents, contents, foldlM_perm comm perm]

/-- A field stays as it is where nobody names it. -/
theorem filled_of_not_named {field : Field σ} (known : field ∈ form.fields)
    {members : List RawMember} (absent : ∀ member ∈ members, member.name? ≠ some field.name)
    {draft result : σ}
    (read : members.foldlM (RawMember.lead? form.fill?) draft = some result) :
    field.filled result = field.filled draft := by
  induction members generalizing draft with
  | nil =>
    cases read
    rfl
  | cons member members ih =>
    obtain ⟨other, others⟩ := List.forall_mem_cons.mp absent
    rw [List.foldlM_cons, Option.bind_eq_bind, Option.bind_eq_some_iff] at read
    obtain ⟨next, first, read⟩ := read
    rw [ih others read]
    obtain ⟨name, named, filled⟩ := Option.bind_eq_some_iff.mp first
    cases found : form.fields.find? (·.name == name) with
    | none =>
      rw [fill?_of_unknown found] at filled
      rw [Option.some.inj filled]
    | some g =>
      have ne : g ≠ field := by
        rintro rfl
        have same := List.find?_some found
        rw [beq_iff_eq] at same
        exact other (named.trans (congrArg some same.symm))
      rw [fill?_of_field found, Field.fillOnce?] at filled
      split at filled
      · cases filled
      · exact (lawful.apart_of_ne (List.mem_of_find?_eq_some found) known ne).first filled

/-- A member may as well be the last one. -/
theorem record?_insert (before after : List RawMember) (member : RawMember) :
    form.record? (before ++ member :: after) = (form.draft? (before ++ after)).bind fun draft =>
      (member.lead? form.fill? draft).bind fun next => (form.finish next).toOption := by
  have perm : (before ++ member :: after).Perm (before ++ after ++ [member]) :=
    List.perm_middle.trans (List.perm_append_singleton _ _).symm
  rw [lawful.record?_perm (perm.map RawMember.content), record?, draft?, List.foldlM_append]
  simp only [List.foldlM_cons, List.foldlM_nil, bind_pure, Option.bind_eq_bind, Option.bind_assoc]
  rfl

variable {before after : List RawMember} {member : RawMember}

/-- A member without a field can be left out. -/
theorem record?_unknown {name : String} (named : member.name? = some name)
    (unknown : form.fields.find? (·.name == name) = none) :
    form.record? (before ++ member :: after) = form.record? (before ++ after) := by
  have skipped (draft : σ) : member.lead? form.fill? draft = some draft := by
    rw [RawMember.lead?, named]
    exact fill?_of_unknown unknown draft member.value
  simp only [lawful.record?_insert, skipped, Option.bind_some]
  rfl

/-- A member that says what holds without it can be left out. -/
theorem record?_default {field : Field σ} {name : String} (named : member.name? = some name)
    (found : form.fields.find? (·.name == name) = some field)
    (absent : ∀ other ∈ before ++ after, other.name? ≠ some name)
    (default : ∀ draft, field.filled draft = false → ∃ next,
      (field.fill draft).whole? member.value = some next ∧ form.finish next = form.finish draft) :
    form.record? (before ++ member :: after) = form.record? (before ++ after) := by
  have known := List.mem_of_find?_eq_some found
  have same := List.find?_some found
  rw [beq_iff_eq] at same
  rw [lawful.record?_insert, record?]
  cases read : form.draft? (before ++ after) with
  | none => rfl
  | some draft =>
    have free : field.filled draft = false := by
      rw [lawful.filled_of_not_named known (same ▸ absent) read, lawful.blank field known]
    obtain ⟨next, filled, finished⟩ := default draft free
    rw [Option.bind_some, Option.bind_some, lead?_of_field named found, Field.fillOnce?, free,
      if_neg Bool.false_ne_true, filled, Option.bind_some, finished]

/-- Members that fill one field with values that differ in some way make records that differ in some
way. -/
theorem record?_map {β : Type} {name : String} {get : σ → Option β} {set : σ → β → σ}
    {reader : Reader β} {other : RawMember} {f : β → β} {g : α → α}
    (found : form.fields.find? (·.name == name) = some (Field.slot name get set reader))
    (named : member.name? = some name) (otherNamed : other.name? = some name)
    (read : reader.whole? member.value = (reader.whole? other.value).map f)
    (finished : ∀ draft value, (form.finish (set draft (f value))).toOption =
      (form.finish (set draft value)).toOption.map g) :
    form.record? (before ++ member :: after) =
      (form.record? (before ++ other :: after)).map g := by
  rw [lawful.record?_insert, lawful.record?_insert]
  cases form.draft? (before ++ after) with
  | none => rfl
  | some draft =>
    rw [Option.bind_some, Option.bind_some, lead?_of_field named found,
      lead?_of_field otherNamed found, Field.fillOnce?, Field.fillOnce?]
    split
    · rfl
    · rw [Field.whole?_slot, Field.whole?_slot, read]
      cases reader.whole? other.value with
      | none => rfl
      | some value => exact finished draft value

end Lawful

end Form

/-- A member of an object in JSON. -/
structure Member extends RawMember where
  isValue : IsValue value

namespace Member

/-- The key of the member spells the name. -/
def Named (member : Member) (name : String) : Prop := Spells member.key name.toList

theorem Named.name? {member : Member} {name : String} (named : member.Named name) :
    member.name? = some name :=
  RawMember.name?_eq_some_iff.mpr named

theorem Named.unique {member : Member} {name other : String} (named : member.Named name)
    (also : member.Named other) : name = other :=
  Option.some.inj (named.name?.symm.trans also.name?)

/-- A member as it is written: without spaces, and with nothing escaped that need not be. -/
def plain (name : String) {value : List Char} (isValue : IsValue value) : Member where
  front := .none
  key := name.toList.flatMap escapeChar
  middle := .none
  ahead := .none
  value := value
  back := .none
  isBody := (spells_escaped name.toList).isBody
  isValue := isValue

theorem named_plain (name : String) {value : List Char} (isValue : IsValue value) :
    (plain name isValue).Named name :=
  spells_escaped name.toList

end Member

/-- The members without what is known of their values. -/
def raw (members : List Member) : List RawMember := members.map (·.toRawMember)

theorem raw_insert (before after : List Member) (member : Member) :
    raw (before ++ member :: after) = raw before ++ member.toRawMember :: raw after := by
  simp [raw]

theorem isValue_of_mem_raw (members : List Member) : ∀ member ∈ raw members, IsValue member.value :=
  List.forall_mem_map.mpr fun member _ => member.isValue

theorem isValue_object (gap : Gap) (members : List Member) :
    IsValue (objectText gap (raw members)) :=
  .object gap (isValue_of_mem_raw members)

theorem isValue_quote (text : String) : IsValue (quote text).toList := by
  rw [toList_quote]
  exact .string (spells_escaped text.toList).isBody

theorem Member.value_plain (name : String) {value : List Char} (isValue : IsValue value) :
    (plain name isValue).value = value := rfl

/-- A string that means something is read where it is written. -/
theorem Member.read_plain {f : String → Except ValueError α} {text : String} {value : α}
    (name : String) (meant : f text = .ok value) :
    (plain name (isValue_quote text)).Named name ∧
      (Reader.string.interpret f).whole? (plain name (isValue_quote text)).value = some value := by
  rw [value_plain]
  exact ⟨named_plain _ _, ((takes_string text).interpret meant).whole?⟩

theorem isValue_count (n : Nat) : IsValue (toString n).toList := by
  have text : (toString n).toList = (Numeral.ofNat n).text := by
    rw [Numeral.text_ofNat, Nat.toString_eq_repr, Nat.toList_repr]
  have wellFormed := Numeral.wellFormed_ofNat n
  rw [text]
  exact .numeral ⟨_, wellFormed, Numeral.spelled_text wellFormed⟩

/-- The members are the same but for one, whose name stays and whose value is another text. -/
inductive Differ (name : String) (value new : List Char) : List Member → List Member → Prop where
  | mk {before after : List Member} {member other : Member} :
    member.Named name → member.value = value → other.Named name → other.value = new →
      Differ name value new (before ++ member :: after) (before ++ other :: after)

/-- The members differ in their order, or in one that the record does not know or that says what
the record has by default. -/
inductive Adjusted (form : Form σ α) (isDefault : String → List Char → Prop) :
    List Member → List Member → Prop where
  | permuted {members others : List Member} :
    ((raw members).map RawMember.content).Perm ((raw others).map RawMember.content) →
      Adjusted form isDefault members others
  | unknown {before after : List Member} {member : Member} {name : String} :
    member.Named name → name ∉ form.fields.map (·.name) →
      Adjusted form isDefault (before ++ after) (before ++ member :: after)
  | default {before after : List Member} {member : Member} {name : String} :
    member.Named name → isDefault name member.value →
      (∀ other ∈ before ++ after, ¬ other.Named name) →
        Adjusted form isDefault (before ++ after) (before ++ member :: after)

/-- A text that a field reads as what the record has without it. -/
def Form.Omissible (form : Form σ α) (name : String) (value : List Char) : Prop :=
  ∃ field, form.fields.find? (·.name == name) = some field ∧
    ∀ draft, field.filled draft = false → ∃ next,
      (field.fill draft).whole? value = some next ∧ form.finish next = form.finish draft

theorem Form.omissible_slot {form : Form σ α} {name : String} {get : σ → Option β}
    {set : σ → β → σ} {reader : Reader β} {value : List Char} {default : β}
    (found : form.fields.find? (·.name == name) = some (Field.slot name get set reader))
    (read : reader.whole? value = some default)
    (finished : ∀ draft, get draft = none → form.finish (set draft default) = form.finish draft) :
    form.Omissible name value := by
  refine ⟨_, found, fun draft free => ⟨set draft default, ?_, finished draft ?_⟩⟩
  · rw [Field.whole?_slot, read]
    rfl
  · exact Option.isNone_iff_eq_none.mp (Option.isSome_eq_false_iff.mp free)

namespace Form.Lawful

variable {form : Form σ α} {isDefault : String → List Char → Prop} (lawful : form.Lawful)
include lawful

theorem record?_of_adjusted
    (omissible : ∀ {name value}, isDefault name value → form.Omissible name value)
    {members others : List Member} (adjusted : Adjusted form isDefault members others) :
    form.record? (raw members) = form.record? (raw others) := by
  cases adjusted with
  | permuted perm => exact lawful.record?_perm perm
  | @unknown before after member name named absent =>
    have unknown : form.fields.find? (·.name == name) = none := by
      rw [List.find?_eq_none]
      intro field known same
      exact absent (List.mem_map.mpr ⟨field, known, beq_iff_eq.mp same⟩)
    rw [raw_insert, lawful.record?_unknown named.name? unknown, raw, List.map_append]
    rfl
  | @default before after member name named usual absent =>
    obtain ⟨field, found, default⟩ := omissible usual
    have absent : ∀ other ∈ raw before ++ raw after, other.name? ≠ some name := by
      rw [raw, raw, ← List.map_append, List.forall_mem_map]
      exact fun other known named => absent other known (RawMember.name?_eq_some_iff.mp named)
    rw [raw_insert, lawful.record?_default named.name? found absent default, raw, List.map_append]
    rfl

/-- What is read of one member carries over to the record. -/
theorem record?_of_differ {β : Type} {name : String} {get : σ → Option β} {set : σ → β → σ}
    {reader : Reader β} {value new : List Char} {members others : List Member} {f : β → β}
    {g : α → α} (found : form.fields.find? (·.name == name) = some (Field.slot name get set reader))
    (differ : Differ name value new members others)
    (read : reader.whole? value = (reader.whole? new).map f)
    (finished : ∀ draft value, (form.finish (set draft (f value))).toOption =
      (form.finish (set draft value)).toOption.map g) :
    form.record? (raw members) = (form.record? (raw others)).map g := by
  obtain ⟨named, rfl, otherNamed, rfl⟩ := differ
  rw [raw_insert, raw_insert]
  exact lawful.record?_map found named.name? otherNamed.name? read finished

theorem record?_of_alike {β : Type} {name : String} {get : σ → Option β} {set : σ → β → σ}
    {reader : Reader β} {value new : List Char} {members others : List Member}
    (found : form.fields.find? (·.name == name) = some (Field.slot name get set reader))
    (differ : Differ name value new members others)
    (alike : reader.whole? value = reader.whole? new) :
    form.record? (raw members) = form.record? (raw others) := by
  have read : reader.whole? value = (reader.whole? new).map id := by rw [alike, Option.map_id, id]
  have finished (draft : σ) (value : β) : (form.finish (set draft (id value))).toOption =
      (form.finish (set draft value)).toOption.map id := by
    rw [Option.map_id]
    rfl
  have same := lawful.record?_of_differ found differ read finished
  rwa [Option.map_id] at same

theorem whole?_object (gap : Gap) (members : List Member) :
    form.reader.whole? (objectText gap (raw members)) = form.record? (raw members) :=
  (Form.settles_object lawful.steady gap (isValue_of_mem_raw members)).whole?

end Form.Lawful

/-- Every object in JSON is made of such members. -/
theorem IsValue.exists_members {text : List Char} (isValue : IsValue text)
    (object : text.head? = some '{') : ∃ gap members, text = objectText gap (raw members) := by
  cases isValue with
  | null | yes | no | string | array => cases object
  | numeral isNumeral =>
    obtain ⟨first, others, rfl, number⟩ := isNumeral.exists_cons
    obtain rfl := Option.some.inj object
    exact absurd number (by decide)
  | @object gap members values =>
    refine ⟨gap, members.attach.map fun member => ⟨member.1, values member.1 member.2⟩, ?_⟩
    rw [raw, List.map_map]
    exact congrArg (objectText gap) (List.attach_map_subtype_val members).symm

/-- The text of an object, with spaces around it. -/
structure Document where
  front : Gap
  gap : Gap
  members : List Member
  back : Gap

def Document.text (document : Document) : String :=
  String.ofList (document.front.text ++
    (objectText document.gap (raw document.members) ++ document.back.text))

/-- Every JSON text that is an object is the text of a document. -/
theorem IsValue.exists_document {text : List Char} (isValue : IsValue text)
    (object : text.head? = some '{') (front back : Gap) :
    ∃ document : Document,
      document.text = String.ofList (front.text ++ (text ++ back.text)) := by
  obtain ⟨gap, members, rfl⟩ := isValue.exists_members object
  exact ⟨⟨front, gap, members, back⟩, rfl⟩

theorem Gap.stops (gap : Gap) : Stops gap.text := by
  rw [← List.append_nil gap.text]
  exact gap.stops_append (by simp [Stops])

/-- A text with spaces around its value holds that value. -/
theorem Reader.Steady.toOption_parse {reader : Reader α} (steady : reader.Steady)
    {text : List Char} (isValue : IsValue text) (front back : Gap) :
    (parse reader (String.ofList (front.text ++ (text ++ back.text)))).toOption =
      reader.whole? text := by
  have ended : skipSpace back.text = [] := List.dropWhile_eq_nil_iff.mpr back.spaces
  have read := steady.run_append isValue back.stops
  rw [parse, String.toList_ofList, steady.skips]
  cases run : reader.run (text ++ back.text) with
  | error fault =>
    rw [run] at read
    cases whole : reader.whole? text with
    | none => rfl
    | some value =>
      rw [whole] at read
      cases read
  | ok result =>
    rw [run] at read
    cases whole : reader.whole? text with
    | none =>
      rw [whole] at read
      cases read
    | some value =>
      rw [whole] at read
      obtain rfl : result = (value, back.text) := Option.some.inj read
      simp only [ended]
      rfl

theorem Form.Lawful.toOption_parse {form : Form σ α} (lawful : form.Lawful) (document : Document) :
    (parse form.reader document.text).toOption = form.record? (raw document.members) := by
  rw [Document.text, (Form.steady_reader lawful.steady).toOption_parse (isValue_object _ _),
    lawful.whole?_object]

end ThemeCss.Json
