import ThemeCss.Proofs.Vendor.Locality

/-! # Copies are all that is put in

Whatever the text, a vendor rule takes nothing out of it and puts no brace into it, although later
rules also rewrite what earlier ones have put in. So the blocks of the text stay as they are, and
what stands between two braces keeps its characters in order. Something is put in as soon as one rule
accepts a declaration.
-/

namespace ThemeCss

theorem forall₂_modifyHead {α : Type} {R : α → α → Prop} {f g : α → α} {first second : List α}
    (step : ∀ a b, R a b → R (f a) (g b)) (each : List.Forall₂ R first second) :
    List.Forall₂ R (first.modifyHead f) (second.modifyHead g) := by
  cases each with
  | nil => exact .nil
  | cons front others => exact .cons (step _ _ front) others

/-- Lists put together from longer parts are equal only part by part. -/
theorem flatMap_eq_flatMap_iff {α β : Type} {f g : α → List β} {items : List α}
    (longer : ∀ a, (g a).length ≤ (f a).length) :
    items.flatMap f = items.flatMap g ↔ ∀ a ∈ items, f a = g a := by
  refine ⟨fun same => ?_, List.flatMap_congr⟩
  have total (rest : List α) : (rest.flatMap g).length ≤ (rest.flatMap f).length := by
    rw [List.length_flatMap, List.length_flatMap]
    exact List.sum_le_sum fun a _ => longer a
  induction items with
  | nil => exact List.forall_mem_nil _
  | cons a rest ih =>
    rw [List.flatMap_cons, List.flatMap_cons] at same
    have lengths := congrArg List.length same
    rw [List.length_append, List.length_append] at lengths
    have equal : (f a).length = (g a).length := by
      have front := longer a
      have others := total rest
      omega
    obtain ⟨front, others⟩ := List.append_inj same equal
    exact List.forall_mem_cons.mpr ⟨front, ih others⟩

/-- Whether a character opens or closes a block. -/
def isBrace (c : Char) : Bool := c == '{' || c == '}'

/-- What stands between the braces of a text, in front of the first one and behind the last one. -/
def stretches (text : List Char) : List (List Char) := text.splitOnP isBrace

theorem stretches_cons (c : Char) (text : List Char) :
    stretches (c :: text) =
      if isBrace c then [] :: stretches text else (stretches text).modifyHead (List.cons c) :=
  List.splitOnP_cons_eq_if_modifyHead c text

/-- The second text is the first one with characters put in, none of them a brace. -/
inductive Inserted : List Char → List Char → Prop where
  | nil : Inserted [] []
  | kept (c : Char) {text longer : List Char} (rest : Inserted text longer) :
      Inserted (c :: text) (c :: longer)
  | added {c : Char} {text longer : List Char} (plain : isBrace c = false)
      (rest : Inserted text longer) : Inserted text (c :: longer)

namespace Inserted

variable {text longer further first second : List Char}

theorem refl (text : List Char) : Inserted text text := by
  induction text with
  | nil => exact .nil
  | cons c rest ih => exact .kept c ih

theorem trans (left : Inserted text longer) (right : Inserted longer further) :
    Inserted text further := by
  induction right generalizing text with
  | nil => exact left
  | kept c rest ih =>
    cases left with
    | kept _ before => exact .kept c (ih before)
    | added plain before => exact .added plain (ih before)
  | added plain rest ih => exact .added plain (ih left)

theorem append (left : Inserted text longer) (right : Inserted first second) :
    Inserted (text ++ first) (longer ++ second) := by
  induction left with
  | nil => exact right
  | kept c rest ih => exact .kept c ih
  | added plain rest ih => exact .added plain ih

/-- A whole text without braces put in at the front. -/
theorem behind {front : List Char} (plain : ∀ c ∈ front, isBrace c = false)
    (rest : Inserted text longer) : Inserted text (front ++ longer) := by
  induction front with
  | nil => exact rest
  | cons c front ih =>
    obtain ⟨single, others⟩ := List.forall_mem_cons.mp plain
    exact .added single (ih others)

theorem sublist (inserted : Inserted text longer) : text.Sublist longer := by
  induction inserted with
  | nil => exact .slnil
  | kept c rest ih => exact ih.cons_cons c
  | added plain rest ih => exact ih.cons _

theorem filter_isBrace (inserted : Inserted text longer) :
    longer.filter isBrace = text.filter isBrace := by
  induction inserted with
  | nil => rfl
  | kept c rest ih => rw [List.filter_cons, List.filter_cons, ih]
  | added plain rest ih => rw [List.filter_cons_of_neg (by simp [plain]), ih]

/-- Between two braces there is what was there before, with more characters put in. -/
theorem forall₂_stretches (inserted : Inserted text longer) :
    List.Forall₂ List.Sublist (stretches text) (stretches longer) := by
  induction inserted with
  | nil => exact .cons .slnil .nil
  | @kept c text longer rest ih =>
    rw [stretches_cons, stretches_cons]
    split
    · exact .cons .slnil ih
    · exact forall₂_modifyHead (fun _ _ within => within.cons_cons c) ih
  | @added c text longer plain rest ih =>
    have same : (stretches text).modifyHead id = stretches text := by rw [List.modifyHead_id, id]
    rw [stretches_cons, plain, ← same]
    exact forall₂_modifyHead (fun _ _ within => within.cons c) ih

end Inserted

namespace VendorRule

/-- A rule that has copies, and none with a brace in its own text. -/
structure CopiesPlainly (rule : VendorRule) : Prop where
  copied : rule.copies ≠ []
  plain : ∀ copy ∈ rule.copies, ∀ c ∈ copy.text [], isBrace c = false

variable {rule : VendorRule} (wellFormed : rule.WellFormed) (copies : rule.CopiesPlainly)

section Insertion

include wellFormed

theorem Declares.isBrace_eq_false {declaration : List Char} (declares : rule.Declares declaration) :
    ∀ c ∈ declaration, isBrace c = false := by
  obtain ⟨inner, rfl, shown⟩ := declares.exists_eq_concat wellFormed
  rw [List.forall_mem_append, List.forall_mem_singleton]
  refine ⟨fun c member => ?_, rfl⟩
  have value := shown c member
  simp only [isValueChar, Bool.and_eq_true, bne_iff_ne] at value
  simp [isBrace, value]

include copies

theorem inserted_expand {declaration : List Char} (declares : rule.Declares declaration) :
    Inserted declaration (rule.expand declaration) := by
  have own := declares.isBrace_eq_false wellFormed
  refine .behind ?_ (.refl declaration)
  rw [List.forall_mem_flatMap]
  intro copy member
  have text := copies.plain copy member
  rw [List.forall_mem_append, List.forall_mem_singleton]
  refine ⟨?_, rfl⟩
  cases copy with
  | marked mark =>
    rw [VendorCopy.text, List.append_nil] at text
    exact List.forall_mem_append.mpr ⟨text, own⟩
  | fixed shown => exact text

/-- A rule only puts in, wherever its text stands. A match that is refused is put back. -/
theorem inserted_rewrite (before : Option Char) (text : List Char) :
    Inserted text (rule.rewrite before text) := by
  induction text using matchInduction wellFormed generalizing before with
  | nil =>
    rw [rewrite_nil]
    exact .nil
  | cons c rest unmatched ih =>
    rw [rewrite_cons wellFormed unmatched]
    exact .kept c (ih (some c))
  | declaration declaration rest declares ih =>
    rw [rewrite_declaration wellFormed declares]
    apply Inserted.append _ (ih (some ';'))
    split
    · exact inserted_expand wellFormed copies declares
    · exact .refl declaration

theorem inserted_apply (text : List Char) : Inserted text (rule.apply text) :=
  inserted_rewrite wellFormed copies none text

end Insertion

/-- No declaration that the rule finds in the text stands where one may begin. -/
def Refuses (rule : VendorRule) (text : List Char) : Prop :=
  ∀ before declaration, Piece.hit before declaration ∈ pieces rule.pattern text →
    beginsDeclaration before = false

include copies

theorem length_lt_expand (declaration : List Char) :
    declaration.length < (rule.expand declaration).length := by
  obtain ⟨copy, others, same⟩ := List.exists_cons_of_ne_nil copies.copied
  simp only [expand, same, List.flatMap_cons, List.length_append, List.length_singleton]
  omega

theorem rewritePiece_eq_text_iff (piece : Piece) :
    rule.rewritePiece piece = piece.text ↔
      ∀ before declaration, piece = .hit before declaration → beginsDeclaration before = false := by
  cases piece with
  | plain c => exact iff_of_true rfl fun _ _ same => nomatch same
  | hit before declaration =>
    have longer : rule.expand declaration ≠ declaration := fun fixed =>
      (length_lt_expand copies declaration).ne' (congrArg List.length fixed)
    cases begins : beginsDeclaration before with
    | true => simp [rewritePiece, Piece.text, begins, longer]
    | false => simp [rewritePiece, Piece.text, begins]

/-- A rule leaves a text alone exactly if it refuses all that it finds there. -/
theorem apply_eq_self_iff (text : List Char) : rule.apply text = text ↔ rule.Refuses text := by
  have longer (piece : Piece) : piece.text.length ≤ (rule.rewritePiece piece).length := by
    cases piece with
    | plain c => rfl
    | hit before declaration =>
      rw [rewritePiece, Piece.text]
      split
      · exact (length_lt_expand copies declaration).le
      · rfl
  have whole : (pieces rule.pattern text).flatMap Piece.text = text :=
    flatMap_text_piecesBehind rule.pattern none text
  calc
    rule.apply text = text ↔ (pieces rule.pattern text).flatMap rule.rewritePiece =
        (pieces rule.pattern text).flatMap Piece.text := by rw [whole, apply]
    _ ↔ ∀ piece ∈ pieces rule.pattern text, rule.rewritePiece piece = piece.text :=
      flatMap_eq_flatMap_iff longer
    _ ↔ rule.Refuses text := by
      simp only [rewritePiece_eq_text_iff copies]
      constructor
      · intro refused before declaration member
        exact refused _ member before declaration rfl
      · rintro refused piece member before declaration rfl
        exact refused before declaration member

end VendorRule

theorem copiesPlainly_of_mem_vendorRules : ∀ rule ∈ vendorRules, rule.CopiesPlainly := by
  have copied : ∀ rule ∈ vendorRules, rule.copies ≠ [] := by decide
  have table : (vendorRules.all fun rule =>
      rule.copies.all fun copy => (copy.text []).all fun c => !isBrace c) = true := rfl
  simp only [List.all_eq_true, Bool.not_eq_true'] at table
  intro rule member
  exact ⟨copied rule member, table rule member⟩

theorem inserted_of_mem_vendorRules {rule : VendorRule} (member : rule ∈ vendorRules)
    (text : List Char) : Inserted text (rule.apply text) :=
  rule.inserted_apply (wellFormed_of_mem_vendorRules rule member)
    (copiesPlainly_of_mem_vendorRules rule member) text

section Fold

variable {rules : List VendorRule}
  (each : ∀ rule ∈ rules, ∀ text, Inserted text (rule.apply text))

include each

theorem inserted_foldl (text : List Char) :
    Inserted text (rules.foldl (fun text rule => rule.apply text) text) := by
  induction rules generalizing text with
  | nil => exact .refl text
  | cons rule rest ih =>
    obtain ⟨single, others⟩ := List.forall_mem_cons.mp each
    exact (single text).trans (ih others (rule.apply text))

/-- No rule takes back what another one has put in. -/
theorem foldl_apply_eq_self_iff (text : List Char) :
    rules.foldl (fun text rule => rule.apply text) text = text ↔
      ∀ rule ∈ rules, rule.apply text = text := by
  induction rules generalizing text with
  | nil => simp
  | cons rule rest ih =>
    obtain ⟨single, others⟩ := List.forall_mem_cons.mp each
    rw [List.foldl_cons, List.forall_mem_cons]
    constructor
    · intro same
      have back := inserted_foldl others (rule.apply text)
      rw [same] at back
      have first : rule.apply text = text := back.sublist.antisymm (single text).sublist
      rw [first] at same
      exact ⟨first, (ih others text).mp same⟩
    · rintro ⟨first, further⟩
      rw [first]
      exact (ih others text).mpr further

end Fold

/-- Putting in the copies takes nothing out of any text. It leaves the braces as they are, and what
stands between two of them keeps its characters in order. The text stays the same exactly if every
rule refuses all that it finds in it. -/
theorem withVendorCopies_inserted (css : String) :
    css.toList.Sublist (withVendorCopies css).toList ∧
      (withVendorCopies css).toList.filter isBrace = css.toList.filter isBrace ∧
      List.Forall₂ List.Sublist (stretches css.toList) (stretches (withVendorCopies css).toList) ∧
      (withVendorCopies css = css ↔ ∀ rule ∈ vendorRules, rule.Refuses css.toList) := by
  have whole : (withVendorCopies css).toList = addVendorCopies css.toList := String.toList_ofList
  have inserted : Inserted css.toList (addVendorCopies css.toList) :=
    inserted_foldl (fun _ => inserted_of_mem_vendorRules) css.toList
  rw [← String.toList_inj, whole]
  refine ⟨inserted.sublist, inserted.filter_isBrace, inserted.forall₂_stretches, ?_⟩
  rw [addVendorCopies, foldl_apply_eq_self_iff fun _ => inserted_of_mem_vendorRules]
  refine forall₂_congr fun rule member => ?_
  exact rule.apply_eq_self_iff (copiesPlainly_of_mem_vendorRules rule member) css.toList

end ThemeCss
