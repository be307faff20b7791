import ThemeCss.Proofs.Minified.Comments
import ThemeCss.Proofs.Minified.Settled

/-! # Minifying text by parts

Punctuation cuts a text into parts that are minified on their own. For a colon, a comma and an
opening brace this holds of any text. A closing brace asks for a part before it that has no
semicolons, and a semicolon stays or goes by what the text behind it begins with.
-/

namespace ThemeCss

section Settled

variable {c : Char}

theorem settled_cons_of_isBlank (text : List Char) (blank : isBlank c = true) :
    settled (c :: text) = settled text :=
  settle_cons_of_isBlank false false text blank

theorem settle_append_cons (room due : Bool) (first second : List Char)
    (mark : isPunctuation c = true) :
    settle room due (first ++ c :: second) = settle room due first ++ c :: settled second := by
  induction first generalizing room due with
  | nil => exact settle_cons_of_isPunctuation room due second mark
  | cons d rest ih =>
    simp only [List.cons_append, settle, ih]
    split
    · rfl
    · split <;> rfl

/-- Punctuation is settled on its own. -/
theorem settled_append_cons (first second : List Char) (mark : isPunctuation c = true) :
    settled (first ++ c :: second) = settled first ++ c :: settled second :=
  settle_append_cons false false first second mark

theorem settle_append_blank (room due : Bool) (text : List Char) {gap : List Char}
    (blank : IsBlankText gap) : settle room due (text ++ gap) = settle room due text := by
  induction text generalizing room due with
  | nil =>
    induction gap generalizing due with
    | nil => rfl
    | cons c rest ih =>
      obtain ⟨first, rest⟩ := IsBlankText.cons_iff.mp blank
      rw [List.nil_append, settle_cons_of_isBlank room due _ first]
      exact ih rest room
  | cons d rest ih => simp only [List.cons_append, settle, ih]

theorem mem_of_mem_settle {room due : Bool} {text : List Char} :
    ∀ d ∈ settle room due text, d ∈ text ∨ d = ' ' := by
  induction text generalizing room due with
  | nil => simp
  | cons c rest ih =>
    intro d member
    rw [settle] at member
    split at member
    · exact (ih d member).imp_left (List.mem_cons_of_mem c)
    · split at member
      · rcases List.mem_cons.mp member with rfl | member
        · exact .inr rfl
        · rcases List.mem_cons.mp member with rfl | member
          · exact .inl List.mem_cons_self
          · exact (ih d member).imp_left (List.mem_cons_of_mem c)
      · rcases List.mem_cons.mp member with rfl | member
        · exact .inl List.mem_cons_self
        · exact (ih d member).imp_left (List.mem_cons_of_mem c)

theorem not_mem_settled {text : List Char} (solid : c ≠ ' ') (absent : c ∉ text) :
    c ∉ settled text :=
  fun member => (mem_of_mem_settle c member).elim absent solid

end Settled

section Squeezed

variable {c : Char} {first second gap : List Char}

@[simp] theorem squeezed_nil : squeezed [] = [] := rfl

theorem squeezed_cons_of_isBlank (text : List Char) (blank : isBlank c = true) :
    squeezed (c :: text) = squeezed text := by
  rw [squeezed, settled_cons_of_isBlank text blank, ← squeezed]

theorem squeezed_append_blank (text : List Char) (blank : IsBlankText gap) :
    squeezed (text ++ gap) = squeezed text := by
  rw [squeezed, settled, settle_append_blank false false text blank, ← settled, ← squeezed]

/-- Squeezing brings up nothing but spaces. -/
theorem not_mem_squeezed {text : List Char} (solid : c ≠ ' ') (absent : c ∉ text) :
    c ∉ squeezed text :=
  fun member => not_mem_settled solid absent ((dropSemicolons_sublist _).subset member)

/-- Without semicolons there is nothing to drop. -/
theorem squeezed_of_not_mem (absent : ';' ∉ first) : squeezed first = settled first := by
  have kept : ';' ∉ settled first := not_mem_settled (by decide) absent
  have whole := dropSemicolons_append_of_not_mem kept []
  rw [List.append_nil] at whole
  rw [squeezed, whole]
  exact List.append_nil _

/-- Punctuation that is neither a semicolon nor a closing brace cuts any text. -/
theorem squeezed_append_cons (first second : List Char) (mark : isPunctuation c = true)
    (notSemicolon : c ≠ ';') (notBrace : c ≠ '}') :
    squeezed (first ++ c :: second) = squeezed first ++ c :: squeezed second := by
  have opened : (dropSemicolons (c :: settled second)).head? ≠ some '}' := by
    rw [dropSemicolons_cons_of_ne _ notSemicolon]
    intro same
    exact notBrace (Option.some.inj same)
  rw [squeezed, settled_append_cons first second mark, dropSemicolons_append _ opened,
    dropSemicolons_cons_of_ne _ notSemicolon, ← squeezed, ← squeezed]

/-- A closing brace cuts a text if no semicolon may have to go in front of it. -/
theorem squeezed_append_brace (absent : ';' ∉ first) (second : List Char) :
    squeezed (first ++ '}' :: second) = squeezed first ++ '}' :: squeezed second := by
  have kept : ';' ∉ settled first := not_mem_settled (by decide) absent
  rw [squeezed, settled_append_cons first second rfl, dropSemicolons_append_of_not_mem kept,
    dropSemicolons_cons_of_ne _ (by decide), ← squeezed, squeezed_of_not_mem absent]

/-- A semicolon stays if what follows does not close a block. -/
theorem squeezed_append_semicolon (first : List Char)
    (opened : (squeezed second).head? ≠ some '}') :
    squeezed (first ++ ';' :: second) = squeezed first ++ ';' :: squeezed second := by
  have kept : dropSemicolons (';' :: settled second) = ';' :: squeezed second :=
    dropSemicolons_cons_of_not_brace opened
  rw [squeezed, settled_append_cons first second rfl, dropSemicolons_append, kept, ← squeezed]
  rw [kept]
  simp

/-- A semicolon goes if what follows closes a block. -/
theorem squeezed_append_semicolon_of_brace (absent : ';' ∉ first)
    (closed : (squeezed second).head? = some '}') :
    squeezed (first ++ ';' :: second) = squeezed first ++ squeezed second := by
  have kept : ';' ∉ settled first := not_mem_settled (by decide) absent
  rw [squeezed, settled_append_cons first second rfl, dropSemicolons_append_of_not_mem kept,
    dropSemicolons_cons_of_brace closed, ← squeezed, squeezed_of_not_mem absent]

/-- A part that opens no comment is minified without a look at comments. -/
theorem minifyText_of_not_opensComment {text : List Char} (unopened : ¬ OpensComment text) :
    minifyText text = squeezed text := by
  rw [minifyText_eq_squeezed,
    stripComments_of_not_hasComment (not_hasComment_of_not_opensComment unopened)]

end Squeezed

end ThemeCss
