import ThemeCss.Proofs.Report.Ratio
import ThemeCss.Proofs.Text.Characters

/-! # The table of a report

A cell is filled up to the width of its column and never cut, so the lines of the table are of the
same length exactly as long as every cell fits. The names and the fingerprint always do. The numbers
do up to some size, and the cell with a size and a ratio is where that is soonest reached.
-/

namespace ThemeCss

/-- The lines of a text, without the breaks that end them. -/
def lines (text : String) : List (List Char) := (text.toList.splitOn '\n').dropLast

/-- All lines have the same number of characters. -/
def IsAligned (text : String) : Prop :=
  ∀ line ∈ lines text, ∀ other ∈ lines text, line.length = other.length

/-- One line decides about the others. -/
theorem isAligned_iff_of_mem {text : String} {line : List Char} (member : line ∈ lines text) :
    IsAligned text ↔ ∀ other ∈ lines text, other.length = line.length :=
  ⟨fun aligned other listed => aligned other listed line member,
    fun same first listed second further => (same first listed).trans (same second further).symm⟩

theorem flatMap_concat_eq_intercalate (c : Char) (rows : List (List Char)) :
    rows.flatMap (· ++ [c]) = [c].intercalate (rows ++ [[]]) := by
  induction rows with
  | nil => rfl
  | cons row rest ih =>
    rw [List.flatMap_cons, ih, List.cons_append, List.intercalate_cons_of_ne_nil (by simp)]

theorem lines_of_rows {text : String} {rows : List (List Char)}
    (whole : ∀ row ∈ rows, '\n' ∉ row) (written : text.toList = rows.flatMap (· ++ ['\n'])) :
    lines text = rows := by
  have last : ∀ row ∈ rows ++ [[]], '\n' ∉ row :=
    List.forall_mem_append.mpr ⟨whole, List.forall_mem_singleton.mpr List.not_mem_nil⟩
  have split : (rows.flatMap (· ++ ['\n'])).splitOn '\n' = rows ++ [[]] := by
    rw [flatMap_concat_eq_intercalate, List.splitOn_intercalate '\n' last (by simp)]
  rw [lines, written, split, List.dropLast_concat]

namespace Blake3

theorem length_hexDigest (bytes : List UInt8) : (hexDigest bytes).length = 64 := by
  simp [hexDigest, List.length_flatMap, wordBytes]

theorem exists_of_mem_hexDigest {bytes : List UInt8} {c : Char} (member : c ∈ hexDigest bytes) :
    ∃ n < 16, c = Nat.digitChar n := by
  obtain ⟨byte, -, digit⟩ := List.mem_flatMap.mp member
  have high : byte.toNat / 16 < 16 := by have := byte.toNat_lt; omega
  have low : byte.toNat % 16 < 16 := by omega
  simp only [List.mem_cons, List.not_mem_nil, or_false] at digit
  rcases digit with rfl | rfl
  · exact ⟨_, high, rfl⟩
  · exact ⟨_, low, rfl⟩

end Blake3

theorem length_fingerprint (text : String) : (fingerprint text).length = 12 := by
  simp [fingerprint, Blake3.length_hexDigest]

theorem not_mem_fingerprint (text : String) : '\n' ∉ (fingerprint text).toList := by
  rw [fingerprint, String.toList_ofList]
  intro member
  obtain ⟨n, digit, same⟩ := Blake3.exists_of_mem_hexDigest (List.mem_of_mem_take member)
  have blank := not_isBlank_digitChar digit
  rw [← same] at blank
  contradiction

theorem not_mem_fixed (places : ℕ) (number : Binary64) : '\n' ∉ (number.fixed places).toList := by
  cases number with
  | nan => simp [Binary64.fixed, Binary64.specialText]
  | infinite negative => cases negative <;> simp [Binary64.fixed, Binary64.specialText]
  | finite negative magnitude =>
    rw [Binary64.toList_fixed, List.mem_append, List.mem_append, List.mem_cons, not_or, not_or,
      not_or]
    exact ⟨by split <;> simp, not_mem_toDigits rfl _, by decide,
      fun member => absurd (isDigit_of_mem_paddedDigits member) (by decide)⟩

namespace Report

/-- A row without its line break. -/
def rowText (cell : String × String) : List Char :=
  ("  " ++ leftAligned 18 cell.1 ++ " " ++ rightAligned 14 cell.2).toList

theorem toList_row (name value : String) :
    (row name value).toList = rowText (name, value) ++ ['\n'] := by
  rw [row, String.toList_append]
  rfl

/-- Cells are filled up, and never cut. -/
theorem length_rowText (cell : String × String) :
    (rowText cell).length = 3 + max 18 cell.1.length + max 14 cell.2.length := by
  simp only [rowText, leftAligned, rightAligned, String.toList_append, String.toList_ofList,
    List.length_append, List.length_replicate, String.length_toList]
  have margins : "  ".length = 2 ∧ " ".length = 1 := ⟨rfl, rfl⟩
  omega

theorem not_mem_rowText {cell : String × String} (name : '\n' ∉ cell.1.toList)
    (value : '\n' ∉ cell.2.toList) : '\n' ∉ rowText cell := by
  simp [rowText, leftAligned, rightAligned, name, value]

/-- The cell with the minified size and the ratio. -/
def minifiedCell (report : Report) : String :=
  s!"{report.minifiedBytes} B (" ++ report.ratio.fixed 1 ++ "%)"

/-- The cells of the table, row by row. -/
def cells (report : Report) : List (String × String) := [
  ("Metric", "Value"),
  (String.ofList (List.replicate 18 '-'), String.ofList (List.replicate 14 '-')),
  ("Class selectors", toString report.classCount),
  ("Readable size", s!"{report.readableBytes} B"),
  ("Minified size", report.minifiedCell),
  ("Fingerprint", report.fingerprint)]

theorem toList_table (report : Report) :
    report.table.toList = (report.cells.map rowText).flatMap (· ++ ['\n']) := by
  simp only [table, ruler, cells, minifiedCell, String.toList_append, toList_row, List.map_cons,
    List.map_nil, List.flatMap_cons, List.flatMap_nil, List.append_nil, List.append_assoc]

/-- No cell has a line break in it. -/
theorem not_mem_cells {report : Report} (unbroken : '\n' ∉ report.fingerprint.toList) :
    ∀ cell ∈ report.cells, '\n' ∉ cell.1.toList ∧ '\n' ∉ cell.2.toList := by
  simp [cells, minifiedCell, toString, unbroken, not_mem_toDigits (c := '\n') rfl,
    not_mem_fixed 1 report.ratio]

theorem lines_table {report : Report} (unbroken : '\n' ∉ report.fingerprint.toList) :
    lines report.table = report.cells.map rowText := by
  refine lines_of_rows (List.forall_mem_map.mpr fun cell member => ?_) report.toList_table
  obtain ⟨name, value⟩ := not_mem_cells unbroken cell member
  exact not_mem_rowText name value

/-- A row is as wide as the columns if its value fits. -/
theorem length_rowText_eq_iff {cell : String × String} (named : cell.1.length ≤ 18) :
    (rowText cell).length = 35 ↔ cell.2.length ≤ 14 := by
  rw [length_rowText]
  omega

theorem values_fit_iff {report : Report} (short : report.fingerprint.length ≤ 14) :
    (∀ cell ∈ report.cells, cell.2.length ≤ 14) ↔
      report.classCount < 10 ^ 14 ∧ report.readableBytes < 10 ^ 12 ∧
        report.minifiedCell.length ≤ 14 := by
  have readable : s!"{report.readableBytes} B".length ≤ 14 ↔ report.readableBytes < 10 ^ 12 := by
    have unit : " B".length = 2 := rfl
    rw [← Nat.length_repr_le_iff (by decide)]
    simp only [toString, String.length_append]
    omega
  have count : (toString report.classCount).length ≤ 14 ↔ report.classCount < 10 ^ 14 :=
    Nat.length_repr_le_iff (by decide)
  have header : "Value".length ≤ 14 := by decide
  have ruler : (String.ofList (List.replicate 14 '-')).length ≤ 14 := by decide
  simp only [cells, List.forall_mem_cons, List.not_mem_nil, false_imp_iff, implies_true, and_true,
    header, ruler, readable, count, short, true_and]

/-- The cell with the minified size and the ratio fits where both are short: the size may have a
digit more where the ratio has one less. -/
theorem minifiedCell_fits_iff {report : Report}
    (smaller : report.minifiedBytes + 57 ≤ report.readableBytes)
    (few : report.readableBytes < 10 ^ 12) :
    report.minifiedCell.length ≤ 14 ↔ report.minifiedBytes < 10 ^ 4 ∨
      report.minifiedBytes < 10 ^ 5 ∧ 2000 * report.minifiedBytes < 199 * report.readableBytes := by
  have positive : 0 < report.readableBytes := by omega
  have inside : report.minifiedBytes ≤ report.readableBytes := by omega
  have exactly : report.readableBytes ≤ 2 ^ 53 := few.le.trans (by decide)
  have ratio : report.ratio =
      .ofNat report.minifiedBytes / .ofNat report.readableBytes * .ofNat 100 := if_neg positive.ne'
  have length : report.minifiedCell.length =
      report.minifiedBytes.repr.length + (report.ratio.fixed 1).toList.length + 6 := by
    have signs : " B (".length = 4 ∧ "%)".length = 2 := ⟨rfl, rfl⟩
    simp only [minifiedCell, toString, String.length_append, String.length_toList]
    omega
  have four : report.minifiedBytes.repr.length ≤ 4 ↔ report.minifiedBytes < 10 ^ 4 :=
    Nat.length_repr_le_iff (by decide)
  have five : report.minifiedBytes.repr.length ≤ 5 ↔ report.minifiedBytes < 10 ^ 5 :=
    Nat.length_repr_le_iff (by decide)
  have shortest := Page.three_le_length_fixed_share positive inside exactly
  have short := (Page.length_fixed_share_le_iff (by decide : 0 < 1) positive inside exactly).trans
    (Page.nearestWhole_share_lt_hundred_iff positive inside few)
  have medium (small : report.minifiedBytes < 10 ^ 4) :=
    (Page.length_fixed_share_le_iff (by decide : 0 < 2) positive inside exactly).mpr
      (Page.nearestWhole_share_lt_thousand inside (by omega))
  rw [← ratio] at shortest short medium
  rw [length]
  constructor
  · intro fits
    by_cases small : report.minifiedBytes < 10 ^ 4
    · exact .inl small
    · have digits : ¬ report.minifiedBytes.repr.length ≤ 4 := mt four.mp small
      exact .inr ⟨five.mp (by omega), short.mp (by omega)⟩
  · rintro (small | ⟨larger, less⟩)
    · have digits := four.mpr small
      have places := medium small
      omega
    · have digits := five.mpr larger
      have places := short.mpr less
      omega

/-- The lines are of one length if every value fits its column. -/
theorem isAligned_table_iff {report : Report} (unbroken : '\n' ∉ report.fingerprint.toList)
    (short : report.fingerprint.length ≤ 14) :
    IsAligned report.table ↔ report.classCount < 10 ^ 14 ∧ report.readableBytes < 10 ^ 12 ∧
      report.minifiedCell.length ≤ 14 := by
  have header : rowText ("Metric", "Value") ∈ lines report.table := by
    rw [lines_table unbroken]
    exact List.mem_map_of_mem List.mem_cons_self
  have width : (rowText ("Metric", "Value")).length = 35 :=
    (length_rowText_eq_iff (by decide)).mpr (by decide)
  have named : ∀ cell ∈ report.cells, cell.1.length ≤ 18 := by
    simp only [cells, List.forall_mem_cons, List.not_mem_nil, false_imp_iff, implies_true, and_true]
    decide
  rw [isAligned_iff_of_mem header, width, lines_table unbroken, List.forall_mem_map,
    ← values_fit_iff short]
  exact forall₂_congr fun cell member => length_rowText_eq_iff (named cell member)

end Report

end ThemeCss
