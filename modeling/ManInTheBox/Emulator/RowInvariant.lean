import ManInTheBox.Emulator.Row

/-! # Wide characters stay whole within a row

In every row of the screen a cell is a continuation exactly if the cell to the left of
it is the lead of a wide character. An operation that cuts or moves cells may break this
for a moment; the pass over the row that follows it restores it.
-/

namespace ManInTheBox.Emulator

open Library

/-! ## Kinds of cells by column -/

def contAt (row : Row) (col : ℕ) : Bool := row[col]?.any Cell.wideContinuation

def leadAt (width : UnicodeWidth) (row : Row) (col : ℕ) : Bool := row[col]?.any (isWideLead width)

/-- Whether the cell to the left is a lead. -/
def leadBefore (width : UnicodeWidth) (row : Row) : ℕ → Bool
  | 0 => false
  | col + 1 => leadAt width row col

/-- Each lead is directly followed by a continuation and each continuation directly preceded by a
lead. -/
def Paired (width : UnicodeWidth) (row : Row) : Prop :=
  ∀ col, contAt row col = leadBefore width row col

section Kinds

variable {width : UnicodeWidth} {row : Row} {col i : ℕ} {cell : Cell}

theorem contAt_of_getElem? (h : row[col]? = some cell) : contAt row col = cell.wideContinuation := by
  simp [contAt, h]

theorem leadAt_of_getElem? (h : row[col]? = some cell) :
    leadAt width row col = isWideLead width cell := by
  simp [leadAt, h]

theorem contAt_of_le (h : row.length ≤ col) : contAt row col = false := by
  simp [contAt, List.getElem?_eq_none h]

theorem leadAt_of_le (h : row.length ≤ col) : leadAt width row col = false := by
  simp [leadAt, List.getElem?_eq_none h]

theorem contAt_set (h : col < row.length) :
    contAt (row.set col cell) i = if i = col then cell.wideContinuation else contAt row i := by
  by_cases hi : i = col
  · simp [contAt, hi, h]
  · simp [contAt, hi, List.getElem?_set_ne (Ne.symm hi)]

theorem leadAt_set (h : col < row.length) :
    leadAt width (row.set col cell) i =
      if i = col then isWideLead width cell else leadAt width row i := by
  by_cases hi : i = col
  · simp [leadAt, hi, h]
  · simp [leadAt, hi, List.getElem?_set_ne (Ne.symm hi)]

theorem isWideLead_of_wideContinuation (h : cell.wideContinuation = true) :
    isWideLead width cell = false := by
  simp [isWideLead, h]

theorem leadAt_of_contAt (h : contAt row col = true) : leadAt width row col = false := by
  cases hcell : row[col]? with
  | none => simp [leadAt, hcell]
  | some cell =>
    rw [contAt_of_getElem? hcell] at h
    rw [leadAt_of_getElem? hcell, isWideLead_of_wideContinuation h]

theorem contAt_of_leadAt (h : leadAt width row col = true) : contAt row col = false := by
  by_contra hcont
  rw [leadAt_of_contAt (by simpa using hcont)] at h
  cases h

@[simp] theorem wideContinuation_blank : Cell.blank.wideContinuation = false := rfl

@[simp] theorem wideContinuation_blankWithStyle (style : Style) :
    (Cell.blankWithStyle style).wideContinuation = false := rfl

@[simp] theorem wideContinuation_continuation (style : Style) :
    (Cell.continuation style).wideContinuation = true := rfl

end Kinds

/-! ## Pairing under single writes -/

section Writes

variable {width : UnicodeWidth} {row : Row} {col : ℕ} {cell right : Cell}

/-- Neither half of a wide character. -/
def Narrow (width : UnicodeWidth) (cell : Cell) : Prop :=
  cell.wideContinuation = false ∧ isWideLead width cell = false

def NarrowAt (width : UnicodeWidth) (row : Row) (col : ℕ) : Prop :=
  contAt row col = false ∧ leadAt width row col = false

/-- Replacing a cell by one of the same kind. -/
theorem Paired.set_same (h : Paired width row) (hcol : col < row.length)
    (hcont : contAt row col = cell.wideContinuation)
    (hlead : leadAt width row col = isWideLead width cell) : Paired width (row.set col cell) := by
  have hcontAt : contAt (row.set col cell) = contAt row := by
    funext i
    rw [contAt_set hcol]
    split
    · simp [*]
    · rfl
  have hleadAt : leadAt width (row.set col cell) = leadAt width row := by
    funext i
    rw [leadAt_set hcol]
    split
    · simp [*]
    · rfl
  intro i
  have hi := h i
  cases i with
  | zero => simpa [leadBefore, hcontAt] using hi
  | succ i => simpa [leadBefore, hcontAt, hleadAt] using hi

theorem Paired.set_narrow (h : Paired width row) (hcol : col < row.length)
    (hold : NarrowAt width row col) (hnew : Narrow width cell) :
    Paired width (row.set col cell) :=
  h.set_same hcol (hold.1.trans hnew.1.symm) (hold.2.trans hnew.2.symm)

/-- Replacing both halves of a wide character by narrow cells. -/
theorem Paired.set_halves (h : Paired width row) (hcol : col + 1 < row.length)
    (hlead : leadAt width row col = true) (hcell : Narrow width cell) (hright : Narrow width right) :
    Paired width ((row.set col cell).set (col + 1) right) := by
  have hcol' : col < row.length := by omega
  have hlen : col + 1 < (row.set col cell).length := by simpa using hcol
  have hnot := contAt_of_leadAt hlead
  intro i
  have hi := h i
  have hnext := h (col + 1)
  have hafter := h (col + 2)
  simp only [leadBefore] at hnext hafter
  cases i with
  | zero =>
    rw [contAt_set hlen, contAt_set hcol']
    simp only [leadBefore] at hi ⊢
    split
    · exact hright.1
    · split
      · exact hcell.1
      · exact hi
  | succ i =>
    simp only [leadBefore] at hi ⊢
    rw [contAt_set hlen, contAt_set hcol', leadAt_set hlen, leadAt_set hcol']
    grind [Narrow, leadAt_of_contAt]

/-- Replacing two narrow cells by a wide character. -/
theorem Paired.set_wide (h : Paired width row) (hcol : col + 1 < row.length)
    (hleft : NarrowAt width row col) (hright : NarrowAt width row (col + 1))
    (hcell : cell.wideContinuation = false) (hlead : isWideLead width cell = true)
    (hcont : right.wideContinuation = true) :
    Paired width ((row.set col cell).set (col + 1) right) := by
  have hcol' : col < row.length := by omega
  have hlen : col + 1 < (row.set col cell).length := by simpa using hcol
  have hnot : isWideLead width right = false := isWideLead_of_wideContinuation hcont
  intro i
  have hi := h i
  have hafter := h (col + 2)
  simp only [leadBefore] at hafter
  cases i with
  | zero =>
    rw [contAt_set hlen, contAt_set hcol']
    simp only [leadBefore] at hi ⊢
    split
    · omega
    · split
      · exact hcell
      · exact hi
  | succ i =>
    simp only [leadBefore] at hi ⊢
    rw [contAt_set hlen, contAt_set hcol', leadAt_set hlen, leadAt_set hcol']
    grind [NarrowAt]

end Writes

/-! ## Well-formed cells -/

/-- The text of a character: one of width at least 1, and combining characters after it. -/
def BaseText (width : UnicodeWidth) (text : List Char) : Prop :=
  ∃ c combining, text = c :: combining ∧ charWidth width c ≠ 0 ∧
    ∀ d ∈ combining, charWidth width d = 0

def CellOk (width : UnicodeWidth) (cell : Cell) : Prop :=
  cell.wideContinuation = false → BaseText width cell.text

/-- What a row keeps while it is worked on. -/
structure RowShape (width : UnicodeWidth) (cols : ℕ) (row : Row) : Prop where
  length : row.length = cols
  cell : ∀ cell ∈ row, CellOk width cell

structure RowOk (width : UnicodeWidth) (cols : ℕ) (row : Row) : Prop
    extends RowShape width cols row where
  paired : Paired width row

section Cells

variable {width : UnicodeWidth}

theorem charWidth_le (width : UnicodeWidth) (c : Char) : charWidth width c ≤ 2 :=
  min_le_right _ _

theorem charWidth_space (hspace : width ' ' = some 1) : charWidth width ' ' = 1 := by
  simp [charWidth, hspace]

theorem cellOk_blankWithStyle (hspace : width ' ' = some 1) (style : Style) :
    CellOk width (Cell.blankWithStyle style) := by
  intro _
  exact ⟨' ', [], rfl, by simp [charWidth_space hspace], by simp⟩

theorem cellOk_continuation (style : Style) : CellOk width (Cell.continuation style) := by
  intro h
  cases h

theorem narrow_blankWithStyle (hspace : width ' ' = some 1) (style : Style) :
    Narrow width (Cell.blankWithStyle style) := by
  simp [Narrow, isWideLead, Cell.blankWithStyle, hspace]

theorem narrow_blank (hspace : width ' ' = some 1) : Narrow width Cell.blank :=
  narrow_blankWithStyle hspace Style.default

theorem cellOk_blank (hspace : width ' ' = some 1) : CellOk width Cell.blank :=
  cellOk_blankWithStyle hspace Style.default

theorem cellOk_char {c : Char} (hc : charWidth width c ≠ 0) (style : Style) :
    CellOk width ⟨[c], style, false⟩ := by
  intro _
  exact ⟨c, [], rfl, hc, by simp⟩

/-- A character of width 2 and no other is a lead. -/
theorem isWideLead_char {c : Char} (hc : charWidth width c ≠ 0) (text : List Char) (style : Style) :
    isWideLead width ⟨c :: text, style, false⟩ = decide (charWidth width c = 2) := by
  simp only [charWidth] at hc
  cases hw : width c with
  | none => simp [hw] at hc
  | some w =>
    simp [isWideLead, charWidth, hw]

theorem rowOk_blankRow (hspace : width ' ' = some 1) (cols : ℕ) :
    RowOk width cols (blankRow cols) := by
  have hnarrow := narrow_blank hspace
  constructor
  · constructor
    · simp [blankRow]
    · intro cell hcell
      rw [List.eq_of_mem_replicate hcell]
      exact cellOk_blank hspace
  · have hcont : ∀ i, contAt (blankRow cols) i = false := by
      intro i
      by_cases hi : i < cols
      · simp [contAt, blankRow, hi]
      · exact contAt_of_le (by simpa [blankRow] using hi)
    have hlead : ∀ i, leadAt width (blankRow cols) i = false := by
      intro i
      by_cases hi : i < cols
      · simpa [leadAt, blankRow, hi] using hnarrow.2
      · exact leadAt_of_le (by simpa [blankRow] using hi)
    intro i
    cases i with
    | zero => simp [leadBefore, hcont]
    | succ i => simp [leadBefore, hcont, hlead]

end Cells

/-! ## The loops keep the shape -/

section Loops

variable {width : UnicodeWidth} {cols : ℕ} {row : Row}

theorem RowShape.getElem? (h : RowShape width cols row) {col : ℕ} (hcol : col < cols) :
    ∃ cell, row[col]? = some cell ∧ CellOk width cell := by
  have hlt : col < row.length := by simpa [h.length] using hcol
  exact ⟨row[col], List.getElem?_eq_getElem hlt, h.cell _ (List.getElem_mem hlt)⟩

theorem RowShape.set (h : RowShape width cols row) (col : ℕ) {cell : Cell}
    (hcell : CellOk width cell) : RowShape width cols (row.set col cell) where
  length := by simpa using h.length
  cell other hother := by
    rcases List.mem_or_eq_of_mem_set hother with hmem | rfl
    · exact h.cell other hmem
    · exact hcell

theorem Row.setCell_eq {col : ℕ} {cell : Cell} (hcol : col < row.length) :
    Row.setCell col cell row = some (row.set col cell) := by
  simp [Row.setCell, hcol]

theorem RowShape.setCell (h : RowShape width cols row) {col : ℕ} (hcol : col < cols) {cell : Cell}
    (hcell : CellOk width cell) : Yields (Row.setCell col cell row) (RowShape width cols) := by
  rw [Row.setCell_eq (by simpa [h.length] using hcol)]
  exact .pure (h.set col hcell)

theorem RowShape.copyCell (h : RowShape width cols row) {source target : ℕ}
    (hsource : source < cols) (htarget : target < cols) :
    Yields (Row.copyCell source target row) (RowShape width cols) := by
  obtain ⟨cell, hget, hcell⟩ := h.getElem? hsource
  simpa [Row.copyCell, hget] using h.setCell htarget hcell

theorem RowShape.fill (h : RowShape width cols row) {start stop : ℕ} (hstop : stop ≤ cols)
    {cell : Cell} (hcell : CellOk width cell) :
    Yields (Row.fill start stop cell row) (RowShape width cols) := by
  apply Yields.foldlM _ h
  intro row col hmem hrow
  have hcol := List.mem_range'_1.mp hmem
  exact hrow.setCell (by omega) hcell

theorem RowShape.copyRight (h : RowShape width cols row) {start stop count : ℕ}
    (hstop : stop + count ≤ cols) :
    Yields (Row.copyRight start stop count row) (RowShape width cols) := by
  apply Yields.foldlM _ h
  intro row idx hmem hrow
  have hidx := List.mem_range'_1.mp (List.mem_reverse.mp hmem)
  exact hrow.copyCell (by omega) (by omega)

theorem RowShape.copyLeft (h : RowShape width cols row) {start stop count : ℕ}
    (hstop : stop + count ≤ cols) :
    Yields (Row.copyLeft start stop count row) (RowShape width cols) := by
  apply Yields.foldlM _ h
  intro row idx hmem hrow
  have hidx := List.mem_range'_1.mp hmem
  exact hrow.copyCell (by omega) (by omega)

end Loops

/-! ## The pass over a row -/

/-- What the pass has reached before column `k`: the cells to the left are paired, and if the last
of them is a lead, its continuation is already there. -/
structure PairedUpTo (width : UnicodeWidth) (row : Row) (k : ℕ) : Prop where
  before : ∀ i < k, contAt row i = leadBefore width row i
  here : leadBefore width row k = true → contAt row k = true

section Sanitize

variable {width : UnicodeWidth} {cols : ℕ} {row : Row} {k : ℕ}

/-- The row after the pass has been at a column. -/
def repairedAt (width : UnicodeWidth) (row : Row) (col : ℕ) : Row :=
  if contAt row col then if leadBefore width row col then row else row.set col Cell.blank
  else if leadAt width row col then
    if row.length ≤ col + 1 then row.set col Cell.blank
    else if contAt row (col + 1) then row
    else row.set (col + 1) (Cell.continuation (row.getD col Cell.blank).style)
  else row

@[simp] theorem length_repairedAt (width : UnicodeWidth) (row : Row) (col : ℕ) :
    (repairedAt width row col).length = row.length := by
  unfold repairedAt
  split_ifs <;> simp

theorem sanitizeCell_eq {col : ℕ} (hcol : col < row.length) :
    Row.sanitizeCell width row.length row col = some (repairedAt width row col) := by
  have hget : row[col]? = some row[col] := List.getElem?_eq_getElem hcol
  have hcontAt := contAt_of_getElem? hget
  have hleadAt := @leadAt_of_getElem? width _ _ _ hget
  have hset : Row.setCell col Cell.blank row = _ := Row.setCell_eq hcol
  by_cases hcont : row[col].wideContinuation = true
  · cases col with
    | zero => simp [Row.sanitizeCell, repairedAt, hget, hcont, hset, hcontAt, leadBefore]
    | succ j =>
      have hleft : row[j]? = some row[j] := List.getElem?_eq_getElem (by omega)
      have hbefore := @leadAt_of_getElem? width _ _ _ hleft
      by_cases hlead : isWideLead width row[j] = true
      · simp [Row.sanitizeCell, repairedAt, hget, hcont, hcontAt, leadBefore, checkedSub, hleft,
          hbefore, hlead]
      · simp [Row.sanitizeCell, repairedAt, hget, hcont, hcontAt, leadBefore, checkedSub, hleft,
          hbefore, hlead, hset]
  · by_cases hlead : isWideLead width row[col] = true
    · by_cases hlast : row.length ≤ col + 1
      · simp [Row.sanitizeCell, repairedAt, hget, hcont, hcontAt, hleadAt, hlead, hlast, hset]
      · have hright : row[col + 1]? = some row[col + 1] := List.getElem?_eq_getElem (by omega)
        have hrightAt := contAt_of_getElem? hright
        by_cases hrightCont : row[col + 1].wideContinuation = true
        · simp [Row.sanitizeCell, repairedAt, hget, hcont, hcontAt, hleadAt, hlead, hlast, hright,
            hrightAt, hrightCont]
        · have hset' : Row.setCell (col + 1) (Cell.continuation row[col].style) row = _ :=
            Row.setCell_eq (by omega)
          simp [Row.sanitizeCell, repairedAt, hget, hcont, hcontAt, hleadAt, hlead, hlast, hright,
            hrightAt, hrightCont, hset']
    · simp [Row.sanitizeCell, repairedAt, hget, hcont, hcontAt, hleadAt, hlead]

theorem PairedUpTo.zero : PairedUpTo width row 0 where
  before := by simp
  here := by simp [leadBefore]

theorem PairedUpTo.paired (h : PairedUpTo width row row.length) : Paired width row := by
  intro i
  rcases lt_trichotomy i row.length with hi | rfl | hi
  · exact h.before i hi
  · have hout : contAt row row.length = false := contAt_of_le le_rfl
    by_contra hne
    have hlead : leadBefore width row row.length = true := by simpa [hout] using Ne.symm hne
    simp [h.here hlead] at hout
  · cases i with
    | zero => omega
    | succ i => rw [contAt_of_le hi.le, leadBefore, leadAt_of_le (by omega)]

/-- The next cell agrees with the one to its left, and if it is a lead, its continuation is there. -/
theorem PairedUpTo.succ (h : PairedUpTo width row k) (hk : contAt row k = leadBefore width row k)
    (hnext : leadAt width row k = true → contAt row (k + 1) = true) :
    PairedUpTo width row (k + 1) where
  before i hi := by
    by_cases hik : i = k
    · simpa [hik] using hk
    · exact h.before i (by omega)
  here := hnext

theorem leadBefore_set_of_le {col i : ℕ} {cell : Cell} (hcol : col < row.length) (hi : i ≤ col) :
    leadBefore width (row.set col cell) i = leadBefore width row i := by
  cases i with
  | zero => rfl
  | succ i =>
    have hne : i ≠ col := by omega
    simp [leadBefore, leadAt_set hcol, hne]

/-- A write at the next column or behind it leaves what is reached. -/
theorem PairedUpTo.set (h : PairedUpTo width row k) {col : ℕ} {cell : Cell}
    (hcol : col < row.length) (hk : k ≤ col)
    (hhere : k = col → leadBefore width row k = true → cell.wideContinuation = true) :
    PairedUpTo width (row.set col cell) k where
  before i hi := by
    have hne : i ≠ col := by omega
    rw [contAt_set hcol, leadBefore_set_of_le hcol (by omega)]
    simpa [hne] using h.before i hi
  here := by
    rw [contAt_set hcol, leadBefore_set_of_le hcol hk]
    intro hlead
    split
    · exact hhere ‹_› hlead
    · exact h.here hlead

/-- A blank at the next column after a cell that is no lead. -/
theorem PairedUpTo.blank (hspace : width ' ' = some 1) (h : PairedUpTo width row k)
    (hk : k < row.length) (hlead : leadBefore width row k = false) :
    PairedUpTo width (row.set k Cell.blank) (k + 1) := by
  have hblank := narrow_blank hspace
  apply (h.set hk le_rfl (by simp [hlead])).succ
  · rw [contAt_set hk, leadBefore_set_of_le hk le_rfl, hlead]
    simp
  · simp [leadAt_set hk, hblank.2]

/-- One round of the pass, whatever the cells are. -/
theorem PairedUpTo.repairedAt (hspace : width ' ' = some 1) (h : PairedUpTo width row k)
    (hk : k < row.length) : PairedUpTo width (repairedAt width row k) (k + 1) := by
  rw [Emulator.repairedAt]
  by_cases hcont : contAt row k = true
  · -- A continuation stays after a lead and becomes a blank otherwise.
    rw [if_pos hcont]
    by_cases hlead : leadBefore width row k = true
    · rw [if_pos hlead]
      exact h.succ (by rw [hcont, hlead]) (by simp [leadAt_of_contAt hcont])
    · rw [if_neg hlead]
      exact h.blank hspace hk (by simpa using hlead)
  · -- Any other cell stands after one that is no lead.
    have hbefore : leadBefore width row k = false := by
      by_contra hlead
      exact hcont (h.here (by simpa using hlead))
    have hagree : contAt row k = leadBefore width row k := by simpa [hbefore] using hcont
    rw [if_neg hcont]
    by_cases hlead : leadAt width row k = true
    · rw [if_pos hlead]
      by_cases hlast : row.length ≤ k + 1
      · rw [if_pos hlast]
        exact h.blank hspace hk hbefore
      · rw [if_neg hlast]
        by_cases hright : contAt row (k + 1) = true
        · rw [if_pos hright]
          exact h.succ hagree fun _ => hright
        · rw [if_neg hright]
          have hlt : k + 1 < row.length := by omega
          apply (h.set hlt (by omega) (by omega)).succ
          · rw [contAt_set hlt, leadBefore_set_of_le hlt (by omega)]
            simpa using hagree
          · simp [contAt_set hlt]
    · rw [if_neg hlead]
      exact h.succ hagree (by simp [hlead])

theorem RowShape.repairedAt (hspace : width ' ' = some 1) (h : RowShape width cols row) (k : ℕ) :
    RowShape width cols (repairedAt width row k) := by
  have hblank := cellOk_blank hspace
  rw [Emulator.repairedAt]
  split_ifs
  · exact h
  · exact h.set k hblank
  · exact h.set k hblank
  · exact h
  · exact h.set (k + 1) (cellOk_continuation _)
  · exact h

theorem sanitizeCell_yields (hspace : width ' ' = some 1) (hshape : RowShape width cols row)
    (hk : k < cols) (h : PairedUpTo width row k) :
    Yields (Row.sanitizeCell width cols row k)
      fun row => RowShape width cols row ∧ PairedUpTo width row (k + 1) := by
  have hlt : k < row.length := by rwa [hshape.length]
  exact ⟨repairedAt width row k, hshape.length ▸ sanitizeCell_eq hlt, hshape.repairedAt hspace k,
    h.repairedAt hspace hlt⟩

/-- The pass makes any row of well-formed cells a well-formed row. -/
theorem RowShape.sanitize (hspace : width ' ' = some 1) (h : RowShape width cols row) :
    Yields (Row.sanitize width cols row) (RowOk width cols) := by
  have hloop := Yields.foldlM_range
    (fun k row => RowShape width cols row ∧ PairedUpTo width row k) cols ⟨h, .zero⟩
    fun row k hk hrow => sanitizeCell_yields hspace hrow.1 hk hrow.2
  apply hloop.mono
  intro row hrow
  have hall : PairedUpTo width row row.length := by
    rw [hrow.1.length]
    exact hrow.2
  exact ⟨hrow.1, hall.paired⟩

end Sanitize

/-! ## Writing a character -/

/-- A left half has its right half behind it. -/
theorem Paired.contAt_succ {width : UnicodeWidth} {row : Row} {col : ℕ} (h : Paired width row)
    (hlead : leadAt width row col = true) : contAt row (col + 1) = true ∧ col + 1 < row.length := by
  have hnext : contAt row (col + 1) = true := (h (col + 1)).trans hlead
  refine ⟨hnext, ?_⟩
  by_contra hle
  rw [contAt_of_le (by omega)] at hnext
  cases hnext

/-- The row after `clear_overlapped_cell`. -/
def cleared (width : UnicodeWidth) (row : Row) (col : ℕ) : Row :=
  if contAt row col then
    if leadBefore width row col then (row.set (col - 1) Cell.blank).set col Cell.blank
    else row.set col Cell.blank
  else if leadAt width row col && contAt row (col + 1) then
    (row.set col Cell.blank).set (col + 1) Cell.blank
  else row.set col Cell.blank

section Write

variable {width : UnicodeWidth} {cols : ℕ} {row : Row} {col : ℕ}

theorem clearOverlappedCell_eq (hlen : row.length = cols) (hcol : col < cols) :
    Row.clearOverlappedCell width cols col row = some (cleared width row col) := by
  have hlt : col < row.length := by omega
  have hnot : ¬ cols ≤ col := by omega
  have hget : row[col]? = some row[col] := List.getElem?_eq_getElem hlt
  have hset : ∀ row' : Row, row'.length = cols →
      Row.setCell col Cell.blank row' = some (row'.set col Cell.blank) :=
    fun row' hlen' => Row.setCell_eq (by omega)
  have hcontAt := contAt_of_getElem? hget
  have hleadAt := @leadAt_of_getElem? width _ _ _ hget
  by_cases hcont : row[col].wideContinuation = true
  · cases col with
    | zero =>
      simp [Row.clearOverlappedCell, cleared, hnot, hget, hcont, hset row hlen, hcontAt, leadBefore]
    | succ j =>
      have hleft : row[j]? = some row[j] := List.getElem?_eq_getElem (by omega)
      have hne : (row.set (j + 1) Cell.blank)[j]? = some row[j] := by
        rw [List.getElem?_set_ne (by omega), hleft]
      have hbefore := @leadAt_of_getElem? width _ _ _ hleft
      by_cases hlead : isWideLead width row[j] = true
      · have hset' : Row.setCell j Cell.blank (row.set (j + 1) Cell.blank) =
            some ((row.set (j + 1) Cell.blank).set j Cell.blank) :=
          Row.setCell_eq (by simp; omega)
        simp [Row.clearOverlappedCell, cleared, hnot, hget, hcont, hset row hlen, hcontAt, leadBefore,
          checkedSub, hne, hbefore, hlead, hset', List.set_comm Cell.blank Cell.blank
            (by omega : j + 1 ≠ j)]
      · simp [Row.clearOverlappedCell, cleared, hnot, hget, hcont, hset row hlen, hcontAt, leadBefore,
          checkedSub, hne, hbefore, hlead]
  · by_cases hlead : isWideLead width row[col] = true
    · by_cases hnext : col + 1 < cols
      · have hright : row[col + 1]? = some row[col + 1] := List.getElem?_eq_getElem (by omega)
        have hrightAt := contAt_of_getElem? hright
        by_cases hrightCont : row[col + 1].wideContinuation = true
        · have hset' : Row.setCell (col + 1) Cell.blank row = some (row.set (col + 1) Cell.blank) :=
            Row.setCell_eq (by omega)
          simp [Row.clearOverlappedCell, cleared, hnot, hget, hcont, hcontAt, hleadAt, hlead, hnext,
            hright, hrightAt, hrightCont, hset', hset (row.set (col + 1) Cell.blank) (by simpa),
            List.set_comm Cell.blank Cell.blank (by omega : col + 1 ≠ col)]
        · simp [Row.clearOverlappedCell, cleared, hnot, hget, hcont, hcontAt, hleadAt, hlead, hnext,
            hright, hrightAt, hrightCont, hset row hlen]
      · have hout : contAt row (col + 1) = false := contAt_of_le (by omega)
        simp [Row.clearOverlappedCell, cleared, hnot, hget, hcont, hcontAt, hleadAt, hlead, hnext,
          hout, hset row hlen]
    · simp [Row.clearOverlappedCell, cleared, hnot, hget, hcont, hcontAt, hleadAt, hlead,
        hset row hlen]

theorem cleared_shape (hspace : width ' ' = some 1) (h : RowShape width cols row) :
    RowShape width cols (cleared width row col) := by
  have hblank := cellOk_blank hspace
  unfold cleared
  split
  · split
    · exact (h.set _ hblank).set _ hblank
    · exact h.set _ hblank
  · split
    · exact (h.set _ hblank).set _ hblank
    · exact h.set _ hblank

/-- Both halves of the character at a column are gone. -/
theorem cleared_ok (hspace : width ' ' = some 1) (h : RowOk width cols row) (hcol : col < cols) :
    RowOk width cols (cleared width row col) ∧ NarrowAt width (cleared width row col) col := by
  have hlt : col < row.length := by simpa [h.length] using hcol
  have hblank := narrow_blank hspace
  have hshape : RowShape width cols (cleared width row col) := cleared_shape hspace h.toRowShape
  have hat := h.paired col
  have hnarrow : ∀ row' : Row, row'.length = row.length →
      NarrowAt width (row'.set col Cell.blank) col := by
    intro row' hlen
    have hlt' : col < row'.length := by omega
    simp [NarrowAt, contAt_set hlt', leadAt_set hlt', hblank.2]
  by_cases hcont : contAt row col = true
  · cases col with
    | zero => simp [hcont, leadBefore] at hat
    | succ j =>
      have hlead : leadAt width row j = true := by
        rw [← hcont, hat, leadBefore]
      have heq : cleared width row (j + 1) = (row.set j Cell.blank).set (j + 1) Cell.blank := by
        simp [cleared, hcont, leadBefore, hlead]
      rw [heq] at hshape ⊢
      exact ⟨⟨hshape, h.paired.set_halves hlt hlead hblank hblank⟩, hnarrow _ (by simp)⟩
  · by_cases hlead : leadAt width row col = true
    · obtain ⟨hnext, hlt'⟩ := h.paired.contAt_succ hlead
      have heq : cleared width row col = (row.set col Cell.blank).set (col + 1) Cell.blank := by
        simp [cleared, hcont, hlead, hnext]
      rw [heq] at hshape ⊢
      refine ⟨⟨hshape, h.paired.set_halves hlt' hlead hblank hblank⟩, ?_⟩
      rw [List.set_comm _ _ (by omega)]
      exact hnarrow _ (by simp)
    · have heq : cleared width row col = row.set col Cell.blank := by
        simp [cleared, hcont, hlead]
      rw [heq] at hshape ⊢
      have hold : NarrowAt width row col := ⟨by simpa using hcont, by simpa using hlead⟩
      exact ⟨⟨hshape, h.paired.set_narrow hlt hold hblank⟩, hnarrow row rfl⟩

/-- Clearing a column that is no continuation does not touch the column to its left. -/
theorem cleared_set {cell : Cell} (hlt : col + 1 < row.length)
    (hcont : contAt row (col + 1) = false) :
    cleared width (row.set col cell) (col + 1) = (cleared width row (col + 1)).set col cell := by
  have hlt' : col < row.length := by omega
  have hat : contAt (row.set col cell) (col + 1) = false := by
    simpa [contAt_set hlt'] using hcont
  have hlead : leadAt width (row.set col cell) (col + 1) = leadAt width row (col + 1) := by
    simp [leadAt_set hlt']
  have hright : contAt (row.set col cell) (col + 1 + 1) = contAt row (col + 1 + 1) := by
    have hne : col + 1 + 1 ≠ col := by omega
    simp [contAt_set hlt', hne]
  simp only [cleared, hat, hcont, hlead, hright, Bool.false_eq_true, if_false]
  split
  · rw [List.set_comm _ _ (by omega : col ≠ col + 1), List.set_comm _ _ (by omega : col ≠ col + 1 + 1)]
  · rw [List.set_comm _ _ (by omega : col ≠ col + 1)]

theorem narrowAt_cleared_succ (hlt : col + 1 < row.length) (h : NarrowAt width row col)
    (hcont : contAt row (col + 1) = false) : NarrowAt width (cleared width row (col + 1)) col := by
  have hset : ∀ row' : Row, ∀ i, i ≠ col → i < row'.length → NarrowAt width row' col →
      NarrowAt width (row'.set i Cell.blank) col := by
    intro row' i hi hlt' hold
    simpa [NarrowAt, contAt_set hlt', leadAt_set hlt', Ne.symm hi] using hold
  have hone : NarrowAt width (row.set (col + 1) Cell.blank) col := hset row _ (by omega) hlt h
  simp only [cleared, hcont, Bool.false_eq_true, if_false]
  by_cases hpair : leadAt width row (col + 1) && contAt row (col + 1 + 1)
  · have hlt' : col + 1 + 1 < row.length := by
      by_contra hle
      rw [contAt_of_le (by omega)] at hpair
      simp at hpair
    rw [if_pos hpair]
    exact hset _ _ (by omega) (by simpa using hlt') hone
  · rw [if_neg hpair]
    exact hone

/-- A character that fits leaves a well-formed row. -/
theorem RowOk.writeChar (hspace : width ' ' = some 1) (h : RowOk width cols row) {c : Char}
    (hc : charWidth width c ≠ 0) (hfit : col + charWidth width c ≤ cols) (style : Style) :
    Yields (Row.writeChar width cols style c col row) (RowOk width cols) := by
  have hcol : col < cols := by omega
  obtain ⟨hok, hnarrow⟩ := cleared_ok hspace h hcol
  have hlen := hok.length
  have hlt : col < (cleared width row col).length := by omega
  have hcell := cellOk_char hc style
  have hlead := isWideLead_char hc [] style
  have hclear := @clearOverlappedCell_eq width cols row col h.length hcol
  have hset : Row.setCell col ⟨[c], style, false⟩ (cleared width row col) = _ := Row.setCell_eq hlt
  by_cases hwide : charWidth width c = 2
  · -- The right half: what it replaces is no continuation, since the left half was cleared.
    have hcol' : col + 1 < cols := by omega
    have hlt' : col + 1 < (cleared width row col).length := by omega
    have hcont : contAt (cleared width row col) (col + 1) = false := by
      rw [hok.paired (col + 1), leadBefore]
      exact hnarrow.2
    obtain ⟨hok', hnarrow'⟩ := cleared_ok hspace hok hcol'
    have hlen' := hok'.length
    have hclear' := @clearOverlappedCell_eq width cols
      ((cleared width row col).set col ⟨[c], style, false⟩) (col + 1) (by simpa using hlen) hcol'
    rw [cleared_set hlt' hcont] at hclear'
    have hlt'' : col + 1 < ((cleared width (cleared width row col) (col + 1)).set col
        ⟨[c], style, false⟩).length := by
      simp
      omega
    have hset' := @Row.setCell_eq _ (col + 1) (Cell.continuation style) hlt''
    have hshape := (hok'.set col hcell).set (col + 1) (@cellOk_continuation width style)
    have hpaired := hok'.paired.set_wide (by omega) (narrowAt_cleared_succ hlt' hnarrow hcont)
      hnarrow' rfl (hlead.trans (by simp [hwide]))
      (wideContinuation_continuation style)
    have hwritten : RowOk width cols _ := ⟨hshape, hpaired⟩
    simpa [Row.writeChar, hclear, hset, hwide, hclear', hset', Yields] using hwritten
  · have hnew : Narrow width ⟨[c], style, false⟩ := ⟨rfl, by simp [hlead, hwide]⟩
    have hwritten : RowOk width cols ((cleared width row col).set col ⟨[c], style, false⟩) :=
      ⟨hok.set col hcell, hok.paired.set_narrow hlt hnarrow hnew⟩
    simpa [Row.writeChar, hclear, hset, hwide, Yields] using hwritten

/-- A combining character is added to a cell that is no continuation. -/
theorem RowOk.pushText (h : RowOk width cols row) {c : Char} (hc : charWidth width c = 0)
    {cell : Cell} (hget : row[col]? = some cell) (hcont : cell.wideContinuation = false) :
    Yields (Row.pushText c col row) (RowOk width cols) := by
  obtain ⟨hlt, -⟩ := List.getElem?_eq_some_iff.mp hget
  obtain ⟨first, combining, htext, hfirst, hrest⟩ := h.cell cell (List.mem_of_getElem? hget) hcont
  have hok : CellOk width { cell with text := cell.text ++ [c] } := by
    intro _
    refine ⟨first, combining ++ [c], by simp [htext], hfirst, ?_⟩
    intro d hd
    rcases List.mem_append.mp hd with hd | hd
    · exact hrest d hd
    · rwa [List.mem_singleton.mp hd]
  have hlead : leadAt width row col = isWideLead width { cell with text := cell.text ++ [c] } := by
    simp [leadAt_of_getElem? hget, isWideLead, hcont, htext]
  have hcontAt : contAt row col = cell.wideContinuation := contAt_of_getElem? hget
  have hpaired : Paired width (row.set col { cell with text := cell.text ++ [c] }) :=
    h.paired.set_same hlt hcontAt hlead
  have hset := @Row.setCell_eq row col { cell with text := cell.text ++ [c] } hlt
  have hpushed : RowOk width cols _ := ⟨h.set col hok, hpaired⟩
  simpa [Row.pushText, hget, hset, Yields] using hpushed

/-- The search for the last base character finds none or one. -/
theorem RowShape.lastBase (h : RowShape width cols row) (hcol : col ≤ cols) :
    Yields (Row.lastBase row col) fun last =>
      ∀ i, last = some i → ∃ cell, row[i]? = some cell ∧ cell.wideContinuation = false := by
  induction col with
  | zero => exact .pure (by simp)
  | succ col ih =>
    obtain ⟨cell, hget, -⟩ := h.getElem? (by omega : col < cols)
    by_cases hcont : cell.wideContinuation = true
    · simpa [Row.lastBase, hget, hcont] using ih (by omega)
    · have hfound : ∀ i, some col = some i →
          ∃ cell, row[i]? = some cell ∧ cell.wideContinuation = false := by
        intro i hi
        obtain rfl := Option.some.inj hi
        exact ⟨cell, hget, by simpa using hcont⟩
      simpa [Row.lastBase, hget, hcont] using Yields.pure hfound

end Write

end ManInTheBox.Emulator
