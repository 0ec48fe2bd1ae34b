import ManInTheBox.Emulator.Scrolling

/-! # Editing a row

An edit erases a range of a row or shifts the cells from the cursor on, cell by cell, and
then the pass over the row looks for halves of wide characters. A half that was cut off
at the right edge is blanked. A left half that has lost its right half is completed
instead, over the first cell that was edited.
-/

namespace ManInTheBox.Emulator

open Library

variable {width : UnicodeWidth} {row row' : Row}

/-! ## The pass over a row as a function -/

/-- The row after the pass has been at the first columns. -/
def repairedUpTo (width : UnicodeWidth) (row : Row) (n : ℕ) : Row :=
  (List.range n).foldl (repairedAt width) row

theorem repairedUpTo_succ (width : UnicodeWidth) (row : Row) (n : ℕ) :
    repairedUpTo width row (n + 1) = repairedAt width (repairedUpTo width row n) n := by
  simp [repairedUpTo, List.range_succ]

@[simp] theorem length_repairedUpTo (width : UnicodeWidth) (row : Row) (n : ℕ) :
    (repairedUpTo width row n).length = row.length := by
  induction n with
  | zero => rfl
  | succ n ih => rw [repairedUpTo_succ, length_repairedAt, ih]

theorem sanitize_eq (width : UnicodeWidth) (row : Row) :
    Row.sanitize width row.length row = some (repairedUpTo width row row.length) := by
  have hloop : ∀ n ≤ row.length, (List.range n).foldlM (Row.sanitizeCell width row.length) row =
      some (repairedUpTo width row n) := by
    intro n
    induction n with
    | zero => exact fun _ => rfl
    | succ n ih =>
      intro hn
      have hcell := @sanitizeCell_eq width (repairedUpTo width row n) n (by simpa using hn)
      rw [length_repairedUpTo] at hcell
      rw [List.range_succ, List.foldlM_append, ih (by omega), Option.bind_eq_bind, Option.bind_some,
        List.foldlM_cons, hcell, repairedUpTo_succ]
      rfl
  exact hloop _ le_rfl

/-! ## What the pass leaves -/

theorem contAt_congr {i j : ℕ} (h : row[i]? = row'[j]?) : contAt row i = contAt row' j := by
  rw [contAt, h, contAt]

theorem leadAt_congr {i j : ℕ} (h : row[i]? = row'[j]?) : leadAt width row i = leadAt width row' j := by
  rw [leadAt, h, leadAt]

/-- In the second row all characters are whole, and where it differs from the first one, half of a
character that had lost the other half has been blanked. -/
structure Repairs (width : UnicodeWidth) (row row' : Row) : Prop where
  length : row'.length = row.length
  paired : Paired width row'
  cell : ∀ i, row'[i]? = row[i]? ∨
    row'[i]? = some Cell.blank ∧
      (contAt row i = true ∨ leadAt width row i = true ∧ i + 1 = row.length)

/-- Where such a row has not blanked a lead, its other half is there. -/
theorem Repairs.contAt_succ (h : Repairs width row row') {col : ℕ}
    (hlead : leadAt width row col = true) (hcol : col + 1 < row.length) :
    row'[col]? = row[col]? ∧ contAt row (col + 1) = true := by
  rcases h.cell col with hkept | ⟨-, hcont | ⟨-, hlast⟩⟩
  · have hlead' : leadAt width row' col = true := (leadAt_congr hkept).trans hlead
    have hcont : contAt row' (col + 1) = true := (h.paired (col + 1)).trans hlead'
    refine ⟨hkept, ?_⟩
    rcases h.cell (col + 1) with hkept' | ⟨hblank, -⟩
    · exact (contAt_congr hkept').symm.trans hcont
    · rw [contAt_of_getElem? hblank] at hcont
      cases hcont
  · rw [contAt_of_leadAt hlead] at hcont
    cases hcont
  · omega

/-- At a column whose cells are still the first ones, the pass leaves the cell alone or blanks it, as
it is in the repaired row. -/
theorem Repairs.repairedAt_eq (h : Repairs width row row') {n : ℕ} {this : Row}
    (hlength : this.length = row.length) (hhere : this[n]? = row[n]?)
    (hnext : this[n + 1]? = row[n + 1]?)
    (hbefore : leadBefore width this n = leadBefore width row' n) :
    repairedAt width this n = this ∧ row'[n]? = row[n]? ∨
      repairedAt width this n = this.set n Cell.blank ∧ row'[n]? = some Cell.blank := by
  have hpaired := h.paired n
  rw [repairedAt, contAt_congr hhere, leadAt_congr hhere, contAt_congr hnext, hbefore, hlength]
  by_cases hcont : contAt row n = true
  · rw [if_pos hcont]
    by_cases hlead : leadBefore width row' n = true
    · rw [if_pos hlead]
      rcases h.cell n with hkept | ⟨hgone, -⟩
      · exact .inl ⟨rfl, hkept⟩
      · rw [hlead, contAt_of_getElem? hgone] at hpaired
        cases hpaired
    · rw [if_neg hlead]
      rcases h.cell n with hkept | ⟨hgone, -⟩
      · rw [contAt_congr hkept, hcont] at hpaired
        exact absurd hpaired.symm hlead
      · exact .inr ⟨rfl, hgone⟩
  · rw [if_neg hcont]
    by_cases hlead : leadAt width row n = true
    · rw [if_pos hlead]
      by_cases hlast : row.length ≤ n + 1
      · rw [if_pos hlast]
        rcases h.cell n with hkept | ⟨hgone, -⟩
        · -- The lead in the last column has no other half.
          have hcont' : contAt row' (n + 1) = true :=
            (h.paired (n + 1)).trans ((leadAt_congr hkept).trans hlead)
          rw [contAt_of_le (by rw [h.length]; exact hlast)] at hcont'
          cases hcont'
        · exact .inr ⟨rfl, hgone⟩
      · obtain ⟨hkept, hright⟩ := h.contAt_succ hlead (by omega)
        rw [if_neg hlast, if_pos hright]
        exact .inl ⟨rfl, hkept⟩
    · rw [if_neg hlead]
      rcases h.cell n with hkept | ⟨-, hcont' | ⟨hlead', -⟩⟩
      · exact .inl ⟨rfl, hkept⟩
      · exact absurd hcont' hcont
      · exact absurd hlead' hlead

/-- The pass over the first columns has made them those of the repaired row. -/
theorem Repairs.getElem?_repairedUpTo (h : Repairs width row row') {n : ℕ} (hn : n ≤ row.length)
    (i : ℕ) :
    (repairedUpTo width row n)[i]? = if i < n then row'[i]? else row[i]? := by
  induction n generalizing i with
  | zero => rfl
  | succ n ih =>
    have ih := ih (by omega)
    have hlt : n < (repairedUpTo width row n).length := by simpa using hn
    have hbefore : leadBefore width (repairedUpTo width row n) n = leadBefore width row' n := by
      cases n with
      | zero => rfl
      | succ j => exact leadAt_congr (by rw [ih, if_pos (by omega)])
    rw [repairedUpTo_succ]
    rcases h.repairedAt_eq (length_repairedUpTo width row n) (by rw [ih, if_neg (by omega)])
      (by rw [ih, if_neg (by omega)]) hbefore with ⟨hat, hkept⟩ | ⟨hat, hblank⟩
    · rw [hat, ih]
      by_cases hi : i = n
      · rw [if_neg (by omega), if_pos (by omega), hi, hkept]
      · exact if_congr (by omega) rfl rfl
    · rw [hat]
      by_cases hi : n = i
      · rw [← hi, List.getElem?_set_self hlt, if_pos (by omega), hblank]
      · rw [List.getElem?_set_ne hi, ih]
        exact if_congr (by omega) rfl rfl

theorem Repairs.repairedUpTo_eq (h : Repairs width row row') :
    repairedUpTo width row row.length = row' := by
  apply List.ext_getElem?
  intro i
  rw [h.getElem?_repairedUpTo le_rfl]
  by_cases hi : i < row.length
  · rw [if_pos hi]
  · rw [if_neg hi, List.getElem?_eq_none (by omega),
      List.getElem?_eq_none (by rw [h.length]; omega)]

/-- Cells in front are not touched if all characters up to them are whole. -/
theorem getElem?_repairedUpTo_of_paired {col : ℕ}
    (hpaired : ∀ i ≤ col, contAt row i = leadBefore width row i) (hcol : col + 1 < row.length)
    (n : ℕ) {i : ℕ} (hi : i ≤ col) : (repairedUpTo width row n)[i]? = row[i]? := by
  induction n generalizing i with
  | zero => rfl
  | succ n ih =>
    rw [repairedUpTo_succ]
    by_cases hn : n ≤ col
    · have hhere := ih hn
      have hbefore : leadBefore width (repairedUpTo width row n) n = leadBefore width row n := by
        cases n with
        | zero => rfl
        | succ j => exact leadAt_congr (ih (by omega))
      have hat := hpaired n hn
      rw [repairedAt, contAt_congr hhere, leadAt_congr hhere, hbefore, length_repairedUpTo]
      by_cases hcont : contAt row n = true
      · rw [if_pos hcont, if_pos (hat.symm.trans hcont), ih hi]
      · rw [if_neg hcont]
        by_cases hlead : leadAt width row n = true
        · rw [if_pos hlead, if_neg (by omega)]
          by_cases hlast : n = col
          · -- At the last of them only the cell to the right may change.
            split
            · exact ih hi
            · rw [List.getElem?_set_ne (by omega), ih hi]
          · have hright : contAt (repairedUpTo width row n) (n + 1) = true := by
              rw [contAt_congr (ih (by omega : n + 1 ≤ col)), hpaired (n + 1) (by omega)]
              exact hlead
            rw [if_pos hright, ih hi]
        · rw [if_neg hlead, ih hi]
    · rw [repairedAt]
      split_ifs
      · exact ih hi
      · rw [List.getElem?_set_ne (by omega), ih hi]
      · rw [List.getElem?_set_ne (by omega), ih hi]
      · exact ih hi
      · rw [List.getElem?_set_ne (by omega), ih hi]
      · exact ih hi

/-! ## Edits -/

/-- What a control sequence does to a row: it erases a range, or shifts the cells from a column on. -/
inductive RowEdit
  | erase (start stop : ℕ)
  | insert (col count : ℕ)
  | delete (col count : ℕ)
  deriving DecidableEq

namespace RowEdit

/-- The left edge of the cells that are edited. -/
def left : RowEdit → ℕ
  | erase start _ => start
  | insert col _ => col
  | delete col _ => col

/-- The right edge of the cells that are erased or deleted, or the left edge of those that are pushed
off the row. -/
def right (edit : RowEdit) (cols : ℕ) : ℕ :=
  match edit with
  | erase _ stop => stop
  | insert col count => cols - min count (cols - col)
  | delete col count => col + count

/-- The edit with no regard to wide characters. -/
def raw (edit : RowEdit) (style : Style) (row : Row) : Row :=
  match edit with
  | erase start stop =>
    row.mapIdx fun i cell => if start ≤ i ∧ i < stop then Cell.blankWithStyle style else cell
  | insert col count => shiftDown (Cell.blankWithStyle style) col (row.length - 1) count row
  | delete col count => shiftUp (Cell.blankWithStyle style) col (row.length - 1) count row

end RowEdit

/-- Blank both halves of the wide character that the edge before a column cuts. -/
def blankCut (col : ℕ) (row : Row) : Row :=
  if contAt row col then (row.set (col - 1) Cell.blank).set col Cell.blank else row

/-- What an edit is to do: both halves of the characters cut by its edges are blanked first. -/
def RowEdit.reference (edit : RowEdit) (style : Style) (row : Row) : Row :=
  edit.raw style (blankCut edit.left (blankCut (edit.right row.length) row))

/-- An edit of a row of so many columns that does something, and not beyond the row. -/
def RowEdit.Within (cols : ℕ) : RowEdit → Prop
  | erase start stop => start < stop ∧ stop ≤ cols
  | insert col count => col < cols ∧ 0 < count
  | delete col count => col < cols ∧ 0 < count

section Cut

variable {col : ℕ}

@[simp] theorem length_blankCut (col : ℕ) (row : Row) : (blankCut col row).length = row.length := by
  unfold blankCut
  split <;> simp

theorem blankCut_of_contAt (h : contAt row col = false) : blankCut col row = row := by
  simp [blankCut, h]

/-- A right half has its left half before it. -/
theorem Paired.leadAt_of_contAt (h : Paired width row) (hcont : contAt row col = true) :
    0 < col ∧ col < row.length ∧ leadAt width row (col - 1) = true := by
  have hat := h col
  rw [hcont] at hat
  have hlt : col < row.length := by
    by_contra hle
    rw [contAt_of_le (not_lt.mp hle)] at hcont
    cases hcont
  cases col with
  | zero => cases hat
  | succ j => exact ⟨by omega, hlt, hat.symm⟩

theorem Paired.blankCut (hspace : width ' ' = some 1) (h : Paired width row) (col : ℕ) :
    Paired width (blankCut col row) := by
  by_cases hcont : contAt row col = true
  · obtain ⟨hpos, hlt, hlead⟩ := h.leadAt_of_contAt hcont
    have hblank := narrow_blank hspace
    have hcol : col - 1 + 1 = col := by omega
    have hhalves := h.set_halves (by omega) hlead hblank hblank
    rw [hcol] at hhalves
    rwa [Emulator.blankCut, if_pos hcont]
  · rwa [blankCut_of_contAt (by simpa using hcont)]

/-- The cells of the character that is cut. -/
theorem getElem?_blankCut (h : Paired width row) (col i : ℕ) :
    (blankCut col row)[i]? =
      if contAt row col = true ∧ (i = col ∨ i + 1 = col) then some Cell.blank else row[i]? := by
  by_cases hcont : contAt row col = true
  · obtain ⟨hpos, hlt, -⟩ := h.leadAt_of_contAt hcont
    rw [blankCut, if_pos hcont, List.getElem?_set, List.getElem?_set, List.length_set]
    grind
  · rw [blankCut_of_contAt (by simpa using hcont), if_neg (by simp [hcont])]

theorem contAt_blankCut (h : Paired width row) (i : ℕ) :
    contAt (blankCut col row) i = if i = col then false else contAt row i := by
  have hat := getElem?_blankCut h col i
  by_cases hcont : contAt row col = true
  · obtain ⟨hpos, -, hlead⟩ := h.leadAt_of_contAt hcont
    by_cases hi : i = col
    · rw [if_pos ⟨hcont, .inl hi⟩] at hat
      rw [if_pos hi, contAt_of_getElem? hat, wideContinuation_blank]
    · rw [if_neg hi]
      by_cases hi' : i + 1 = col
      · have hlead' : leadAt width row i = true := by rwa [← hi', Nat.add_sub_cancel] at hlead
        rw [if_pos ⟨hcont, .inr hi'⟩] at hat
        rw [contAt_of_getElem? hat, wideContinuation_blank, contAt_of_leadAt hlead']
      · rw [if_neg (by omega)] at hat
        exact contAt_congr hat
  · rw [blankCut_of_contAt (by simpa using hcont)]
    rw [Bool.not_eq_true] at hcont
    split
    · simp [*]
    · rfl

end Cut

/-! ## Edits that cut no character -/

section Uncut

variable {fresh : Cell} {bottom col count : ℕ}

theorem any_shiftUp {p : Cell → Bool} (hfresh : p fresh = false) (h : bottom < row.length) (i : ℕ) :
    (shiftUp fresh col bottom count row)[i]?.any p =
      if col ≤ i ∧ i ≤ bottom then if i + count ≤ bottom then row[i + count]?.any p else false
      else row[i]?.any p := by
  rw [getElem?_shiftUp h]
  split_ifs <;> simp [hfresh]

theorem any_shiftDown {p : Cell → Bool} (hfresh : p fresh = false) (h : bottom < row.length) (i : ℕ) :
    (shiftDown fresh col bottom count row)[i]?.any p =
      if col ≤ i ∧ i ≤ bottom then if col + count ≤ i then row[i - count]?.any p else false
      else row[i]?.any p := by
  rw [getElem?_shiftDown h]
  split_ifs <;> simp [hfresh]

/-- There is nothing behind the last cell, and so it is no left half. -/
theorem Paired.leadAt_last (h : Paired width row) {i : ℕ} (hi : row.length ≤ i + 1) :
    leadAt width row i = false :=
  (h (i + 1)).symm.trans (contAt_of_le hi)

variable (hfresh : Narrow width fresh) (h : Paired width row) (hcol : col < row.length)
  (hleft : contAt row col = false)
include hfresh h hcol hleft

/-- Cells are deleted from a column on, up to another one, and no character is cut at either. -/
theorem Paired.shiftUp (hright : contAt row (col + count) = false) :
    Paired width (shiftUp fresh col (row.length - 1) count row) := by
  have hlast : row.length - 1 < row.length := by omega
  have hcont : ∀ i, contAt (Library.shiftUp fresh col (row.length - 1) count row) i =
      if col ≤ i ∧ i ≤ row.length - 1 then
        if i + count ≤ row.length - 1 then contAt row (i + count) else false
      else contAt row i := any_shiftUp hfresh.1 hlast
  have hlead : ∀ i, leadAt width (Library.shiftUp fresh col (row.length - 1) count row) i =
      if col ≤ i ∧ i ≤ row.length - 1 then
        if i + count ≤ row.length - 1 then leadAt width row (i + count) else false
      else leadAt width row i := any_shiftUp hfresh.2 hlast
  intro i
  cases i with
  | zero =>
    rw [hcont, leadBefore]
    split_ifs
    · rwa [show col = 0 by omega] at hright
    · rfl
    · exact h 0
  | succ i =>
    rcases lt_trichotomy (i + 1) col with hi | hi | hi
    · rw [hcont, leadBefore, hlead, if_neg (by omega), if_neg (by omega)]
      exact h (i + 1)
    · -- The cell that comes to the column is no right half, and the one before it no left half.
      have hbefore : leadAt width row i = false := (h (i + 1)).symm.trans (hi ▸ hleft)
      rw [hcont, leadBefore, hlead, if_neg (by omega : ¬ (col ≤ i ∧ i ≤ row.length - 1)), hbefore]
      split_ifs
      · exact hi ▸ hright
      · rfl
      · omega
    · by_cases hin : i + 1 + count ≤ row.length - 1
      · rw [hcont, leadBefore, hlead, if_pos (by omega), if_pos hin, if_pos (by omega),
          if_pos (by omega), Nat.add_right_comm]
        exact h (i + count + 1)
      · have hcont' : contAt (Library.shiftUp fresh col (row.length - 1) count row) (i + 1) = false := by
          rw [hcont]
          split_ifs
          · rfl
          · exact contAt_of_le (by omega)
        have hlead' : leadAt width (Library.shiftUp fresh col (row.length - 1) count row) i = false := by
          rw [hlead]
          split_ifs
          · exact h.leadAt_last (by omega)
          · rfl
          · exact h.leadAt_last (by omega)
        exact hcont'.trans hlead'.symm

/-- Cells are inserted at a column, and no character is cut there or at the edge over which cells are
lost. -/
theorem Paired.shiftDown (hpos : 0 < count) (hcount : count ≤ row.length - col)
    (hright : contAt row (row.length - count) = false) :
    Paired width (shiftDown fresh col (row.length - 1) count row) := by
  have hlast : row.length - 1 < row.length := by omega
  have hcont : ∀ i, contAt (Library.shiftDown fresh col (row.length - 1) count row) i =
      if col ≤ i ∧ i ≤ row.length - 1 then
        if col + count ≤ i then contAt row (i - count) else false
      else contAt row i := any_shiftDown hfresh.1 hlast
  have hlead : ∀ i, leadAt width (Library.shiftDown fresh col (row.length - 1) count row) i =
      if col ≤ i ∧ i ≤ row.length - 1 then
        if col + count ≤ i then leadAt width row (i - count) else false
      else leadAt width row i := any_shiftDown hfresh.2 hlast
  intro i
  cases i with
  | zero =>
    rw [hcont, leadBefore]
    split_ifs
    · omega
    · rfl
    · exact h 0
  | succ i =>
    rcases lt_trichotomy (i + 1) (col + count) with hi | hi | hi
    · by_cases hi' : i + 1 < col
      · rw [hcont, leadBefore, hlead, if_neg (by omega), if_neg (by omega)]
        exact h (i + 1)
      · -- A fresh cell, after a fresh one or after the cell before the column.
        rw [hcont, leadBefore, hlead, if_pos (by omega), if_neg (by omega)]
        split_ifs
        · omega
        · rfl
        · have hi'' : i + 1 = col := by omega
          exact (hi'' ▸ hleft).symm.trans (h (i + 1))
    · -- The cell from the column is no right half, and a fresh one stands before it.
      have hlead' : leadAt width (Library.shiftDown fresh col (row.length - 1) count row) i = false := by
        rw [hlead]
        split_ifs
        · omega
        · rfl
        · omega
      have hcont' : contAt (Library.shiftDown fresh col (row.length - 1) count row) (i + 1) = false := by
        rw [hcont]
        split_ifs
        · rwa [hi, Nat.add_sub_cancel]
        · rfl
        · exact contAt_of_le (by omega)
      exact hcont'.trans hlead'.symm
    · by_cases hin : i + 1 ≤ row.length - 1
      · rw [hcont, leadBefore, hlead, if_pos (by omega), if_pos (by omega), if_pos (by omega),
          if_pos (by omega), Nat.sub_add_comm (by omega)]
        exact h (i - count + 1)
      · have hlead' :
            leadAt width (Library.shiftDown fresh col (row.length - 1) count row) i = false := by
          rw [hlead]
          split_ifs
          · have hi' : i - count + 1 = row.length - count := by omega
            exact (h (i - count + 1)).symm.trans (hi' ▸ hright)
          · rfl
          · exact h.leadAt_last (by omega)
        have hcont' :
            contAt (Library.shiftDown fresh col (row.length - 1) count row) (i + 1) = false := by
          rw [hcont, if_neg (by omega)]
          exact contAt_of_le (by omega)
        exact hcont'.trans hlead'.symm

end Uncut

namespace RowEdit

variable {style : Style} {edit : RowEdit}

@[simp] theorem length_raw (edit : RowEdit) (style : Style) (row : Row) :
    (edit.raw style row).length = row.length := by
  cases edit <;> simp [raw]

theorem getElem?_raw_erase {start stop : ℕ} (h : stop ≤ row.length) (i : ℕ) :
    ((erase start stop).raw style row)[i]? =
      if start ≤ i ∧ i < stop then some (Cell.blankWithStyle style) else row[i]? := by
  by_cases hi : i < row.length
  · simp only [raw, List.getElem?_mapIdx, List.getElem?_eq_getElem hi, Option.map_some]
    split <;> rfl
  · rw [if_neg (by omega), List.getElem?_eq_none (by simpa using hi),
      List.getElem?_eq_none (not_lt.mp hi)]

theorem paired_erase (hspace : width ' ' = some 1) (h : Paired width row) {start stop : ℕ}
    (hstop : stop ≤ row.length) (hleft : contAt row start = false)
    (hright : contAt row stop = false) : Paired width ((erase start stop).raw style row) := by
  have hnarrow := narrow_blankWithStyle hspace style
  have hany : ∀ (p : Cell → Bool) i, p (Cell.blankWithStyle style) = false →
      ((erase start stop).raw style row)[i]?.any p =
        if start ≤ i ∧ i < stop then false else row[i]?.any p := by
    intro p i hp
    rw [getElem?_raw_erase hstop]
    split
    · exact hp
    · rfl
  have hcont : ∀ i, contAt ((erase start stop).raw style row) i =
      if start ≤ i ∧ i < stop then false else contAt row i := fun i => hany _ i hnarrow.1
  have hlead : ∀ i, leadAt width ((erase start stop).raw style row) i =
      if start ≤ i ∧ i < stop then false else leadAt width row i := fun i => hany _ i hnarrow.2
  intro i
  have hat := h i
  cases i with
  | zero =>
    rw [hcont, leadBefore]
    split
    · rfl
    · exact hat
  | succ i =>
    rw [leadBefore] at hat
    rw [hcont, leadBefore, hlead]
    split_ifs with hin hin' hin'
    · rfl
    · have hi : i + 1 = start := by omega
      rw [← hat, hi, hleft]
    · have hi : i + 1 = stop := by omega
      rw [hi, hright]
    · exact hat

/-- An edit that cuts no character leaves all characters whole. -/
theorem paired_raw (hspace : width ' ' = some 1) (hwithin : edit.Within row.length)
    (h : Paired width row) (hleft : contAt row edit.left = false)
    (hright : contAt row (edit.right row.length) = false) : Paired width (edit.raw style row) := by
  have hnarrow := narrow_blankWithStyle hspace style
  cases edit with
  | erase start stop => exact paired_erase hspace h hwithin.2 hleft hright
  | insert col count =>
    obtain ⟨hcol, hcount⟩ := hwithin
    have hlast : row.length - 1 - col + 1 = row.length - col := by omega
    rw [raw, ← shiftDown_min (by omega), hlast]
    exact h.shiftDown hnarrow hcol hleft (by omega) (min_le_right _ _) hright
  | delete col count => exact h.shiftUp hnarrow hwithin.1 hleft hright

theorem paired_reference (hspace : width ' ' = some 1) (hwithin : edit.Within row.length)
    (h : Paired width row) : Paired width (edit.reference style row) := by
  have hright := h.blankCut hspace (edit.right row.length)
  apply paired_raw hspace (by simpa using hwithin) (hright.blankCut hspace edit.left)
  · rw [contAt_blankCut hright, if_pos rfl]
  · rw [length_blankCut, length_blankCut, contAt_blankCut hright, contAt_blankCut h, if_pos rfl,
      ite_self]

/-- Cells in front of the left edge are left alone by the edit. -/
theorem getElem?_raw_of_lt (hwithin : edit.Within row.length) {i : ℕ} (hi : i < edit.left) :
    (edit.raw style row)[i]? = row[i]? := by
  cases edit with
  | erase start stop => rw [getElem?_raw_erase hwithin.2, if_neg (by simp only [left] at hi; omega)]
  | insert col count =>
    have hcol := hwithin.1
    rw [raw, getElem?_shiftDown (by omega), if_neg (by simp only [left] at hi; omega)]
  | delete col count =>
    have hcol := hwithin.1
    rw [raw, getElem?_shiftUp (by omega), if_neg (by simp only [left] at hi; omega)]

/-- The right half of the character at the right edge is left behind by an erasure. -/
theorem cell_erase (h : Paired width row) {start stop : ℕ}
    (hwithin : (erase start stop).Within row.length) (i : ℕ) :
    ((erase start stop).raw style (blankCut stop row))[i]? =
        ((erase start stop).raw style row)[i]? ∨
      ((erase start stop).raw style (blankCut stop row))[i]? = some Cell.blank ∧
        contAt ((erase start stop).raw style row) i = true := by
  have hstop : stop ≤ (blankCut stop row).length := by simpa using hwithin.2
  rw [getElem?_raw_erase hstop, getElem?_raw_erase hwithin.2, getElem?_blankCut h]
  by_cases hin : start ≤ i ∧ i < stop
  · simp [hin]
  · rw [if_neg hin, if_neg hin]
    split
    · rename_i hhalf
      have hi : i = stop := by
        have := hwithin.1
        have := hhalf.2
        omega
      have hcont : contAt ((erase start stop).raw style row) i = contAt row i :=
        contAt_congr (by rw [getElem?_raw_erase hwithin.2, if_neg hin])
      refine .inr ⟨rfl, ?_⟩
      rw [hcont, hi]
      exact hhalf.1
    · exact .inl rfl

/-- The left half of the character at the right edge ends up in the last column. -/
theorem cell_insert (h : Paired width row) {col count : ℕ}
    (hwithin : (insert col count).Within row.length) (hleft : contAt row col = false) (i : ℕ) :
    ((insert col count).raw style (blankCut ((insert col count).right row.length) row))[i]? =
        ((insert col count).raw style row)[i]? ∨
      ((insert col count).raw style (blankCut ((insert col count).right row.length) row))[i]? =
          some Cell.blank ∧
        leadAt width ((insert col count).raw style row) i = true ∧ i + 1 = row.length := by
  have hcol := hwithin.1
  have hpos := hwithin.2
  simp only [raw, right, length_blankCut]
  rw [getElem?_shiftDown (by simp; omega), getElem?_shiftDown (by omega)]
  by_cases hmoved : (col ≤ i ∧ i ≤ row.length - 1) ∧ col + count ≤ i
  · rw [if_pos hmoved.1, if_pos hmoved.2, if_pos hmoved.1, if_pos hmoved.2, getElem?_blankCut h]
    split
    · rename_i hhalf
      have hi : i - count + 1 = row.length - min count (row.length - col) := by omega
      have hlead : leadAt width ((insert col count).raw style row) i =
          leadAt width row (i - count) :=
        leadAt_congr (by rw [raw, getElem?_shiftDown (by omega), if_pos hmoved.1, if_pos hmoved.2])
      refine .inr ⟨rfl, ?_, by omega⟩
      rw [raw] at hlead
      rw [hlead]
      exact (h (i - count + 1)).symm.trans (hi ▸ hhalf.1)
    · exact .inl rfl
  · by_cases hin : col ≤ i ∧ i ≤ row.length - 1
    · have hfresh : ¬ col + count ≤ i := fun hle => hmoved ⟨hin, hle⟩
      rw [if_pos hin, if_neg hfresh, if_pos hin, if_neg hfresh]
      exact .inl rfl
    · rw [if_neg hin, if_neg hin, getElem?_blankCut h, if_neg]
      · exact .inl rfl
      · -- In front of the column only the left half of a character it cuts could differ.
        rintro ⟨hcont, hi⟩
        have hlt := (h.leadAt_of_contAt hcont).2.1
        have hedge : row.length - min count (row.length - col) = col := by omega
        rw [hedge, hleft] at hcont
        cases hcont

/-- The right half of the character at the right edge comes to the column. -/
theorem cell_delete (h : Paired width row) {col count : ℕ}
    (hwithin : (delete col count).Within row.length) (i : ℕ) :
    ((delete col count).raw style (blankCut (col + count) row))[i]? =
        ((delete col count).raw style row)[i]? ∨
      ((delete col count).raw style (blankCut (col + count) row))[i]? = some Cell.blank ∧
        contAt ((delete col count).raw style row) i = true := by
  have hcol := hwithin.1
  have hpos := hwithin.2
  simp only [raw, length_blankCut]
  rw [getElem?_shiftUp (by simp; omega), getElem?_shiftUp (by omega)]
  by_cases hmoved : (col ≤ i ∧ i ≤ row.length - 1) ∧ i + count ≤ row.length - 1
  · rw [if_pos hmoved.1, if_pos hmoved.2, if_pos hmoved.1, if_pos hmoved.2, getElem?_blankCut h]
    split
    · rename_i hhalf
      have hi : i + count = col + count := by omega
      have hcont : contAt ((delete col count).raw style row) i = contAt row (i + count) :=
        contAt_congr (by rw [raw, getElem?_shiftUp (by omega), if_pos hmoved.1, if_pos hmoved.2])
      refine .inr ⟨rfl, ?_⟩
      rw [raw] at hcont
      rw [hcont, hi]
      exact hhalf.1
    · exact .inl rfl
  · by_cases hin : col ≤ i ∧ i ≤ row.length - 1
    · have hfresh : ¬ i + count ≤ row.length - 1 := fun hle => hmoved ⟨hin, hle⟩
      rw [if_pos hin, if_neg hfresh, if_pos hin, if_neg hfresh]
      exact .inl rfl
    · rw [if_neg hin, if_neg hin, getElem?_blankCut h, if_neg]
      · exact .inl rfl
      · rintro ⟨hcont, hi⟩
        have hlt := (h.leadAt_of_contAt hcont).2.1
        omega

/-- If the left edge cuts no character, all that is left to repair is at the right edge. -/
theorem repairs_raw (hspace : width ' ' = some 1) (hwithin : edit.Within row.length)
    (h : Paired width row) (hleft : contAt row edit.left = false) :
    Repairs width (edit.raw style row) (edit.reference style row) := by
  have hpaired := @paired_reference width row style edit hspace hwithin h
  have hsame : blankCut edit.left (blankCut (edit.right row.length) row) =
      blankCut (edit.right row.length) row := by
    apply blankCut_of_contAt
    rw [contAt_blankCut h, hleft, ite_self]
  refine ⟨by simp [reference], hpaired, ?_⟩
  rw [reference, hsame]
  intro i
  cases edit with
  | erase start stop =>
    have hcell := @cell_erase width row style h _ _ hwithin i
    exact hcell.imp_right fun hblank => ⟨hblank.1, .inl hblank.2⟩
  | insert col count =>
    have hcell := @cell_insert width row style h _ _ hwithin hleft i
    exact hcell.imp_right fun hblank => ⟨hblank.1, .inr (by simpa using hblank.2)⟩
  | delete col count =>
    have hcell := @cell_delete width row style h _ _ hwithin i
    exact hcell.imp_right fun hblank => ⟨hblank.1, .inl hblank.2⟩

/-- If the left edge cuts a character, the pass keeps its left half, which should be blank. -/
theorem repairedUpTo_raw_ne (hspace : width ' ' = some 1) (hwithin : edit.Within row.length)
    (h : Paired width row) (hleft : contAt row edit.left = true) (n : ℕ) :
    repairedUpTo width (edit.raw style row) n ≠ edit.reference style row := by
  obtain ⟨hpos, hlt, hlead⟩ := h.leadAt_of_contAt hleft
  have hkept : (repairedUpTo width (edit.raw style row) n)[edit.left - 1]? =
      row[edit.left - 1]? := by
    rw [← @getElem?_raw_of_lt row style edit hwithin _ (by omega : edit.left - 1 < edit.left)]
    refine getElem?_repairedUpTo_of_paired (fun i hi => ?_) (by simp; omega) n le_rfl
    have hrow : ∀ j < edit.left, (edit.raw style row)[j]? = row[j]? :=
      fun j hj => getElem?_raw_of_lt hwithin hj
    have hat := h i
    rw [contAt_congr (hrow i (by omega))]
    cases i with
    | zero => exact hat
    | succ j => rw [leadBefore, leadAt_congr (hrow j (by omega))]; exact hat
  have hblanked : (blankCut edit.left (blankCut (edit.right row.length) row))[edit.left - 1]? =
      some Cell.blank := by
    rw [getElem?_blankCut (h.blankCut hspace _), contAt_blankCut h]
    by_cases hedge : edit.left = edit.right row.length
    · rw [if_pos hedge, if_neg (by simp), getElem?_blankCut h, ← hedge,
        if_pos ⟨hleft, .inr (by omega)⟩]
    · rw [if_neg hedge, if_pos ⟨hleft, .inr (by omega)⟩]
  have hreference : (edit.reference style row)[edit.left - 1]? = some Cell.blank := by
    rw [reference, getElem?_raw_of_lt (by simpa using hwithin) (by omega), hblanked]
  intro heq
  rw [heq, hreference] at hkept
  rw [leadAt_of_getElem? hkept.symm, (narrow_blank hspace).2] at hlead
  cases hlead

/-- The pass makes the reference of an edit, exactly if the left edge cuts no character. -/
theorem repairedUpTo_raw_iff (hspace : width ' ' = some 1) (hwithin : edit.Within row.length)
    (h : Paired width row) :
    repairedUpTo width (edit.raw style row) row.length = edit.reference style row ↔
      contAt row edit.left = false := by
  constructor
  · intro heq
    by_contra hleft
    exact repairedUpTo_raw_ne hspace hwithin h (by simpa using hleft) _ heq
  · intro hleft
    have hrepairs := @repairs_raw width row style edit hspace hwithin h hleft
    have heq := hrepairs.repairedUpTo_eq
    rwa [length_raw] at heq

/-- The row after the edit and the pass. -/
def applied (width : UnicodeWidth) (edit : RowEdit) (style : Style) (row : Row) : Row :=
  repairedUpTo width (edit.raw style row) row.length

@[simp] theorem length_applied (edit : RowEdit) (style : Style) (row : Row) :
    (edit.applied width style row).length = row.length := by
  simp [applied]

theorem sanitize_raw (width : UnicodeWidth) (edit : RowEdit) (style : Style) (row : Row) :
    Row.sanitize width row.length (edit.raw style row) = some (edit.applied width style row) := by
  have hpass := sanitize_eq width (edit.raw style row)
  rwa [length_raw] at hpass

/-- A row that is erased as a whole is the same whatever it was. -/
theorem applied_whole (row row' : Row) (h : row.length = row'.length) :
    (erase 0 row.length).applied width style row =
      (erase 0 row'.length).applied width style row' := by
  have hraw : (erase 0 row.length).raw style row = (erase 0 row'.length).raw style row' := by
    apply List.ext_getElem?
    intro i
    rw [getElem?_raw_erase le_rfl, getElem?_raw_erase le_rfl, h]
    split
    · rfl
    · rw [List.getElem?_eq_none (by omega), List.getElem?_eq_none (by omega)]
  rw [applied, applied, hraw, h]

end RowEdit

/-! ## The loops on a row -/

section Loops

variable {style : Style} {start stop col count : ℕ}

theorem Row.fill_eq (hstart : start ≤ stop) (hstop : stop ≤ row.length) :
    Row.fill start stop (Cell.blankWithStyle style) row =
      some ((RowEdit.erase start stop).raw style row) := by
  obtain ⟨filled, hfill, -, hcells⟩ :=
    @fillEntries_eq Cell start (stop - start) row (by omega) (Cell.blankWithStyle style)
  have heq : filled = (RowEdit.erase start stop).raw style row := by
    apply List.ext_getElem?
    intro i
    rw [hcells, RowEdit.getElem?_raw_erase hstop]
    exact if_congr (by omega) rfl rfl
  rw [← heq, ← hfill]
  rfl

theorem Row.copyRight_fill (hcol : col < row.length) (hpos : 0 < count)
    (hcount : count ≤ row.length - col) :
    (Row.copyRight col (row.length - count) count row).bind
        (Row.fill col (col + count) (Cell.blankWithStyle style)) =
      some ((RowEdit.insert col count).raw style row) := by
  have hshift := @copyDown_fillEntries Cell (Cell.blankWithStyle style) col (row.length - 1) count row
    hpos (by omega) (by omega)
  rw [Nat.sub_add_cancel (by omega)] at hshift
  have hfill : Row.fill col (col + count) (Cell.blankWithStyle style) =
      fillEntries col count (Cell.blankWithStyle style) := by
    funext cells
    rw [Row.fill, Nat.add_sub_cancel_left]
    rfl
  rw [hfill]
  exact hshift

theorem Row.copyLeft_fill (hcol : col < row.length) (hcount : count ≤ row.length - col) :
    (Row.copyLeft col (row.length - count) count row).bind
        (Row.fill (row.length - count) row.length (Cell.blankWithStyle style)) =
      some ((RowEdit.delete col count).raw style row) := by
  have hshift := @copyUp_fillEntries Cell (Cell.blankWithStyle style) col (row.length - 1) count row
    (by omega) (by omega) (by omega)
  rw [Nat.sub_add_cancel (by omega)] at hshift
  have hfill : Row.fill (row.length - count) row.length (Cell.blankWithStyle style) =
      fillEntries (row.length - count) count (Cell.blankWithStyle style) := by
    funext cells
    rw [Row.fill, Nat.sub_sub_self (by omega)]
    rfl
  rw [hfill]
  exact hshift

/-- A count beyond the row blanks all of it from the column on. -/
theorem RowEdit.raw_insert_min (hcol : col < row.length) :
    (insert col (min count (row.length - col))).raw style row = (insert col count).raw style row := by
  have hlast : row.length - 1 - col + 1 = row.length - col := by omega
  rw [raw, raw, ← hlast, shiftDown_min (by omega)]

theorem RowEdit.raw_delete_min (hcol : col < row.length) :
    (delete col (min count (row.length - col))).raw style row = (delete col count).raw style row := by
  have hlast : row.length - 1 - col + 1 = row.length - col := by omega
  rw [raw, raw, ← hlast, shiftUp_min (by omega)]

end Loops

end ManInTheBox.Emulator
