import ManInTheBox.Emulator.LineEditing

/-! # Repairing any row

The pass over a row makes no use of what the cells hold: whatever the row is, all of its
wide characters are whole afterwards, and a row of which that is true is left alone.
-/

namespace ManInTheBox.Emulator

variable {width : UnicodeWidth} {row : Row}

theorem pairedUpTo_repairedUpTo (hspace : width ' ' = some 1) {n : ℕ} (hn : n ≤ row.length) :
    PairedUpTo width (repairedUpTo width row n) n := by
  induction n with
  | zero => exact .zero
  | succ n ih =>
    rw [repairedUpTo_succ]
    apply (ih (Nat.le_of_succ_le hn)).repairedAt hspace
    rwa [length_repairedUpTo]

theorem paired_repairedUpTo (hspace : width ' ' = some 1) (row : Row) :
    Paired width (repairedUpTo width row row.length) := by
  apply PairedUpTo.paired
  rw [length_repairedUpTo]
  exact pairedUpTo_repairedUpTo hspace le_rfl

/-- A row in which all characters are whole has nothing to repair. -/
theorem Paired.repairs (h : Paired width row) : Repairs width row row where
  length := rfl
  paired := h
  cell _ := .inl rfl

theorem Paired.repairedUpTo_eq (h : Paired width row) :
    repairedUpTo width row row.length = row := h.repairs.repairedUpTo_eq

/-- A second pass finds nothing to do. -/
theorem repairedUpTo_repairedUpTo (hspace : width ' ' = some 1) (row : Row) :
    repairedUpTo width (repairedUpTo width row row.length) row.length =
      repairedUpTo width row row.length := by
  have hagain := (paired_repairedUpTo hspace row).repairedUpTo_eq
  rwa [length_repairedUpTo] at hagain

namespace Terminal

variable {this : Terminal}

theorem sanitizeRow_eq_repaired (h : this.Sized) {n : ℕ} (hn : n < this.rows)
    (hrow : this.buffer[n]? = some row) :
    this.sanitizeRow width n =
      some (this.withBuffer (this.buffer.set n (repairedUpTo width row row.length))) := by
  have hlength : row.length = this.cols := h.row row (List.mem_of_getElem? hrow)
  rw [sanitizeRow, if_neg (not_le.mpr hn)]
  apply modifyRow_eq hrow
  rw [← hlength]
  exact sanitize_eq width row

theorem Sized.setRow (h : this.Sized) (n : ℕ) (hlength : row.length = this.cols) :
    (this.withBuffer (this.buffer.set n row)).Sized where
  rows_pos := h.rows_pos
  cols_pos := h.cols_pos
  length := by simp [withBuffer, h.length]
  row cells hcells := by
    rcases List.mem_or_eq_of_mem_set hcells with hold | rfl
    · exact h.row cells hold
    · exact hlength

/-- Whatever a row of the screen holds, the pass makes its wide characters whole, and it changes
neither a row in which they are whole nor a row that it has been over. -/
theorem sanitizeRow_repairs (hspace : width ' ' = some 1) (h : this.Sized) {n : ℕ}
    (hn : n < this.rows) (hrow : this.buffer[n]? = some row) :
    ∃ row', this.sanitizeRow width n = some (this.withBuffer (this.buffer.set n row')) ∧
      Paired width row' ∧ (Paired width row → row' = row) ∧
      (this.withBuffer (this.buffer.set n row')).sanitizeRow width n =
        some (this.withBuffer (this.buffer.set n row')) := by
  have hlt := (List.getElem?_eq_some_iff.mp hrow).1
  have hlength : row.length = this.cols := h.row row (List.mem_of_getElem? hrow)
  have hsized : (this.withBuffer (this.buffer.set n (repairedUpTo width row row.length))).Sized :=
    h.setRow n (by rw [length_repairedUpTo, hlength])
  refine ⟨_, sanitizeRow_eq_repaired h hn hrow, paired_repairedUpTo hspace row,
    fun hpaired => hpaired.repairedUpTo_eq, ?_⟩
  rw [sanitizeRow_eq_repaired hsized hn (List.getElem?_set_self hlt), length_repairedUpTo,
    repairedUpTo_repairedUpTo hspace]
  simp [withBuffer]

/-- A continuation at the left edge, and a wide character with nothing behind it. -/
def halves : Terminal :=
  { new 3 1 with
    buffer := [[Cell.continuation Style.default, ⟨['漢'], Style.default, false⟩, Cell.blank]] }

theorem sanitizeRow_halves :
    let width : UnicodeWidth := fun c => if c = '漢' then some 2 else some 1
    ∃ row', halves.sanitizeRow width 0 = some (halves.withBuffer [row']) ∧ Paired width row' := by
  intro width
  obtain ⟨row', hsanitize, hpaired, -, -⟩ :=
    @sanitizeRow_repairs width _ halves rfl
      ⟨by decide, by decide, by decide, by simp [halves, new]⟩ 0 (by decide) rfl
  exact ⟨row', hsanitize, hpaired⟩

end Terminal

end ManInTheBox.Emulator
