import ManInTheBox.Emulator.RowInvariant
import ManInTheBox.Emulator.ScreenCursor

/-! # The screen stays well formed

Every callback leaves a buffer of the right size whose wide characters are whole, and
moves the cursor as the machine without a screen does. No callback fails.
-/

namespace ManInTheBox.Emulator

open Library

structure BufferOk (width : UnicodeWidth) (cols rows : ℕ) (buffer : List Row) : Prop where
  length : buffer.length = rows
  row : ∀ row ∈ buffer, RowOk width cols row

namespace Terminal

/-- What is left of a terminal without its cells and its style. -/
def cursor (this : Terminal) : ScreenCursor where
  row := this.cursorRow
  col := this.cursorCol
  saved := this.savedCursor
  top := this.scrollTop
  bottom := this.scrollBottom
  cols := this.cols
  rows := this.rows
  alternate := this.alternateScreen
  main := this.savedMainScreen.map fun saved =>
    ⟨saved.cursorRow, saved.cursorCol, saved.savedCursor, saved.scrollTop, saved.scrollBottom⟩

/-- The buffer that is shown and the one that waits are well formed. -/
structure BuffersOk (width : UnicodeWidth) (this : Terminal) : Prop where
  shown : BufferOk width this.cols this.rows this.buffer
  saved : ∀ saved, this.savedMainScreen = some saved →
    BufferOk width this.cols this.rows saved.buffer

/-! ## Work on the buffer -/

variable {width : UnicodeWidth} {this next last : Terminal}

/-- Nothing but the buffer differs, and it is well formed. -/
def Redrawn (width : UnicodeWidth) (this next : Terminal) : Prop :=
  ∃ buffer, BufferOk width this.cols this.rows buffer ∧ next = this.withBuffer buffer

theorem Redrawn.refl (h : BufferOk width this.cols this.rows this.buffer) :
    Redrawn width this this := ⟨this.buffer, h, rfl⟩

theorem Redrawn.trans (h : Redrawn width this next) (h' : Redrawn width next last) :
    Redrawn width this last := by
  obtain ⟨buffer, -, rfl⟩ := h
  obtain ⟨buffer', hok, rfl⟩ := h'
  exact ⟨buffer', hok, rfl⟩

theorem Redrawn.bufferOk (h : Redrawn width this next) :
    BufferOk width next.cols next.rows next.buffer := by
  obtain ⟨buffer, hok, rfl⟩ := h
  exact hok

theorem Redrawn.rows_eq (h : Redrawn width this next) : next.rows = this.rows := by
  obtain ⟨buffer, -, rfl⟩ := h
  rfl

theorem Redrawn.cursor_eq (h : Redrawn width this next) : next.cursor = this.cursor := by
  obtain ⟨buffer, -, rfl⟩ := h
  rfl

theorem Redrawn.buffersOk (h : Redrawn width this next) (hok : BuffersOk width this) :
    BuffersOk width next := by
  obtain ⟨buffer, hbuffer, rfl⟩ := h
  exact ⟨hbuffer, hok.saved⟩

theorem setRow_yields (h : BufferOk width this.cols this.rows this.buffer) {row : ℕ}
    (hrow : row < this.rows) {cells : Row} (hcells : RowOk width this.cols cells) :
    Yields (this.setRow row cells) (Redrawn width this) := by
  have hlt : row < this.buffer.length := by simpa [h.length] using hrow
  have hbuffer : BufferOk width this.cols this.rows (this.buffer.set row cells) := by
    constructor
    · simpa using h.length
    · intro other hother
      rcases List.mem_or_eq_of_mem_set hother with hmem | rfl
      · exact h.row other hmem
      · exact hcells
  have hset : this.setRow row cells = some (this.withBuffer (this.buffer.set row cells)) := by
    simp [setRow, hlt]
  exact hset ▸ .pure ⟨_, hbuffer, rfl⟩

theorem BufferOk.getElem? {cols rows : ℕ} {buffer : List Row} (h : BufferOk width cols rows buffer)
    {row : ℕ} (hrow : row < rows) : ∃ cells, buffer[row]? = some cells ∧ RowOk width cols cells := by
  have hlt : row < buffer.length := by simpa [h.length] using hrow
  exact ⟨buffer[row], List.getElem?_eq_getElem hlt, h.row _ (List.getElem_mem hlt)⟩

theorem modifyRow_yields (h : BufferOk width this.cols this.rows this.buffer) {row : ℕ}
    (hrow : row < this.rows) {f : Row → Option Row}
    (hf : ∀ cells, this.buffer[row]? = some cells → RowOk width this.cols cells →
      Yields (f cells) (RowOk width this.cols)) :
    Yields (this.modifyRow row f) (Redrawn width this) := by
  obtain ⟨cells, hget, hcells⟩ := BufferOk.getElem? h hrow
  simp only [modifyRow, hget, Option.bind_eq_bind, Option.bind_some]
  exact (hf cells hget hcells).bind fun cells' hcells' => setRow_yields h hrow hcells'

theorem copyRow_yields (h : BufferOk width this.cols this.rows this.buffer) {source target : ℕ}
    (hsource : source < this.rows) (htarget : target < this.rows) :
    Yields (this.copyRow source target) (Redrawn width this) := by
  obtain ⟨cells, hget, hcells⟩ := BufferOk.getElem? h hsource
  simpa [copyRow, hget] using setRow_yields h htarget hcells

/-! ## Work on one row that is repaired at the end -/

/-- One row is being worked on: nothing but that row differs, and it has the right shape. -/
def Reshaped (width : UnicodeWidth) (row : ℕ) (this next : Terminal) : Prop :=
  ∃ cells, RowShape width this.cols cells ∧ next = this.withBuffer (this.buffer.set row cells)

theorem Reshaped.refl (h : BufferOk width this.cols this.rows this.buffer) {row : ℕ}
    (hrow : row < this.rows) : Reshaped width row this this := by
  obtain ⟨cells, hget, hcells⟩ := BufferOk.getElem? h hrow
  have hset : this.buffer.set row cells = this.buffer := by
    apply List.ext_getElem?
    intro i
    by_cases hi : i = row
    · have hlt := (List.getElem?_eq_some_iff.mp hget).1
      rw [hi, List.getElem?_set_self hlt, hget]
    · rw [List.getElem?_set_ne (Ne.symm hi)]
  exact ⟨cells, hcells.toRowShape, by rw [hset]; rfl⟩

theorem Reshaped.cols_eq {row : ℕ} (h : Reshaped width row this next) : next.cols = this.cols := by
  obtain ⟨cells, -, rfl⟩ := h
  rfl

theorem Reshaped.modifyRow {row : ℕ} (h : Reshaped width row this next)
    (hrow : row < this.buffer.length) {f : Row → Option Row}
    (hf : ∀ cells, RowShape width this.cols cells → Yields (f cells) (RowShape width this.cols)) :
    Yields (next.modifyRow row f) (Reshaped width row this) := by
  obtain ⟨cells, hcells, rfl⟩ := h
  have hget : (this.buffer.set row cells)[row]? = some cells := List.getElem?_set_self hrow
  simp only [Terminal.modifyRow, withBuffer, hget, Option.bind_eq_bind, Option.bind_some]
  apply (hf cells hcells).bind
  intro cells' hcells'
  refine ⟨this.withBuffer (this.buffer.set row cells'), ?_, cells', hcells', rfl⟩
  simp [setRow, hrow, withBuffer]

/-- The pass over the row repairs it. -/
theorem Reshaped.sanitizeRow (hspace : width ' ' = some 1) {row : ℕ}
    (h : Reshaped width row this next) (hok : BufferOk width this.cols this.rows this.buffer)
    (hrow : row < this.rows) : Yields (next.sanitizeRow width row) (Redrawn width this) := by
  obtain ⟨cells, hcells, rfl⟩ := h
  have hlt : row < this.buffer.length := by simpa [hok.length] using hrow
  have hnot : ¬ this.rows ≤ row := by omega
  have hget : (this.buffer.set row cells)[row]? = some cells := List.getElem?_set_self hlt
  obtain ⟨cells', hsanitized, hcells'⟩ := hcells.sanitize hspace
  have hset := setRow_yields hok hrow hcells'
  simpa [Terminal.sanitizeRow, Terminal.modifyRow, withBuffer, hnot, hget, hsanitized, setRow, hlt]
    using hset

/-! ## Scrolling -/

theorem checkedSub_of_le {a b : ℕ} (h : b ≤ a) : checkedSub a b = some (a - b) := by
  simp [checkedSub, h]

/-- A loop of which every round redraws. -/
theorem foldlM_redrawn {α : Type} {f : Terminal → α → Option Terminal} {l : List α}
    (h : BufferOk width this.cols this.rows this.buffer)
    (hf : ∀ next, ∀ a ∈ l, Redrawn width this next → Yields (f next a) (Redrawn width next)) :
    Yields (l.foldlM f this) (Redrawn width this) := by
  apply Yields.foldlM _ (Redrawn.refl h)
  intro next a ha hnext
  exact (hf next a ha hnext).mono fun last hlast => hnext.trans hlast

theorem repeated_yields (h : BufferOk width this.cols this.rows this.buffer) (count : ℕ)
    {f : Terminal → Option Terminal}
    (hf : ∀ next, Redrawn width this next → Yields (f next) (Redrawn width next)) :
    Yields (this.repeated count f) (Redrawn width this) :=
  foldlM_redrawn h fun next _ _ hnext => hf next hnext

section Scroll

variable (hspace : width ' ' = some 1) (h : BufferOk width this.cols this.rows this.buffer)
include hspace h

theorem blankRow_yields {row : ℕ} (hrow : row < this.rows) :
    Yields (this.setRow row (blankRow this.cols)) (Redrawn width this) :=
  setRow_yields h hrow (rowOk_blankRow hspace this.cols)

theorem blankRows_yields : Yields this.blankRows (Redrawn width this) := by
  apply foldlM_redrawn h
  intro next row hrow hnext
  have hlt : row < next.rows := by simpa [hnext.rows_eq] using hrow
  exact blankRow_yields hspace hnext.bufferOk hlt

theorem shiftRowsDown_yields {top bottom : ℕ} (htop : top ≤ bottom) (hbottom : bottom < this.rows) :
    Yields (this.shiftRowsDown top bottom) (Redrawn width this) := by
  have hloop := @foldlM_redrawn width this ℕ
    (fun (this : Terminal) idx => do
      let source ← checkedSub idx 1
      this.copyRow source idx) (List.range' (top + 1) (bottom - top)).reverse h
  apply (hloop ?_).bind
  · intro next hnext
    have hblank := blankRow_yields hspace hnext.bufferOk
      (by rw [hnext.rows_eq]; omega : top < next.rows)
    exact hblank.mono fun last hlast => hnext.trans hlast
  · intro next idx hidx hnext
    have hrange := List.mem_range'_1.mp (List.mem_reverse.mp hidx)
    have hrows := hnext.rows_eq
    simp only [checkedSub_of_le (by omega : 1 ≤ idx), Option.bind_eq_bind, Option.bind_some]
    exact copyRow_yields hnext.bufferOk (by omega) (by omega)

theorem shiftRowsUp_yields {top bottom : ℕ} (hbottom : bottom < this.rows) :
    Yields (this.shiftRowsUp top bottom) (Redrawn width this) := by
  have hloop := @foldlM_redrawn width this ℕ
    (fun (this : Terminal) idx => this.copyRow (idx + 1) idx) (List.range' top (bottom - top)) h
  apply (hloop ?_).bind
  · intro next hnext
    have hblank := blankRow_yields hspace hnext.bufferOk
      (by rw [hnext.rows_eq]; exact hbottom : bottom < next.rows)
    exact hblank.mono fun last hlast => hnext.trans hlast
  · intro next idx hidx hnext
    have hrange := List.mem_range'_1.mp hidx
    have hrows := hnext.rows_eq
    exact copyRow_yields hnext.bufferOk (by omega) (by omega)

theorem scrollUpRegion_yields (top bottom count : ℕ) :
    Yields (this.scrollUpRegion top bottom count) (Redrawn width this) := by
  unfold scrollUpRegion
  split
  · exact .pure (.refl h)
  · apply repeated_yields h
    intro next hnext
    have hrows := hnext.rows_eq
    exact shiftRowsUp_yields hspace hnext.bufferOk (by omega)

theorem scrollDownRegion_yields (top bottom count : ℕ) :
    Yields (this.scrollDownRegion top bottom count) (Redrawn width this) := by
  unfold scrollDownRegion
  split
  · exact .pure (.refl h)
  · apply repeated_yields h
    intro next hnext
    have hrows := hnext.rows_eq
    exact shiftRowsDown_yields hspace hnext.bufferOk (by omega) (by omega)

theorem insertLines_yields (hbottom : this.scrollBottom < this.rows) (count : ℕ) :
    Yields (this.insertLines count) (Redrawn width this) := by
  unfold insertLines
  simp only
  split
  · exact .pure (.refl h)
  · apply repeated_yields h
    intro next hnext
    have hrows := hnext.rows_eq
    exact shiftRowsDown_yields hspace hnext.bufferOk (by omega) (by omega)

theorem deleteLines_yields (hbottom : this.scrollBottom < this.rows) (count : ℕ) :
    Yields (this.deleteLines count) (Redrawn width this) := by
  unfold deleteLines
  simp only
  split
  · exact .pure (.refl h)
  · apply repeated_yields h
    intro next hnext
    have hrows := hnext.rows_eq
    exact shiftRowsUp_yields hspace hnext.bufferOk (by omega)

end Scroll

/-! ## Erasing -/

section Erase

variable (hspace : width ' ' = some 1) (h : BufferOk width this.cols this.rows this.buffer)
include hspace h

/-- Some cells of a row are blanked and the row is repaired. -/
theorem fill_sanitize_yields {row start stop : ℕ} (hrow : row < this.rows) (hstop : stop ≤ this.cols)
    (style : Style) :
    Yields (do
      let this ← this.modifyRow row (Row.fill start stop (Cell.blankWithStyle style))
      this.sanitizeRow width row) (Redrawn width this) := by
  have hlt : row < this.buffer.length := by simpa [h.length] using hrow
  apply ((Reshaped.refl h hrow).modifyRow hlt fun cells hcells =>
    hcells.fill hstop (cellOk_blankWithStyle hspace style)).bind
  intro next hnext
  exact hnext.sanitizeRow hspace h hrow

theorem clearRowRange_yields (row startCol endCol : ℕ) (style : Style) :
    Yields (this.clearRowRange width row startCol endCol style) (Redrawn width this) := by
  unfold clearRowRange
  split
  · exact .pure (.refl h)
  · simp only
    split
    · exact .pure (.refl h)
    · exact fill_sanitize_yields hspace h (by omega) (by omega) style

theorem clearWholeRows_yields (rows : List ℕ) (style : Style) :
    Yields (this.clearWholeRows width rows style) (Redrawn width this) := by
  apply foldlM_redrawn h
  intro next row _ hnext
  exact clearRowRange_yields hspace hnext.bufferOk row 0 next.cols style

theorem clearToEndOfScreen_yields (style : Style) :
    Yields (this.clearToEndOfScreen width style) (Redrawn width this) := by
  unfold clearToEndOfScreen
  apply (clearRowRange_yields hspace h _ _ _ style).bind
  intro next hnext
  exact (clearWholeRows_yields hspace hnext.bufferOk _ style).mono fun last hlast =>
    hnext.trans hlast

theorem clearToStartOfScreen_yields (style : Style) :
    Yields (this.clearToStartOfScreen width style) (Redrawn width this) := by
  unfold clearToStartOfScreen
  apply (clearWholeRows_yields hspace h _ style).bind
  intro next hnext
  exact (clearRowRange_yields hspace hnext.bufferOk _ _ _ style).mono fun last hlast =>
    hnext.trans hlast

/-- The cells from the cursor on move right. -/
theorem insertBlankChars_yields (hrows : 0 < this.rows) (count : ℕ) :
    Yields (this.insertBlankChars width count) (Redrawn width this) := by
  unfold insertBlankChars
  simp only
  have hrow : min this.cursorRow (this.rows - 1) < this.rows := by omega
  have hlt : min this.cursorRow (this.rows - 1) < this.buffer.length := by
    rw [h.length]
    exact hrow
  split
  · exact .pure (.refl h)
  · split
    · exact .pure (.refl h)
    · rw [checkedSub_of_le (by omega), Option.bind_eq_bind, Option.bind_some]
      apply ((Reshaped.refl h hrow).modifyRow hlt fun cells hcells =>
        hcells.copyRight (by omega)).bind
      intro next hnext
      apply (hnext.modifyRow hlt fun cells hcells =>
        hcells.fill (by omega) (cellOk_blankWithStyle hspace next.style)).bind
      intro last hlast
      exact hlast.sanitizeRow hspace h hrow

/-- The cells behind the cursor move left. -/
theorem deleteChars_yields (hrows : 0 < this.rows) (count : ℕ) :
    Yields (this.deleteChars width count) (Redrawn width this) := by
  unfold deleteChars
  simp only
  have hrow : min this.cursorRow (this.rows - 1) < this.rows := by omega
  have hlt : min this.cursorRow (this.rows - 1) < this.buffer.length := by
    rw [h.length]
    exact hrow
  split
  · exact .pure (.refl h)
  · split
    · exact .pure (.refl h)
    · rw [checkedSub_of_le (by omega), Option.bind_eq_bind, Option.bind_some]
      apply ((Reshaped.refl h hrow).modifyRow hlt fun cells hcells =>
        hcells.copyLeft (by omega)).bind
      intro next hnext
      apply (hnext.modifyRow hlt fun cells hcells =>
        hcells.fill hnext.cols_eq.le (cellOk_blankWithStyle hspace next.style)).bind
      intro last hlast
      exact hlast.sanitizeRow hspace h hrow

theorem eraseChars_yields (hrows : 0 < this.rows) (count : ℕ) :
    Yields (this.eraseChars width count) (Redrawn width this) := by
  unfold eraseChars
  simp only
  split
  · exact .pure (.refl h)
  · exact fill_sanitize_yields hspace h (by omega) (by omega) this.style

end Erase

/-! ## The cursor -/

/-- The buffers are well formed, and the cursor is as given. -/
structure At (width : UnicodeWidth) (cursor : ScreenCursor) (this : Terminal) : Prop where
  buffers : BuffersOk width this
  cursor : this.cursor = cursor

theorem Redrawn.at (h : Redrawn width this next) (hok : BuffersOk width this) :
    At width this.cursor next :=
  ⟨h.buffersOk hok, h.cursor_eq⟩

theorem setCursor_at (hok : BuffersOk width this) (row col : ℕ) :
    At width (this.cursor.moveTo row col) (this.setCursor row col) :=
  ⟨⟨hok.shown, hok.saved⟩, rfl⟩

theorem saveCursor_at (hok : BuffersOk width this) :
    At width this.cursor.save this.saveCursor :=
  ⟨⟨hok.shown, hok.saved⟩, rfl⟩

theorem setScrollRegion_at (hok : BuffersOk width this) (top bottom : ℕ) :
    At width (this.cursor.setScrollRegion top bottom) (this.setScrollRegion top bottom) := by
  by_cases hregion : top < bottom ∧ bottom < this.rows
  · have hregion' : top < bottom ∧ bottom < this.cursor.rows := hregion
    simp only [setScrollRegion, ScreenCursor.setScrollRegion, if_pos hregion, if_pos hregion']
    exact ⟨⟨hok.shown, hok.saved⟩, rfl⟩
  · have hregion' : ¬ (top < bottom ∧ bottom < this.cursor.rows) := hregion
    simp only [setScrollRegion, ScreenCursor.setScrollRegion, if_neg hregion, if_neg hregion']
    exact ⟨⟨hok.shown, hok.saved⟩, rfl⟩

section Cursor

variable (hspace : width ' ' = some 1) (hok : BuffersOk width this)
include hspace hok

theorem linefeed_yields : Yields this.linefeed (At width this.cursor.linefeed) := by
  have hscroll := fun top bottom => scrollUpRegion_yields hspace hok.shown top bottom 1
  by_cases hbottom : this.cursorRow = this.scrollBottom
  · have hcursor : this.cursor.linefeed = this.cursor := if_pos hbottom
    rw [linefeed, if_pos hbottom, hcursor]
    exact (hscroll _ _).mono fun next hnext => hnext.at hok
  · by_cases hlast : this.cursorRow < this.rows - 1
    · have hcursor : this.cursor.linefeed =
          this.cursor.moveTo (this.cursorRow + 1) this.cursorCol := by
        rw [ScreenCursor.linefeed, if_neg (by exact hbottom), if_pos (by exact hlast)]
        rfl
      rw [linefeed, if_neg hbottom, if_pos hlast, hcursor]
      exact .pure (setCursor_at hok _ _)
    · have hcursor : this.cursor.linefeed = this.cursor := by
        rw [ScreenCursor.linefeed, if_neg (by exact hbottom), if_neg (by exact hlast)]
      rw [linefeed, if_neg hbottom, if_neg hlast, hcursor]
      exact (hscroll _ _).mono fun next hnext => hnext.at hok

theorem reverseIndex_yields : Yields this.reverseIndex (At width this.cursor.reverseIndex) := by
  by_cases htop : this.cursorRow = this.scrollTop
  · have hcursor : this.cursor.reverseIndex = this.cursor := if_pos htop
    rw [reverseIndex, if_pos htop, hcursor]
    exact (scrollDownRegion_yields hspace hok.shown _ _ 1).mono fun next hnext => hnext.at hok
  · have hcursor : this.cursor.reverseIndex =
        this.cursor.moveTo (this.cursorRow - 1) this.cursorCol := if_neg htop
    rw [reverseIndex, if_neg htop, hcursor]
    by_cases hpos : 0 < this.cursorRow
    · rw [if_pos hpos, checkedSub_of_le (by omega)]
      exact .pure (setCursor_at hok _ _)
    · have hzero : this.cursorRow - 1 = this.cursorRow := by omega
      rw [if_neg hpos, hzero]
      exact .pure ⟨hok, rfl⟩

theorem wrap_yields : Yields this.wrap (At width this.cursor.wrap) := by
  by_cases hwrap : this.cols ≤ this.cursorCol
  · have hcursor : this.cursor.wrap = (this.cursor.moveTo this.cursorRow 0).linefeed := if_pos hwrap
    rw [wrap, if_pos hwrap, hcursor]
    exact linefeed_yields hspace (setCursor_at hok _ _).buffers
  · have hcursor : this.cursor.wrap = this.cursor := if_neg hwrap
    rw [wrap, if_neg hwrap, hcursor]
    exact .pure ⟨hok, rfl⟩

end Cursor

/-! ## Printing -/

/-- The column before the cursor holds a base character, if it is not left open. -/
theorem charBefore_yields (h : BufferOk width this.cols this.rows this.buffer)
    (hrow : this.cursorRow < this.rows) (hcol : this.cursorCol < this.cols) :
    Yields this.charBefore fun before => ∀ col, before = some col →
      ∃ cells cell, this.buffer[this.cursorRow]? = some cells ∧ cells[col]? = some cell ∧
        cell.wideContinuation = false := by
  obtain ⟨cells, hget, hcells⟩ := BufferOk.getElem? h hrow
  by_cases hpos : 0 < this.cursorCol
  · have hfound : ∀ col < this.cols, Yields
        (cells[col]?.bind fun cell => some (if cell.wideContinuation = true then none else some col))
        fun before => ∀ col, before = some col → ∃ cells' cell, some cells = some cells' ∧
          cells'[col]? = some cell ∧ cell.wideContinuation = false := by
      intro col hlt
      obtain ⟨cell, hcell, -⟩ := hcells.getElem? hlt
      rw [hcell, Option.bind_some]
      apply Yields.pure
      intro found heq
      by_cases hcont : cell.wideContinuation = true
      · simp [hcont] at heq
      · have hcol : col = found := by simpa [hcont] using heq
        exact ⟨cells, cell, rfl, hcol ▸ hcell, by simpa using hcont⟩
    rw [charBefore, if_pos hpos, hget, Option.bind_eq_bind, Option.bind_some]
    apply Yields.bind (P := fun col => col < this.cols) ⟨_, checkedSub_of_le hpos, by omega⟩
    intro col hlt
    obtain ⟨cell, hcell, -⟩ := hcells.getElem? hlt
    rw [hcell, Option.bind_eq_bind, Option.bind_some]
    by_cases hsecond : cell.wideContinuation = true ∧ 0 < col
    · simp only [hsecond, decide_true, Bool.and_true, if_true]
      apply Yields.bind (P := fun col => col < this.cols)
        ⟨_, checkedSub_of_le hsecond.2, by omega⟩ hfound
    · have hnot : (cell.wideContinuation && decide (0 < col)) = false := by simpa using hsecond
      simp only [hnot, Bool.false_eq_true, if_false]
      exact hfound col hlt
  · rw [charBefore, if_neg hpos]
    exact .pure (by simp)

theorem appendCombiningChar_yields {c : Char} (hc : charWidth width c = 0)
    (h : BufferOk width this.cols this.rows this.buffer)
    (hrow : this.cursorRow < this.rows) (hcol : this.cursorCol < this.cols)
    (hclamp : this.clampCursor = this) :
    Yields (this.appendCombiningChar c) (Redrawn width this) := by
  rw [appendCombiningChar, hclamp]
  apply (charBefore_yields h hrow hcol).bind
  intro before hbefore
  cases before with
  | some col =>
    obtain ⟨cells, cell, hget, hcell, hcont⟩ := hbefore col rfl
    apply modifyRow_yields h hrow
    intro cells' hget' hcells'
    obtain rfl := Option.some.inj (hget.symm.trans hget')
    exact hcells'.pushText hc hcell hcont
  | none =>
    by_cases hpos : 0 < this.cursorRow
    · have hprev : this.cursorRow - 1 < this.rows := by omega
      obtain ⟨cells, hget, hcells⟩ := BufferOk.getElem? h hprev
      simp only [if_pos hpos, checkedSub_of_le (by omega : 1 ≤ this.cursorRow), hget,
        Option.bind_eq_bind, Option.bind_some]
      apply (hcells.lastBase le_rfl).bind
      intro last hlast
      cases last with
      | none => exact .pure (.refl h)
      | some col =>
        obtain ⟨cell, hcell, hcont⟩ := hlast col rfl
        apply modifyRow_yields h hprev
        intro cells' hget' hcells'
        obtain rfl := Option.some.inj (hget.symm.trans hget')
        exact hcells'.pushText hc hcell hcont
    · simp only [if_neg hpos]
      exact .pure (.refl h)

theorem clampCursor_eq {cols rows : ℕ} (hin : this.cursor.Inside cols rows) :
    this.clampCursor = this := by
  have hrow : this.cursor.clamp.row = this.cursor.row := by rw [hin.clamp_eq]
  have hcol : this.cursor.clamp.col = this.cursor.col := by rw [hin.clamp_eq]
  have hrow' : min this.cursorRow (this.rows - 1) = this.cursorRow := hrow
  have hcol' : min this.cursorCol (this.cols - 1) = this.cursorCol := hcol
  rw [clampCursor, hrow', hcol']
  rfl

theorem makeRoom_yields (hspace : width ' ' = some 1) (hok : BuffersOk width this) (c : Char) :
    Yields (this.makeRoom width c) (At width (this.cursor.makeRoom (charWidth width c))) := by
  by_cases hlast : charWidth width c = 2 ∧ this.cursorCol = this.cols - 1
  · have hcursor : this.cursor.makeRoom (charWidth width c) =
        (this.cursor.moveTo this.cursorRow 0).linefeed := if_pos hlast
    rw [makeRoom, if_pos hlast, hcursor]
    exact linefeed_yields hspace (setCursor_at hok _ _).buffers
  · have hcursor : this.cursor.makeRoom (charWidth width c) = this.cursor := if_neg hlast
    rw [makeRoom, if_neg hlast, hcursor]
    exact .pure ⟨hok, rfl⟩

theorem putChar_yields (hspace : width ' ' = some 1) (hok : BuffersOk width this) {cols rows : ℕ}
    (hin : this.cursor.Inside cols rows) {c : Char} (hfits : charWidth width c ≤ cols) :
    Yields (this.putChar width c) (At width (this.cursor.putChar (charWidth width c))) := by
  have hclamp := clampCursor_eq hin
  have hrow : this.cursorRow < this.rows := hin.row_lt.trans_eq hin.rows_eq.symm
  have hcol : this.cursorCol < this.cols := hin.col_lt.trans_eq hin.cols_eq.symm
  by_cases hc : charWidth width c = 0
  · have hcursor : this.cursor.putChar (charWidth width c) = this.cursor := by
      rw [ScreenCursor.putChar, if_pos hc, hin.clamp_eq]
    rw [putChar, if_pos hc, hcursor]
    have happend := appendCombiningChar_yields hc hok.shown hrow hcol hclamp
    exact happend.mono fun next hnext => hnext.at hok
  · have hcursor : this.cursor.putChar (charWidth width c) =
        (this.cursor.makeRoom (charWidth width c)).advance (charWidth width c) := by
      rw [ScreenCursor.putChar, if_neg hc, hin.clamp_eq, hin.wrap_eq]
    have hwrap : this.wrap = some this := if_neg (by omega)
    rw [putChar, if_neg hc, hclamp, hwrap, hcursor, Option.bind_eq_bind, Option.bind_some]
    -- After room is made the character fits, wide or not.
    obtain ⟨hinside, hroom⟩ := hin.makeRoom hfits
    apply (makeRoom_yields hspace hok c).bind
    intro next hnext
    have hrow' : next.cursorRow < next.rows := by
      have hlt := hinside.row_lt.trans_eq hinside.rows_eq.symm
      rwa [← hnext.cursor] at hlt
    have hfit : next.cursorCol + charWidth width c ≤ next.cols := by
      have hlt := hinside.col_lt
      have heq := hinside.cols_eq
      have hle := charWidth_le width c
      rw [← hnext.cursor] at hlt heq hroom
      simp only [cursor] at hlt heq hroom
      omega
    apply (modifyRow_yields hnext.buffers.shown hrow' fun cells _ hcells =>
      hcells.writeChar hspace hc hfit next.style).bind
    intro last hlast
    have hlast' := hlast.at hnext.buffers
    have hadvance := wrap_yields hspace
      (setCursor_at hlast'.buffers last.cursorRow (last.cursorCol + charWidth width c)).buffers
    have hpast : (last.setCursor last.cursorRow (last.cursorCol + charWidth width c)).cursor.wrap =
        (this.cursor.makeRoom (charWidth width c)).advance (charWidth width c) := by
      rw [← hnext.cursor, ← hlast'.cursor]
      rfl
    exact hpast ▸ hadvance

/-! ## The two screens -/

theorem enterAlternateScreen_yields (hspace : width ' ' = some 1) (hok : BuffersOk width this) :
    Yields this.enterAlternateScreen (At width this.cursor.enterAlternate) := by
  by_cases halternate : this.alternateScreen = true
  · have hcursor : this.cursor.enterAlternate = this.cursor := if_pos halternate
    rw [enterAlternateScreen, if_pos halternate, hcursor]
    exact .pure ⟨hok, rfl⟩
  · have hcursor : this.cursor.enterAlternate =
        { this.cursor.home with main := some this.cursor.toPosition, alternate := true } :=
      if_neg halternate
    rw [enterAlternateScreen, if_neg halternate, hcursor]
    apply (blankRows_yields hspace (by exact hok.shown)).bind
    rintro next ⟨buffer, hbuffer, rfl⟩
    apply Yields.pure
    refine ⟨⟨hbuffer, ?_⟩, rfl⟩
    intro saved hsaved
    obtain rfl := Option.some.inj hsaved
    exact hok.shown

theorem leaveAlternateScreen_at (hok : BuffersOk width this) :
    At width this.cursor.leaveAlternate this.leaveAlternateScreen := by
  by_cases halternate : this.alternateScreen = true
  · cases hsaved : this.savedMainScreen with
    | none =>
      have hcursor : this.cursor.leaveAlternate = { this.cursor with alternate := false } := by
        simp [ScreenCursor.leaveAlternate, cursor, halternate, hsaved]
      have hleft : this.leaveAlternateScreen = { this with alternateScreen := false } := by
        simp [leaveAlternateScreen, halternate, hsaved]
      rw [hcursor, hleft]
      exact ⟨⟨hok.shown, hok.saved⟩, rfl⟩
    | some saved =>
      have hcursor : this.cursor.leaveAlternate =
          { this.cursor.returnTo ⟨saved.cursorRow, saved.cursorCol, saved.savedCursor,
              saved.scrollTop, saved.scrollBottom⟩ with alternate := false } := by
        simp [ScreenCursor.leaveAlternate, cursor, halternate, hsaved]
      have hleft : this.leaveAlternateScreen =
          { this.restore saved with alternateScreen := false } := by
        simp [leaveAlternateScreen, halternate, hsaved]
      rw [hcursor, hleft]
      exact ⟨⟨hok.saved saved hsaved, by simp [restore]⟩, rfl⟩
  · have hcursor : this.cursor.leaveAlternate = this.cursor := by
      simp [ScreenCursor.leaveAlternate, cursor, halternate]
    have hleft : this.leaveAlternateScreen = this := by
      simp [leaveAlternateScreen, halternate]
    rw [hcursor, hleft]
    exact ⟨hok, rfl⟩

theorem handlePrivateMode_yields (hspace : width ' ' = some 1) (hok : BuffersOk width this)
    (mode : UInt16) (set : Bool) :
    Yields (this.handlePrivateMode mode set) (At width (this.cursor.privateMode mode set)) := by
  unfold handlePrivateMode ScreenCursor.privateMode
  split
  · split
    · exact enterAlternateScreen_yields hspace hok
    · exact .pure (leaveAlternateScreen_at hok)
  · exact .pure ⟨hok, rfl⟩

theorem resetTerminal_yields (hspace : width ' ' = some 1) (hok : BuffersOk width this) :
    Yields this.resetTerminal (At width this.cursor.home) := by
  unfold resetTerminal
  apply (blankRows_yields hspace (by exact hok.shown)).mono
  rintro next ⟨buffer, hbuffer, rfl⟩
  exact ⟨⟨hbuffer, hok.saved⟩, rfl⟩

/-! ## Every callback -/

section Perform

variable (hspace : width ' ' = some 1) (hok : BuffersOk width this) {cols rows : ℕ}
  (hin : this.cursor.Inside cols rows)
include hspace hok

theorem execute_yields (byte : UInt8) :
    Yields (this.execute byte) (At width (this.cursor.execute byte)) := by
  unfold execute
  split
  · exact linefeed_yields hspace hok
  · exact .pure (setCursor_at hok _ _)
  · exact .pure (setCursor_at hok _ _)
  · by_cases hpos : 0 < this.cursorCol
    · rw [if_pos hpos, checkedSub_of_le hpos, Option.bind_eq_bind, Option.bind_some]
      exact .pure (setCursor_at hok _ _)
    · have hzero : this.cursorCol - 1 = this.cursorCol := by omega
      have hcursor : this.cursor.execute 0x08 = this.cursor := by
        have hback : this.cursor.moveTo this.cursorRow (this.cursorCol - 1) = this.cursor := by
          rw [hzero]
          rfl
        exact hback
      rw [if_neg hpos, hcursor]
      exact .pure ⟨hok, rfl⟩
  · have hcursor : this.cursor.execute byte = this.cursor := by
      unfold ScreenCursor.execute
      split <;> first | contradiction | rfl
    rw [hcursor]
    exact .pure ⟨hok, rfl⟩

theorem privateModes_yields (modes : List UInt16) (set : Bool) :
    Yields (modes.foldlM (fun (this : Terminal) mode => this.handlePrivateMode mode set) this)
      (At width (modes.foldl (fun cursor mode => cursor.privateMode mode set) this.cursor)) := by
  induction modes generalizing this with
  | nil => exact .pure ⟨hok, rfl⟩
  | cons mode modes ih =>
    rw [List.foldlM_cons, List.foldl_cons]
    apply (handlePrivateMode_yields hspace hok mode set).bind
    intro next hnext
    have hrest := ih hnext.buffers
    rwa [hnext.cursor] at hrest

omit hspace in
/-- The sequences that only draw leave the cursor alone. -/
theorem draw_yields {x : Option Terminal} (h : Yields x (Redrawn width this)) :
    Yields x (At width this.cursor) :=
  h.mono fun _ hnext => hnext.at hok

include hin

theorem csiDispatch_yields (params : Params) (intermediates : List UInt8) (action : Char) :
    Yields (this.csiDispatch width params intermediates action)
      (At width (this.cursor.csiDispatch params intermediates action)) := by
  have hrows : 0 < this.rows := Nat.zero_lt_of_lt (hin.row_lt.trans_eq hin.rows_eq.symm)
  have hbottom : this.scrollBottom < this.rows := hin.bottom_lt.trans_eq hin.rows_eq.symm
  have hshown := hok.shown
  unfold csiDispatch
  split
  case h_11 => exact .pure ⟨⟨hok.shown, hok.saved⟩, rfl⟩
  case h_12 =>
    apply draw_yields hok
    split
    · exact clearToEndOfScreen_yields hspace hshown _
    · exact clearToStartOfScreen_yields hspace hshown _
    · exact clearWholeRows_yields hspace hshown _ _
    · exact clearWholeRows_yields hspace hshown _ _
    · exact .pure (.refl hshown)
  case h_13 =>
    apply draw_yields hok
    simp only
    split
    · exact clearRowRange_yields hspace hshown _ _ _ _
    · exact clearRowRange_yields hspace hshown _ _ _ _
    · exact clearRowRange_yields hspace hshown _ _ _ _
    · exact .pure (.refl hshown)
  case h_14 => exact draw_yields hok (insertBlankChars_yields hspace hshown hrows _)
  case h_15 => exact draw_yields hok (deleteChars_yields hspace hshown hrows _)
  case h_16 => exact draw_yields hok (eraseChars_yields hspace hshown hrows _)
  case h_17 => exact draw_yields hok (insertLines_yields hspace hshown hbottom _)
  case h_18 => exact draw_yields hok (deleteLines_yields hspace hshown hbottom _)
  case h_19 => exact draw_yields hok (scrollUpRegion_yields hspace hshown _ _ _)
  case h_20 => exact draw_yields hok (scrollDownRegion_yields hspace hshown _ _ _)
  case h_21 => exact .pure (setScrollRegion_at hok _ _)
  case h_22 => exact .pure (saveCursor_at hok)
  case h_23 => exact .pure (setCursor_at hok _ _)
  case h_24 | h_25 =>
    unfold ScreenCursor.csiDispatch
    split
    · exact privateModes_yields hspace hok _ _
    · exact .pure ⟨hok, rfl⟩
  case h_26 =>
    have hcursor : this.cursor.csiDispatch params intermediates action = this.cursor := by
      unfold ScreenCursor.csiDispatch
      split <;> first | contradiction | rfl
    rw [hcursor]
    exact .pure ⟨hok, rfl⟩
  all_goals exact .pure (setCursor_at hok _ _)

omit hin in
theorem escDispatch_yields (intermediates : List UInt8) (byte : UInt8) :
    Yields (this.escDispatch intermediates byte)
      (At width (this.cursor.escDispatch intermediates byte)) := by
  unfold escDispatch
  split
  · exact .pure (saveCursor_at hok)
  · exact .pure (setCursor_at hok _ _)
  · exact linefeed_yields hspace hok
  · apply (linefeed_yields hspace hok).bind
    intro next hnext
    have hmoved := setCursor_at hnext.buffers next.cursorRow 0
    have hnel : this.cursor.escDispatch [] 0x45 =
        this.cursor.linefeed.moveTo this.cursor.linefeed.row 0 := rfl
    have hcursor : next.cursor.moveTo next.cursorRow 0 = this.cursor.escDispatch [] 0x45 := by
      rw [hnel, ← hnext.cursor]
      rfl
    exact .pure (hcursor ▸ hmoved)
  · exact reverseIndex_yields hspace hok
  · exact resetTerminal_yields hspace hok
  · have hcursor : this.cursor.escDispatch intermediates byte = this.cursor := by
      unfold ScreenCursor.escDispatch
      split <;> first | contradiction | rfl
    rw [hcursor]
    exact .pure ⟨hok, rfl⟩

theorem perform_yields {callback : Callback} (hfits : callback.Fits width cols) :
    Yields (this.perform width callback) (At width (this.cursor.perform width callback)) := by
  cases callback with
  | print c => exact putChar_yields hspace hok hin hfits
  | execute byte => exact execute_yields hspace hok byte
  | csiDispatch params intermediates ignore action =>
    exact csiDispatch_yields hspace hok hin params intermediates action
  | escDispatch intermediates ignore byte => exact escDispatch_yields hspace hok intermediates byte
  | hook | put | unhook | oscDispatch => exact .pure ⟨hok, rfl⟩

/-- A whole run: the buffers stay well formed and the cursor goes where the machine without a
screen takes it. -/
theorem feed_yields {callbacks : List Callback}
    (hfits : ∀ callback ∈ callbacks, callback.Fits width cols) :
    Yields (this.feed width callbacks) (At width (callbacks.foldl (·.perform width ·) this.cursor)) := by
  induction callbacks generalizing this with
  | nil => exact .pure ⟨hok, rfl⟩
  | cons callback callbacks ih =>
    rw [feed, List.foldlM_cons, List.foldl_cons]
    have hfirst := hfits callback (List.mem_cons_self ..)
    apply (perform_yields hspace hok hin hfirst).bind
    intro next hnext
    have hin' : next.cursor.Inside cols rows := by
      rw [hnext.cursor]
      exact hin.perform hfirst
    have hrest := ih hnext.buffers hin' fun other hother => hfits other (List.mem_cons_of_mem _ hother)
    rwa [hnext.cursor] at hrest

end Perform

end Terminal

end ManInTheBox.Emulator
