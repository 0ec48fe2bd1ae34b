import ManInTheBox.Emulator.Scrolling

/-! # Printing at an address

A narrow character that is printed at an address takes the cell there, and blanks the
other half of a wide character it falls on. In the last column the line is fed at once:
in the last row of the scroll region, the rows of the region move up.
-/

namespace ManInTheBox.Emulator

open Library

variable {width : UnicodeWidth}

/-! ## The cells of the row -/

/-- The column of the other half, if the cell at a column is half of a wide character. -/
def otherHalf (width : UnicodeWidth) (row : Row) (col : ℕ) : Option ℕ :=
  if contAt row col then some (col - 1)
  else if leadAt width row col then some (col + 1)
  else none

theorem Row.writeChar_narrow {cols col : ℕ} {row : Row} (hlen : row.length = cols)
    (hcol : col < cols) {c : Char} (hc : charWidth width c = 1) (style : Style)
    (hlen' : (cleared width row col).length = cols) :
    Row.writeChar width cols style c col row =
      some ((cleared width row col).set col ⟨[c], style, false⟩) := by
  have hclear := @clearOverlappedCell_eq width cols row col hlen hcol
  have hset : Row.setCell col ⟨[c], style, false⟩ (cleared width row col) = _ :=
    Row.setCell_eq (by omega)
  simp [Row.writeChar, hclear, hset, hc]

/-- What has become of the cells of a row. -/
theorem getElem?_set_cleared {cols col : ℕ} {row : Row} (h : RowOk width cols row)
    (hcol : col < cols) (cell : Cell) (i : ℕ) :
    ((cleared width row col).set col cell)[i]? =
      if i = col then some cell
      else if otherHalf width row col = some i then some Cell.blank
      else row[i]? := by
  have hlt : col < row.length := by simpa [h.length] using hcol
  have hat := h.paired col
  by_cases hcont : contAt row col = true
  · rw [hcont] at hat
    cases col with
    | zero => cases hat
    | succ j =>
      have hclear : cleared width row (j + 1) = (row.set j Cell.blank).set (j + 1) Cell.blank := by
        simp [cleared, hcont, ← hat]
      have hother : otherHalf width row (j + 1) = some j := by simp [otherHalf, hcont]
      rw [hclear, hother, List.set_set]
      simp only [List.getElem?_set, List.length_set, Option.some.injEq]
      grind
  · by_cases hlead : leadAt width row col = true
    · obtain ⟨hnext, hlt'⟩ := h.paired.contAt_succ hlead
      have hclear : cleared width row col = (row.set col Cell.blank).set (col + 1) Cell.blank := by
        simp [cleared, hcont, hlead, hnext]
      have hother : otherHalf width row col = some (col + 1) := by simp [otherHalf, hcont, hlead]
      rw [hclear, hother]
      simp only [List.getElem?_set, List.length_set, Option.some.injEq]
      grind
    · have hclear : cleared width row col = row.set col Cell.blank := by
        simp [cleared, hcont, hlead]
      have hother : otherHalf width row col = none := by simp [otherHalf, hcont, hlead]
      rw [hclear, hother, List.set_set]
      simp only [List.getElem?_set, reduceCtorEq]
      grind

/-! ## Scrolling up -/

/-- The row `top` is gone, and a blank row has come in at `bottom`. -/
def scrolledUp (cols top bottom : ℕ) (buffer : List Row) : List Row :=
  (buffer.eraseIdx top).insertIdx bottom (blankRow cols)

theorem shiftUp_one {cols top bottom : ℕ} {buffer : List Row} (htop : top ≤ bottom)
    (hbottom : bottom < buffer.length) :
    shiftUp (blankRow cols) top bottom 1 buffer = scrolledUp cols top bottom buffer := by
  apply List.ext_getElem?
  intro i
  rw [scrolledUp, getElem?_shiftUp hbottom, List.getElem?_insertIdx, List.getElem?_eraseIdx,
    List.length_eraseIdx_of_lt (by omega)]
  grind

namespace Terminal

variable {this : Terminal}

theorem scrollUpRegion_one {top bottom : ℕ} (htop : top ≤ bottom) (hbottom : bottom < this.rows)
    (hlength : this.buffer.length = this.rows) :
    this.scrollUpRegion top bottom 1 =
      some (this.withBuffer (scrolledUp this.cols top bottom this.buffer)) := by
  rw [scrollUpRegion_eq hlength htop hbottom, shiftUp_one htop (by omega)]

/-- The buffer after a line feed. -/
theorem linefeed_eq {cols rows : ℕ} (hin : this.cursor.Inside cols rows)
    (hlength : this.buffer.length = this.rows) :
    ∃ next, this.linefeed = some next ∧ next.buffer =
      if this.cursorRow = this.scrollBottom then
        scrolledUp this.cols this.scrollTop this.scrollBottom this.buffer
      else if this.cursorRow + 1 = this.rows then scrolledUp this.cols 0 this.cursorRow this.buffer
      else this.buffer := by
  have hrow : this.cursorRow < this.rows := hin.row_lt.trans_eq hin.rows_eq.symm
  have htop : this.scrollTop ≤ this.scrollBottom := hin.top_le
  have hbottom : this.scrollBottom < this.rows := hin.bottom_lt.trans_eq hin.rows_eq.symm
  rw [linefeed]
  by_cases hregion : this.cursorRow = this.scrollBottom
  · rw [if_pos hregion, if_pos hregion, scrollUpRegion_one htop hbottom hlength]
    exact ⟨_, rfl, rfl⟩
  · rw [if_neg hregion, if_neg hregion]
    by_cases hlast : this.cursorRow + 1 = this.rows
    · have hrow' : this.rows - 1 = this.cursorRow := by omega
      rw [if_neg (by omega), if_pos hlast, hrow', scrollUpRegion_one (by omega) hrow hlength]
      exact ⟨_, rfl, rfl⟩
    · rw [if_pos (by omega), if_neg hlast]
      exact ⟨_, rfl, rfl⟩

end Terminal

/-! ## The cells of the screen -/

def cellAt (buffer : List Row) (r c : ℕ) : Option Cell := buffer[r]?.bind (·[c]?)

/-- The cells once a character is drawn at an address, in the current style. -/
def drawnCell (width : UnicodeWidth) (this : Terminal) (r c : ℕ) (x : Char) (r' c' : ℕ) :
    Option Cell :=
  if r' = r ∧ c' = c then some ⟨[x], this.style, false⟩
  else if r' = r ∧ (this.buffer[r]?.bind (otherHalf width · c)) = some c' then some Cell.blank
  else cellAt this.buffer r' c'

/-- The row of an address, with the character drawn. -/
theorem cellAt_set_drawn {cols rows : ℕ} {this : Terminal}
    (h : BufferOk width cols rows this.buffer) {r c : ℕ} (hr : r < rows) (hc : c < cols) {row : Row}
    (hrow : this.buffer[r]? = some row) (x : Char) (r' c' : ℕ) :
    cellAt (this.buffer.set r ((cleared width row c).set c ⟨[x], this.style, false⟩)) r' c' =
      drawnCell width this r c x r' c' := by
  have hlt : r < this.buffer.length := by simpa [h.length] using hr
  have hok := h.row row (List.mem_of_getElem? hrow)
  rw [drawnCell, cellAt, hrow, Option.bind_some]
  by_cases hr' : r' = r
  · rw [hr', List.getElem?_set_self hlt, Option.bind_some, getElem?_set_cleared hok hc, cellAt, hrow]
    simp
  · rw [List.getElem?_set_ne (Ne.symm hr'), cellAt]
    simp [hr']

namespace Terminal

variable {this : Terminal}

theorem moveTo_eq {r c : ℕ} (hr : r < this.rows) (hc : c < this.cols) {row col : UInt16}
    (hrow : row.toNat = r + 1) (hcol : col.toNat = c + 1) :
    this.csiDispatch width [[row], [col]] [] 'H' = some (this.setCursor r c) := by
  have hne {value : UInt16} {n : ℕ} (h : value.toNat = n + 1) : value ≠ 0 := by
    rintro rfl
    cases h
  have hrow' : paramAt [[row], [col]] 0 1 = r + 1 :=
    (paramAt_of_ne_zero rfl (hne hrow)).trans hrow
  have hcol' : paramAt [[row], [col]] 1 1 = c + 1 :=
    (paramAt_of_ne_zero rfl (hne hcol)).trans hcol
  have hr' : min (r + 1 - 1) (this.rows - 1) = r := by omega
  have hc' : min (c + 1 - 1) (this.cols - 1) = c := by omega
  simp only [csiDispatch, hrow', hcol', hr', hc']

/-- The buffer once it is redrawn and the cursor has gone on by one column. -/
theorem advance_eq {cols rows : ℕ} (hin : this.cursor.Inside cols rows) {buffer : List Row}
    (hlength : buffer.length = this.rows) :
    ∃ next, ((this.withBuffer buffer).setCursor this.cursorRow (this.cursorCol + 1)).wrap =
        some next ∧ next.buffer =
      if this.cursorCol + 1 < this.cols then buffer
      else if this.cursorRow = this.scrollBottom then
        scrolledUp this.cols this.scrollTop this.scrollBottom buffer
      else if this.cursorRow + 1 = this.rows then scrolledUp this.cols 0 this.cursorRow buffer
      else buffer := by
  by_cases hlast : this.cursorCol + 1 < this.cols
  · rw [if_pos hlast]
    exact ⟨_, if_neg (not_le.mpr hlast), rfl⟩
  · have hin' : ((this.withBuffer buffer).setCursor this.cursorRow 0).cursor.Inside cols rows :=
      hin.moveTo hin.row_lt (Nat.zero_lt_of_lt hin.col_lt)
    obtain ⟨next, hline, hbuffer⟩ := linefeed_eq hin' hlength
    rw [if_neg hlast]
    exact ⟨next, (if_pos (not_lt.mp hlast)).trans hline, hbuffer⟩

/-- A narrow character is drawn at the cursor, and then the cursor goes on. -/
theorem putChar_narrow (hspace : width ' ' = some 1) (hok : BuffersOk width this) {cols rows : ℕ}
    (hin : this.cursor.Inside cols rows) {cells : Row}
    (hcells : this.buffer[this.cursorRow]? = some cells) {x : Char} (hx : charWidth width x = 1) :
    this.putChar width x =
      ((this.withBuffer (this.buffer.set this.cursorRow
        ((cleared width cells this.cursorCol).set this.cursorCol ⟨[x], this.style, false⟩))).setCursor
        this.cursorRow (this.cursorCol + 1)).wrap := by
  have hcol : this.cursorCol < this.cols := hin.col_lt.trans_eq hin.cols_eq.symm
  have hlt := (List.getElem?_eq_some_iff.mp hcells).1
  have hcellsOk := hok.shown.row cells (List.mem_of_getElem? hcells)
  have hwrite := Row.writeChar_narrow hcellsOk.length hcol hx this.style
    (cleared_shape hspace hcellsOk.toRowShape).length
  have hwrap : this.wrap = some this := if_neg (by omega)
  have hmake : this.makeRoom width x = some this := if_neg (by omega)
  rw [putChar, if_neg (by omega), clampCursor_eq hin, hwrap, Option.bind_eq_bind, Option.bind_some,
    hmake, Option.bind_some]
  simp only [modifyRow, hcells, hwrite, setRow, if_pos hlt, hx, Option.bind_eq_bind,
    Option.bind_some]
  rfl

/-- The cells and the buffer once a narrow character is printed at the cursor. -/
theorem putChar_eq (hspace : width ' ' = some 1) (hok : BuffersOk width this) {cols rows : ℕ}
    (hin : this.cursor.Inside cols rows) {x : Char} (hx : charWidth width x = 1) :
    ∃ next drawn, this.putChar width x = some next ∧
      (∀ r c, cellAt drawn r c = drawnCell width this this.cursorRow this.cursorCol x r c) ∧
      next.buffer =
        if this.cursorCol + 1 < this.cols then drawn
        else if this.cursorRow = this.scrollBottom then
          scrolledUp this.cols this.scrollTop this.scrollBottom drawn
        else if this.cursorRow + 1 = this.rows then scrolledUp this.cols 0 this.cursorRow drawn
        else drawn := by
  have hrow : this.cursorRow < this.rows := hin.row_lt.trans_eq hin.rows_eq.symm
  have hcol : this.cursorCol < this.cols := hin.col_lt.trans_eq hin.cols_eq.symm
  obtain ⟨cells, hcells, -⟩ := BufferOk.getElem? hok.shown hrow
  have hlength : (this.buffer.set this.cursorRow ((cleared width cells this.cursorCol).set
      this.cursorCol ⟨[x], this.style, false⟩)).length = this.rows := by
    rw [List.length_set]
    exact hok.shown.length
  obtain ⟨next, hadvance, hbuffer⟩ := advance_eq hin hlength
  exact ⟨next, _, (putChar_narrow hspace hok hin hcells hx).trans hadvance,
    cellAt_set_drawn hok.shown hrow hcol hcells x, hbuffer⟩

end Terminal

/-- On every screen that can be reached, a narrow character printed at an address takes the cell there
and blanks the other half of a character it cuts. Nothing else changes, unless the last column is
printed to in the last row of the scroll region, whose rows then move up. Nothing is said about the
last column of the last row of the screen where the region ends above it. -/
theorem addressed_print (width : UnicodeWidth) (hspace : width ' ' = some 1) {cols rows : ℕ}
    {callbacks : List Callback} {this : Terminal}
    (hreached : (Terminal.new cols rows).feed width callbacks = some this) {r c : ℕ}
    (hr : r < this.rows) (hc : c < this.cols) {row col : UInt16} (hrow : row.toNat = r + 1)
    (hcol : col.toNat = c + 1) (ignore : Bool) {x : Char} (hx : charWidth width x = 1)
    (hedge : c + 1 < this.cols ∨ r + 1 < this.rows ∨ r = this.scrollBottom) :
    ∃ next drawn,
      this.feed width [.csiDispatch [[row], [col]] [] ignore 'H', .print x] = some next ∧
      (∀ r' c', cellAt drawn r' c' = drawnCell width this r c x r' c') ∧
      next.buffer =
        if c + 1 < this.cols then drawn
        else if r = this.scrollBottom then
          scrolledUp this.cols this.scrollTop this.scrollBottom drawn
        else drawn := by
  obtain ⟨hok, hin⟩ := Terminal.ok_of_feed_new hspace hreached
  have hmoved := @Terminal.moveTo_eq width this r c hr hc row col hrow hcol
  have hin' : (this.setCursor r c).cursor.Inside (max cols 1) (max rows 1) :=
    hin.moveTo (hr.trans_eq hin.rows_eq) (hc.trans_eq hin.cols_eq)
  have hok' : (this.setCursor r c).BuffersOk width := ⟨hok.shown, hok.saved⟩
  obtain ⟨next, drawn, hprint, hcells, hbuffer⟩ := Terminal.putChar_eq hspace hok' hin' hx
  have hfeed : this.feed width [.csiDispatch [[row], [col]] [] ignore 'H', .print x] =
      (this.setCursor r c).putChar width x := by
    simp [Terminal.feed, Terminal.perform, hmoved]
  refine ⟨next, drawn, hfeed.trans hprint, hcells, hbuffer.trans ?_⟩
  change (if c + 1 < this.cols then drawn
    else if r = this.scrollBottom then
      scrolledUp this.cols this.scrollTop this.scrollBottom drawn
    else if r + 1 = this.rows then scrolledUp this.cols 0 r drawn
    else drawn) = _
  by_cases hlast : c + 1 < this.cols
  · rw [if_pos hlast, if_pos hlast]
  · rw [if_neg hlast, if_neg hlast]
    by_cases hregion : r = this.scrollBottom
    · rw [if_pos hregion, if_pos hregion]
    · have habove : r + 1 < this.rows := (hedge.resolve_left hlast).resolve_right hregion
      rw [if_neg hregion, if_neg hregion, if_neg habove.ne]

/-- The right half of a wide character is printed over, and the left half goes. -/
theorem addressed_print_half :
    ∃ this next, (Terminal.new 4 2).feed exampleWidth [.print 'a', .print '世'] = some this ∧
      this.feed exampleWidth [.csiDispatch [[1], [3]] [] false 'H', .print 'b'] = some next ∧
      cellAt next.buffer 0 1 = some Cell.blank := by
  have hreached : (Terminal.new 4 2).feed exampleWidth [.print 'a', .print '世'] = some _ := rfl
  obtain ⟨next, drawn, hfeed, hcells, hbuffer⟩ := addressed_print exampleWidth (by decide) hreached
    (by decide : 0 < 2) (by decide : 2 < 4) (by decide : (1 : UInt16).toNat = 1)
    (by decide : (3 : UInt16).toNat = 3) false (by decide : charWidth exampleWidth 'b' = 1)
    (.inl (by decide : 3 < 4))
  refine ⟨_, next, rfl, hfeed, ?_⟩
  rw [hbuffer, if_pos (by decide), hcells]
  decide

/-- In the bottom right corner the line is fed, and the first row is lost. -/
theorem not_addressed_print_frame :
    ¬ ∀ (width : UnicodeWidth) cols rows callbacks this next r c (row col : UInt16) ignore x,
      width ' ' = some 1 → 2 ≤ cols →
      (Terminal.new cols rows).feed width callbacks = some this → r < this.rows → c < this.cols →
      row.toNat = r + 1 → col.toNat = c + 1 → charWidth width x = 1 →
      this.feed width [.csiDispatch [[row], [col]] [] ignore 'H', .print x] = some next →
      ∀ r' c', cellAt next.buffer r' c' = drawnCell width this r c x r' c' := by
  intro hall
  have hcells := hall exampleWidth 2 2 [.print 'a'] _ _ 1 1 2 2 false 'b' (by decide) (by decide) rfl
    (by decide) (by decide) (by decide) (by decide) (by decide) rfl 0 0
  exact absurd hcells (by decide)

end ManInTheBox.Emulator
