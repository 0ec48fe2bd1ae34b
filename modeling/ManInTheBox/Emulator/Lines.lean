import ManInTheBox.Emulator.ScreenInvariant

/-! # Lines fill the screen

The lines that are drawn consist of the texts of the cells that are no continuations.
Since wide characters are whole, the base characters of each line take all columns.
-/

namespace ManInTheBox.Emulator

open Library

variable {width : UnicodeWidth}

/-! ## The text of a line -/

def Line.text (line : Line) : List Char := line.flatMap Span.text

/-- The characters of a text that are no combining ones. -/
def baseChars (width : UnicodeWidth) (text : List Char) : List Char :=
  text.filter fun c => charWidth width c ≠ 0

/-- The columns that the base characters of a text take. -/
def columns (width : UnicodeWidth) (text : List Char) : ℕ :=
  ((baseChars width text).map (charWidth width)).sum

/-- What a cell adds to the text of its line. -/
def Cell.drawn (cell : Cell) : List Char := if cell.wideContinuation then [] else cell.text

theorem Line.text_pushCell (line : Line) (cell : Cell) :
    (line.pushCell cell).text = line.text ++ cell.drawn := by
  by_cases hcont : cell.wideContinuation = true
  · simp [pushCell, Cell.drawn, hcont]
  · rcases List.eq_nil_or_concat line with rfl | ⟨spans, span, rfl⟩
    · simp [pushCell, Cell.drawn, hcont, text]
    · by_cases hstyle : span.hasStyle cell.style = true
      · simp [pushCell, Cell.drawn, hcont, text, hstyle]
      · simp [pushCell, Cell.drawn, hcont, text, hstyle]

theorem Line.text_foldl (row : Row) (line : Line) :
    (row.foldl Line.pushCell line).text = line.text ++ row.flatMap Cell.drawn := by
  induction row generalizing line with
  | nil => simp
  | cons cell row ih => simp [ih, text_pushCell]

theorem Line.text_ofRow (row : Row) : (Line.ofRow row).text = row.flatMap Cell.drawn := by
  have htext := Line.text_foldl row []
  by_cases hempty : (row.foldl Line.pushCell []).isEmpty = true
  · have hnil : row.foldl Line.pushCell [] = [] := List.isEmpty_iff.mp hempty
    rw [hnil] at htext
    simpa [ofRow, hempty, text, Span.default] using htext
  · simpa [ofRow, hempty, text] using htext

/-! ## Counting columns -/

theorem columns_append (text text' : List Char) :
    columns width (text ++ text') = columns width text + columns width text' := by
  simp [columns, baseChars]

theorem columns_combining {text : List Char} (h : ∀ c ∈ text, charWidth width c = 0) :
    columns width text = 0 := by
  have hnone : baseChars width text = [] := by
    simpa [baseChars] using h
  simp [columns, hnone]

/-- A lead takes two columns, a continuation none and any other cell one. -/
theorem columns_drawn {cell : Cell} (h : CellOk width cell) :
    columns width cell.drawn + (if cell.wideContinuation then 1 else 0) =
      1 + if isWideLead width cell then 1 else 0 := by
  by_cases hcont : cell.wideContinuation = true
  · simp [Cell.drawn, hcont, columns, baseChars, isWideLead_of_wideContinuation hcont]
  · obtain ⟨c, combining, htext, hc, hcombining⟩ := h (by simpa using hcont)
    have hcell : cell = ⟨c :: combining, cell.style, false⟩ := by
      cases cell
      simp_all
    have hlead := isWideLead_char hc combining cell.style
    rw [← hcell] at hlead
    have hfirst : columns width [c] = charWidth width c := by
      simp [columns, baseChars, hc]
    have htotal : columns width cell.drawn = charWidth width c := by
      rw [Cell.drawn, if_neg hcont, htext, ← List.singleton_append, columns_append, hfirst,
        columns_combining hcombining, Nat.add_zero]
    have hle := charWidth_le width c
    rw [htotal, hlead, if_neg hcont]
    by_cases hwide : charWidth width c = 2
    · simp [hwide]
    · simp only [hwide, decide_false, Bool.false_eq_true, if_false]
      omega

/-- Counted from the left, a row is as wide as it is long, once the missing half of a lead that was
cut off before it is added. -/
theorem columns_row {row : Row} (hcell : ∀ cell ∈ row, CellOk width cell)
    (hpaired : ∀ col, contAt row (col + 1) = leadAt width row col) :
    columns width (row.flatMap Cell.drawn) + (if contAt row 0 then 1 else 0) = row.length := by
  induction row with
  | nil => simp [columns, baseChars, contAt]
  | cons cell row ih =>
    have hrest := ih (fun c hc => hcell c (List.mem_cons_of_mem _ hc)) fun col => hpaired (col + 1)
    have hfirst := columns_drawn (hcell cell (List.mem_cons_self ..))
    have hnext : contAt row 0 = isWideLead width cell := hpaired 0
    have hhere : contAt (cell :: row) 0 = cell.wideContinuation := rfl
    rw [hnext] at hrest
    rw [List.flatMap_cons, columns_append, List.length_cons, hhere]
    omega

theorem RowOk.columns_eq {cols : ℕ} {row : Row} (h : RowOk width cols row) :
    columns width (Line.ofRow row).text = cols := by
  have hrow := columns_row h.cell fun col => h.paired (col + 1)
  have hstart : contAt row 0 = false := h.paired 0
  rw [Line.text_ofRow, ← h.length, ← hrow, hstart]
  simp

/-! ## The representation of the screen -/

/-- The buffer has the size of the screen, cursor and scroll region are on it, wide characters are
whole, and every line that is drawn fills its row. -/
structure WellFormed (width : UnicodeWidth) (cols rows : ℕ) (this : Terminal) : Prop where
  buffer_length : this.buffer.length = rows
  row_length : ∀ row ∈ this.buffer, row.length = cols
  cursorRow_lt : this.cursorRow < rows
  cursorCol_lt : this.cursorCol < cols
  scrollTop_le : this.scrollTop ≤ this.scrollBottom
  scrollBottom_lt : this.scrollBottom < rows
  paired : ∀ row ∈ this.buffer, Paired width row
  columns : ∀ line ∈ this.lines, columns width line.text = cols

theorem Terminal.buffersOk_new (hspace : width ' ' = some 1) (cols rows : ℕ) :
    BuffersOk width (Terminal.new cols rows) := by
  constructor
  · constructor
    · simp [new]
    · intro row hrow
      rw [List.eq_of_mem_replicate hrow]
      exact rowOk_blankRow hspace _
  · simp [new]

theorem Terminal.cursor_new (cols rows : ℕ) :
    (Terminal.new cols rows).cursor = ScreenCursor.new (max cols 1) (max rows 1) := rfl

/-- The terminal after a run, for a screen of at least two columns. -/
theorem Terminal.feed_new_yields (hspace : width ' ' = some 1) {cols rows : ℕ} (hcols : 2 ≤ cols)
    (hrows : 1 ≤ rows) (callbacks : List Callback) :
    Yields ((Terminal.new cols rows).feed width callbacks) (At width
      (callbacks.foldl (·.perform width ·) (ScreenCursor.new cols rows))) := by
  have hcursor : (Terminal.new cols rows).cursor = ScreenCursor.new cols rows := by
    rw [cursor_new, max_eq_left (by omega), max_eq_left hrows]
  have hin : (Terminal.new cols rows).cursor.Inside cols rows := by
    rw [hcursor]
    exact ScreenCursor.Inside.new (by omega) hrows
  have hfits : ∀ callback ∈ callbacks, callback.Fits width cols :=
    fun callback _ => callback.fits_of_two_le width hcols
  have hrun := feed_yields hspace (buffersOk_new hspace cols rows) hin hfits
  rwa [hcursor] at hrun

theorem ScreenCursor.inside_run {cols rows : ℕ} (hcols : 2 ≤ cols) (hrows : 1 ≤ rows)
    (callbacks : List Callback) :
    (callbacks.foldl (·.perform width ·) (ScreenCursor.new cols rows)).Inside cols rows := by
  have hin := ScreenCursor.Inside.new (by omega : 0 < cols) hrows
  exact hin.run fun callback _ => callback.fits_of_two_le width hcols

/-- For every width function that gives the space its column, every screen of at least two columns
and one row, and every sequence of callbacks: the run does not fail, and the screen it leads to is
well formed. -/
theorem screen_wellFormed (width : UnicodeWidth) (hspace : width ' ' = some 1) (cols rows : ℕ)
    (hcols : 2 ≤ cols) (hrows : 1 ≤ rows) (callbacks : List Callback) :
    ∃ this, (Terminal.new cols rows).feed width callbacks = some this ∧
      WellFormed width cols rows this := by
  obtain ⟨this, hfeed, hat⟩ := Terminal.feed_new_yields hspace hcols hrows callbacks
  have hin := @ScreenCursor.inside_run width cols rows hcols hrows callbacks
  rw [← hat.cursor] at hin
  have hbuffer := hat.buffers.shown
  have hcols' : this.cols = cols := hin.cols_eq
  have hrows' : this.rows = rows := hin.rows_eq
  rw [hcols', hrows'] at hbuffer
  refine ⟨this, hfeed, ?_⟩
  constructor
  · exact hbuffer.length
  · exact fun row hrow => (hbuffer.row row hrow).length
  · exact hin.row_lt
  · exact hin.col_lt
  · exact hin.top_le
  · exact hin.bottom_lt
  · exact fun row hrow => (hbuffer.row row hrow).paired
  · intro line hline
    obtain ⟨row, hrow, rfl⟩ := List.mem_map.mp hline
    exact (hbuffer.row row hrow).columns_eq

/-- A width function for the characters of the next example: a wide one, a combining one, and one
column for all others. -/
def exampleWidth : UnicodeWidth := fun c =>
  if c = '世' then some 2 else if c = '\u0301' then some 0 else if isControl c then none else some 1

/-- A wide character in the last column, a combining one, and a cut by an insertion. -/
theorem screen_wellFormed_cut :
    exampleWidth ' ' = some 1 ∧ ∃ this,
      (Terminal.new 3 2).feed exampleWidth
        [.print 'a', .print '世', .print '世', .print '\u0301', .csiDispatch [[1], [2]] [] false 'H',
          .csiDispatch [] [] false '@'] = some this ∧
      WellFormed exampleWidth 3 2 this :=
  ⟨by decide, screen_wellFormed exampleWidth (by decide) 3 2 (by decide) (by decide) _⟩

end ManInTheBox.Emulator
