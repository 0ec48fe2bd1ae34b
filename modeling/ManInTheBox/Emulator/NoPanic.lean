import ManInTheBox.Emulator.Lines

/-! # When the screen does not panic

Every index and every subtraction of the performer stays in range, with one exception:
on a screen of one column a wide character is begun all the same, and its right half
has no cell.
-/

namespace ManInTheBox.Emulator

open Library

variable {width : UnicodeWidth}

/-- The right half of a wide character in the last column is out of range. -/
theorem Row.writeChar_eq_none (hspace : width ' ' = some 1) {cols col : ℕ} {row : Row}
    (h : RowOk width cols row) (hlast : col + 1 = cols) {c : Char} (hc : charWidth width c = 2)
    (style : Style) : Row.writeChar width cols style c col row = none := by
  have hcol : col < cols := by omega
  have hlen := (@cleared_shape width cols row col hspace h.toRowShape).length
  have hclear := @clearOverlappedCell_eq width cols row col h.length hcol
  have hset : Row.setCell col ⟨[c], style, false⟩ (cleared width row col) = _ :=
    Row.setCell_eq (by omega)
  have hpast : cols ≤ col + 1 := hlast.ge
  have hclear' : Row.clearOverlappedCell width cols (col + 1)
      ((cleared width row col).set col ⟨[c], style, false⟩) = some _ := if_pos hpast
  have hout : Row.setCell (col + 1) (Cell.continuation style)
      ((cleared width row col).set col ⟨[c], style, false⟩) = none := by
    rw [Row.setCell, List.length_set, hlen, if_neg (not_lt.mpr hpast)]
  simp only [Row.writeChar, hclear, hset, hc, hclear', Option.bind_eq_bind, Option.bind_some, if_true,
    hout]

namespace Terminal

variable {this : Terminal} {cols rows : ℕ}

/-- On a screen of one column the line feed that is to make room for a wide character makes none. -/
theorem putChar_eq_none (hspace : width ' ' = some 1) (hok : BuffersOk width this)
    (hin : this.cursor.Inside 1 rows) {c : Char} (hc : charWidth width c = 2) :
    this.putChar width c = none := by
  have hcols : this.cols = 1 := hin.cols_eq
  have hcol : this.cursorCol < 1 := hin.col_lt
  have hwrap : this.wrap = some this := if_neg (by omega)
  have hline : this.cursor.makeRoom (charWidth width c) =
      (this.cursor.moveTo this.cursorRow 0).linefeed :=
    if_pos ⟨hc, (by omega : this.cursorCol = this.cols - 1)⟩
  have hinside : (this.cursor.makeRoom (charWidth width c)).Inside 1 rows := by
    rw [hline]
    exact (hin.moveTo hin.row_lt zero_lt_one).linefeed
  obtain ⟨next, hmake, hnext⟩ := makeRoom_yields hspace hok c
  rw [← hnext.cursor] at hinside
  have hlast : next.cursorCol + 1 = next.cols := by
    have hcol' : next.cursorCol < 1 := hinside.col_lt
    have hcols' : next.cols = 1 := hinside.cols_eq
    omega
  have hrow : next.cursorRow < next.rows := hinside.row_lt.trans_eq hinside.rows_eq.symm
  obtain ⟨cells, hget, hcells⟩ := BufferOk.getElem? hnext.buffers.shown hrow
  have hwrite := Row.writeChar_eq_none hspace hcells hlast hc next.style
  rw [putChar, if_neg (by omega), clampCursor_eq hin, hwrap, Option.bind_eq_bind, Option.bind_some,
    hmake, Option.bind_some]
  simp only [modifyRow, hget, hwrite, Option.bind_eq_bind, Option.bind_some, Option.bind_none]

/-- Output does not panic exactly if no character in it is wider than the screen. -/
theorem feed_isSome_iff (hspace : width ' ' = some 1) (hok : BuffersOk width this)
    (hin : this.cursor.Inside cols rows) (callbacks : List Callback) :
    (this.feed width callbacks).isSome ↔ ∀ callback ∈ callbacks, callback.Fits width cols := by
  induction callbacks generalizing this with
  | nil => simp [feed]
  | cons callback callbacks ih =>
    rw [feed, List.foldlM_cons, List.forall_mem_cons]
    by_cases hfirst : callback.Fits width cols
    · obtain ⟨next, hperform, hnext⟩ := perform_yields hspace hok hin hfirst
      have hin' : next.cursor.Inside cols rows := by
        rw [hnext.cursor]
        exact hin.perform hfirst
      have hrest := ih hnext.buffers hin'
      rw [hperform, Option.bind_eq_bind, Option.bind_some, ← feed, hrest]
      simp [hfirst]
    · have hpanic : this.perform width callback = none := by
        cases callback with
        | print c =>
          have hle := charWidth_le width c
          have hpos := Nat.zero_lt_of_lt hin.col_lt
          have hone : cols = 1 ∧ charWidth width c = 2 := by
            rw [Callback.Fits] at hfirst
            omega
          obtain ⟨rfl, hc⟩ := hone
          exact putChar_eq_none hspace hok hin hc
        | execute | csiDispatch | escDispatch | hook | put | unhook | oscDispatch =>
          exact absurd trivial hfirst
      rw [hpanic]
      simp [hfirst]

end Terminal

theorem Terminal.inside_new (cols rows : ℕ) :
    (Terminal.new cols rows).cursor.Inside (max cols 1) (max rows 1) :=
  ScreenCursor.Inside.new (by omega) (by omega)

/-- The run that has led to a screen, on the machine without a screen. -/
theorem Terminal.at_of_feed_new (hspace : width ' ' = some 1) {cols rows : ℕ}
    {callbacks : List Callback} {this : Terminal}
    (hreached : (Terminal.new cols rows).feed width callbacks = some this) :
    (∀ callback ∈ callbacks, callback.Fits width (max cols 1)) ∧
      At width (callbacks.foldl (·.perform width ·) (Terminal.new cols rows).cursor) this := by
  have hok := Terminal.buffersOk_new hspace cols rows
  have hin := Terminal.inside_new cols rows
  have hfits := (Terminal.feed_isSome_iff hspace hok hin callbacks).mp (by simp [hreached])
  obtain ⟨next, hfeed, hat⟩ := Terminal.feed_yields hspace hok hin hfits
  obtain rfl := Option.some.inj (hreached.symm.trans hfeed)
  exact ⟨hfits, hat⟩

/-- What holds on every screen that has been reached. -/
theorem Terminal.ok_of_feed_new (hspace : width ' ' = some 1) {cols rows : ℕ}
    {callbacks : List Callback} {this : Terminal}
    (hreached : (Terminal.new cols rows).feed width callbacks = some this) :
    BuffersOk width this ∧ this.cursor.Inside (max cols 1) (max rows 1) := by
  obtain ⟨hfits, hat⟩ := Terminal.at_of_feed_new hspace hreached
  exact ⟨hat.buffers, hat.cursor ▸ (Terminal.inside_new cols rows).run hfits⟩

/-- A screen of any size takes any output without panic, exactly if no character in it is wider than
the screen, which is at least one column wide. -/
theorem feed_new_isSome_iff (width : UnicodeWidth) (hspace : width ' ' = some 1) (cols rows : ℕ)
    (callbacks : List Callback) :
    ((Terminal.new cols rows).feed width callbacks).isSome ↔
      ∀ c, .print c ∈ callbacks → charWidth width c ≤ max cols 1 := by
  rw [Terminal.feed_isSome_iff hspace (Terminal.buffersOk_new hspace cols rows)
    (Terminal.inside_new cols rows)]
  constructor
  · exact fun hfits c hc => hfits _ hc
  · intro hwidths callback hcallback
    cases callback with
    | print c => exact hwidths c hcallback
    | execute | csiDispatch | escDispatch | hook | put | unhook | oscDispatch => exact trivial

/-- One column, narrow characters only. -/
theorem feed_new_isSome_iff_narrow :
    exampleWidth ' ' = some 1 ∧ ((Terminal.new 1 1).feed exampleWidth
      [.print 'a', .print '\u0301', .csiDispatch [[7]] [] false '@']).isSome := by
  have hspace : exampleWidth ' ' = some 1 := by decide
  refine ⟨hspace, (feed_new_isSome_iff exampleWidth hspace 1 1 _).mpr ?_⟩
  intro c hc
  simp only [List.mem_cons, Callback.print.injEq, reduceCtorEq, List.not_mem_nil, or_false] at hc
  rcases hc with rfl | rfl
  · decide
  · decide

/-- One column and a wide character. -/
theorem not_feed_new_isSome :
    ¬ ∀ (width : UnicodeWidth) cols rows callbacks, width ' ' = some 1 →
      ((Terminal.new cols rows).feed width callbacks).isSome := by
  intro hall
  have hsome := hall exampleWidth 1 1 [.print '世'] (by decide)
  exact absurd hsome (by decide)

end ManInTheBox.Emulator
