import ManInTheBox.Emulator.AlternateScreen
import ManInTheBox.Emulator.LineEditing

/-! # The full reset

ESC c brings back a new terminal in everything but the screen that is shown: a reset on the
alternate screen stays there, and the main screen goes on waiting.
-/

namespace ManInTheBox.Emulator

open Library

/-! ## The first span of a line -/

theorem Line.pushCell_head (span : Span) (line : Line) (cell : Cell) :
    ∃ span' line', Line.pushCell (span :: line) cell = span' :: line' ∧
      span'.bgColor = span.bgColor := by
  unfold pushCell
  split
  · exact ⟨span, line, rfl, rfl⟩
  · cases line with
    | nil =>
      simp only [List.getLast?_singleton, List.dropLast_singleton, List.nil_append]
      split
      · exact ⟨_, _, rfl, rfl⟩
      · exact ⟨span, _, rfl, rfl⟩
    | cons next line =>
      rw [List.getLast?_eq_some_getLast (List.cons_ne_nil _ _)]
      simp only [List.dropLast_cons_cons]
      split
      · exact ⟨span, _, rfl, rfl⟩
      · exact ⟨span, _, rfl, rfl⟩

/-- The background that the first cell is drawn with. -/
theorem Line.ofRow_head {cell : Cell} (row : Row) (hcell : cell.wideContinuation = false) :
    (Line.ofRow (cell :: row)).head?.map Span.bgColor = some cell.style.bgColor := by
  have hrest : ∀ (row : Row) (span : Span) (line : Line),
      ∃ span' line', row.foldl Line.pushCell (span :: line) = span' :: line' ∧
        span'.bgColor = span.bgColor := by
    intro row
    induction row with
    | nil => exact fun span line => ⟨span, line, rfl, rfl⟩
    | cons cell row ih =>
      intro span line
      obtain ⟨span', line', hpush, hcolor⟩ := Line.pushCell_head span line cell
      obtain ⟨span'', line'', hrow, hcolor'⟩ := ih span' line'
      exact ⟨span'', line'', by rw [List.foldl_cons, hpush, hrow], hcolor'.trans hcolor⟩
  have hfirst : Line.pushCell [] cell = [⟨cell.text, cell.style.fgColor, cell.style.bgColor,
      cell.style.bold, cell.style.italic⟩] := by
    simp [Line.pushCell, hcell]
  obtain ⟨span, line, hrow, hcolor⟩ := hrest row _ []
  rw [Line.ofRow, List.foldl_cons, hfirst, hrow]
  simp [hcolor]

/-! ## A row that is erased as a whole -/

theorem repairedUpTo_blank {width : UnicodeWidth} (hspace : width ' ' = some 1) (style : Style)
    (count n : ℕ) :
    repairedUpTo width (List.replicate count (Cell.blankWithStyle style)) n =
      List.replicate count (Cell.blankWithStyle style) := by
  have hnarrow := narrow_blankWithStyle hspace style
  have hany : ∀ (p : Cell → Bool) (i : ℕ), p (Cell.blankWithStyle style) = false →
      (List.replicate count (Cell.blankWithStyle style))[i]?.any p = false := by
    intro p i hp
    rw [List.getElem?_replicate]
    split
    · exact hp
    · rfl
  induction n with
  | zero => rfl
  | succ n ih =>
    have hcont : contAt (List.replicate count (Cell.blankWithStyle style)) n = false :=
      hany _ n hnarrow.1
    have hlead : leadAt width (List.replicate count (Cell.blankWithStyle style)) n = false :=
      hany _ n hnarrow.2
    rw [repairedUpTo_succ, ih, repairedAt, hcont, hlead]
    rfl

theorem RowEdit.applied_whole_eq {width : UnicodeWidth} (hspace : width ' ' = some 1)
    (style : Style) (row : Row) :
    (RowEdit.erase 0 row.length).applied width style row =
      List.replicate row.length (Cell.blankWithStyle style) := by
  have hraw : (RowEdit.erase 0 row.length).raw style row =
      List.replicate row.length (Cell.blankWithStyle style) := by
    apply List.ext_getElem?
    intro i
    rw [getElem?_raw_erase le_rfl, List.getElem?_replicate]
    by_cases hi : i < row.length
    · rw [if_pos ⟨i.zero_le, hi⟩, if_pos hi]
    · rw [if_neg (by omega), if_neg hi, List.getElem?_eq_none (by omega)]
  rw [applied, hraw]
  exact repairedUpTo_blank hspace style _ _

namespace Terminal

variable {width : UnicodeWidth} {this : Terminal} {cols rows : ℕ}

/-- What a viewer sees of a terminal. -/
def shown (this : Terminal) : List Line × ℕ × ℕ := (this.lines, this.cursorRow, this.cursorCol)

theorem blankRows_eq (h : this.buffer.length = this.rows) :
    this.blankRows =
      some (this.withBuffer (List.replicate this.rows (blankRow this.cols))) := by
  have hloop : this.blankRows =
      (fillEntries 0 this.rows (blankRow this.cols) this.buffer).map this.withBuffer := by
    rw [blankRows, List.range_eq_range']
    exact foldlM_map this.withBuffer
      (fun buffer row => (this.withBuffer buffer).setRow_eq_map row (blankRow this.cols))
      (List.range' 0 this.rows) this.buffer
  obtain ⟨buffer, hfilled, hlength, hentries⟩ :=
    @fillEntries_eq _ 0 this.rows this.buffer (by omega) (blankRow this.cols)
  have hbuffer : buffer = List.replicate this.rows (blankRow this.cols) := by
    apply List.ext_getElem?
    intro i
    rw [hentries, List.getElem?_replicate]
    by_cases hi : i < this.rows
    · rw [if_pos (by omega), if_pos hi]
    · rw [if_neg (by omega), if_neg hi, List.getElem?_eq_none (by omega)]
  rw [hloop, hfilled, hbuffer, Option.map_some]

/-- A reset forgets everything but the other screen. -/
theorem resetTerminal_eq (hok : BuffersOk width this)
    (hin : this.cursor.Inside (max cols 1) (max rows 1)) :
    this.resetTerminal =
      some ((Terminal.new cols rows).hide this.alternateScreen this.savedMainScreen) := by
  have hcols : this.cols = max cols 1 := hin.cols_eq
  have hrows : this.rows = max rows 1 := hin.rows_eq
  rw [resetTerminal, blankRows_eq (by exact hok.shown.length)]
  simp [withBuffer, hide, new, hcols, hrows]

/-! ## A sequence that tells -/

/-- The background at the top left. -/
def corner (this : Terminal) : Option (Option Color) :=
  (this.lines.head?.bind List.head?).map Span.bgColor

theorem corner_eq {style : Style} {row : Row} (hrow : this.buffer.head? = some row) {count : ℕ}
    (hcount : 0 < count) (hblank : row = List.replicate count (Cell.blankWithStyle style)) :
    this.corner = some style.bgColor := by
  obtain ⟨n, rfl⟩ := Nat.exists_eq_succ_of_ne_zero hcount.ne'
  rw [corner, lines, List.head?_map, hrow, hblank, List.replicate_succ, Option.map_some,
    Option.bind_some, Line.ofRow_head _ rfl]
  rfl

/-- Give the first row a background. -/
def colouring : List Callback :=
  [.csiDispatch [[41]] [] false 'm', .csiDispatch [[2]] [] false 'K']

/-- A new terminal that has been coloured. -/
def coloured (cols rows : ℕ) : Terminal :=
  { Terminal.new cols rows with
    style := Style.default.set 41
    buffer := (Terminal.new cols rows).buffer.set 0
      (List.replicate (max cols 1) (Cell.blankWithStyle (Style.default.set 41))) }

theorem feed_colouring (hspace : width ' ' = some 1) (cols rows : ℕ) :
    (Terminal.new cols rows).feed width colouring = some (coloured cols rows) := by
  let styled : Terminal := { Terminal.new cols rows with style := Style.default.set 41 }
  have hnew := (sized_of_feed_new hspace (rfl : (Terminal.new cols rows).feed width [] = some _)).1
  have hstyled : styled.Sized := ⟨hnew.rows_pos, hnew.cols_pos, hnew.length, hnew.row⟩
  have hget : styled.buffer[0]? = some (blankRow (max cols 1)) := by
    simp [styled, Terminal.new]
  have hwhole := @RowEdit.applied_whole_eq width hspace styled.style (blankRow (max cols 1))
  rw [blankRow, List.length_replicate, ← blankRow] at hwhole
  have hedited : styled.editRow width 0 (.erase 0 styled.cols) styled.style =
      coloured cols rows := by
    rw [editRow_eq hget]
    exact congrArg (fun row => styled.withBuffer (styled.buffer.set 0 row)) hwhole
  have hcolour : (Terminal.new cols rows).perform width (.csiDispatch [[41]] [] false 'm') =
      some styled := rfl
  have hclear : styled.perform width (.csiDispatch [[2]] [] false 'K') =
      styled.clearRowRange width (min 0 (styled.rows - 1)) 0 styled.cols styled.style := rfl
  rw [colouring, feed, List.foldlM_cons, hcolour, Option.bind_eq_bind, Option.bind_some,
    List.foldlM_cons, hclear, Nat.zero_min,
    clearRowRange_eq hstyled hstyled.rows_pos hstyled.cols_pos le_rfl, hedited]
  rfl

theorem coloured_corner (cols rows : ℕ) :
    (coloured cols rows).corner = some (Style.default.set 41).bgColor := by
  refine corner_eq ?_ (by omega : 0 < max cols 1) rfl
  rw [List.head?_eq_getElem?]
  exact List.getElem?_set_self (by simp [Terminal.new])

/-- Colour the first row, and then go to the alternate screen. -/
def telltale : List Callback := colouring ++ [.csiDispatch [[1049]] [0x3f] false 'h']

/-- On a new terminal the colour is left behind. -/
theorem telltale_new (hspace : width ' ' = some 1) (cols rows : ℕ) :
    ∃ this, (Terminal.new cols rows).feed width telltale = some this ∧
      this.corner = some none := by
  have henter : (coloured cols rows).perform width (.csiDispatch [[1049]] [0x3f] false 'h') = _ :=
    (perform_switch (.inl rfl) (by decide)).trans (enterAlternateScreen_eq (coloured cols rows) rfl)
  have hlength : (coloured cols rows).buffer.length = (coloured cols rows).rows := by
    simp [coloured, Terminal.new]
  rw [blanked, blankRows_eq hlength] at henter
  obtain ⟨next, hnext, hbuffer⟩ :
      ∃ next, (coloured cols rows).perform width (.csiDispatch [[1049]] [0x3f] false 'h') =
          some next ∧
        next.buffer = List.replicate (max rows 1) (blankRow (max cols 1)) := ⟨_, henter, rfl⟩
  refine ⟨next, ?_, ?_⟩
  · rw [telltale, feed_append, feed_colouring hspace, Option.bind_some, feed, List.foldlM_cons,
      hnext]
    rfl
  · have hhead : next.buffer.head? = some (blankRow (max cols 1)) := by
      rw [hbuffer, List.head?_replicate, if_neg (by omega)]
    exact corner_eq hhead (by omega : 0 < max cols 1) rfl

/-- On one that shows the alternate screen already it stays. -/
theorem telltale_hide (hspace : width ' ' = some 1) (cols rows : ℕ) (saved : Option SavedScreen) :
    ∃ this, ((Terminal.new cols rows).hide true saved).feed width telltale = some this ∧
      this.corner = some (Style.default.set 41).bgColor := by
  have hhide := @feed_hide true saved (Terminal.new cols rows) width colouring (by
    rintro callback hcallback action (rfl | rfl) <;> revert callback <;> decide)
  have henter : ((coloured cols rows).hide true saved).perform width
      (.csiDispatch [[1049]] [0x3f] false 'h') = some ((coloured cols rows).hide true saved) :=
    perform_switch (.inl rfl) (by decide)
  rw [feed_colouring hspace, Option.map_some] at hhide
  refine ⟨(coloured cols rows).hide true saved, ?_, coloured_corner cols rows⟩
  rw [telltale, feed_append, hhide, Option.bind_some, feed, List.foldlM_cons, henter]
  rfl

end Terminal

/-- On every screen that is reached, a full reset is as good as a new terminal, whatever comes later,
exactly if the main screen is shown. On the alternate screen it is as good as that until the screens
are switched. -/
theorem resetTerminal_iff (width : UnicodeWidth) (hspace : width ' ' = some 1) {cols rows : ℕ}
    {callbacks : List Callback} {this : Terminal}
    (hreached : (Terminal.new cols rows).feed width callbacks = some this) (ignore : Bool) :
    ((∀ later, (this.feed width (.escDispatch [] ignore 0x63 :: later)).map Terminal.shown =
        ((Terminal.new cols rows).feed width later).map Terminal.shown) ↔
      this.alternateScreen = false) ∧
    ∀ later, (∀ callback ∈ later, ∀ action, action = 'h' ∨ action = 'l' →
        switches action callback = false) →
      (this.feed width (.escDispatch [] ignore 0x63 :: later)).map Terminal.shown =
        ((Terminal.new cols rows).feed width later).map Terminal.shown := by
  obtain ⟨hok, hin⟩ := Terminal.ok_of_feed_new hspace hreached
  have hscreens := Terminal.screens_of_feed_new hspace hreached
  have hreset : ∀ later, this.feed width (.escDispatch [] ignore 0x63 :: later) =
      ((Terminal.new cols rows).hide this.alternateScreen this.savedMainScreen).feed width later := by
    intro later
    have hfirst : this.perform width (.escDispatch [] ignore 0x63) = _ :=
      Terminal.resetTerminal_eq hok hin
    rw [Terminal.feed, List.foldlM_cons, hfirst]
    rfl
  simp only [hreset]
  refine ⟨⟨fun hall => ?_, fun hmain later => ?_⟩, fun later hnot => ?_⟩
  · by_contra halternate
    rw [Bool.not_eq_false] at halternate
    obtain ⟨there, hthere, hcolour⟩ :=
      Terminal.telltale_hide hspace cols rows this.savedMainScreen
    obtain ⟨fresh, hfresh, hnone⟩ := Terminal.telltale_new hspace cols rows
    have hsame := hall Terminal.telltale
    rw [halternate, hthere, hfresh, Option.map_some, Option.map_some] at hsame
    have hlines : there.lines = fresh.lines := congrArg Prod.fst (Option.some.inj hsame)
    rw [Terminal.corner, hlines, ← Terminal.corner, hnone] at hcolour
    exact absurd hcolour (by decide)
  · have hnone : this.savedMainScreen = none := by
      have hnot : ¬ this.savedMainScreen.isSome := by
        simp [← Terminal.alternateScreen_iff hscreens, hmain]
      simpa using hnot
    rw [hmain, hnone]
    rfl
  · rw [Terminal.feed_hide _ width hnot, Option.map_map]
    rfl

/-- A screen that has a region, a saved cursor, a style and a visit to the alternate screen behind
it. -/
theorem resetTerminal_iff_main :
    ∃ this, (Terminal.new 3 2).feed exampleWidth
        [.csiDispatch [[1]] [] false 'm', .print 'a', .csiDispatch [[1], [2]] [] false 'r',
          .escDispatch [] false 0x37, .csiDispatch [[1049]] [0x3f] false 'h',
          .csiDispatch [[1049]] [0x3f] false 'l'] = some this ∧
      ∀ later, (this.feed exampleWidth (.escDispatch [] false 0x63 :: later)).map Terminal.shown =
        ((Terminal.new 3 2).feed exampleWidth later).map Terminal.shown := by
  have hreached : (Terminal.new 3 2).feed exampleWidth
      [.csiDispatch [[1]] [] false 'm', .print 'a', .csiDispatch [[1], [2]] [] false 'r',
        .escDispatch [] false 0x37, .csiDispatch [[1049]] [0x3f] false 'h',
        .csiDispatch [[1049]] [0x3f] false 'l'] = some _ := rfl
  exact ⟨_, rfl, (resetTerminal_iff exampleWidth (by decide) hreached false).1.mpr rfl⟩

/-- What was on the main screen comes back after a reset on the alternate one. -/
theorem not_resetTerminal :
    ¬ ∀ (width : UnicodeWidth) cols rows callbacks this ignore later, width ' ' = some 1 →
      (Terminal.new cols rows).feed width callbacks = some this →
      (this.feed width (.escDispatch [] ignore 0x63 :: later)).map Terminal.shown =
        ((Terminal.new cols rows).feed width later).map Terminal.shown := by
  intro hall
  have hsame := hall exampleWidth 3 1 [.print 'a', .csiDispatch [[1049]] [0x3f] false 'h'] _ false
    [.csiDispatch [[1049]] [0x3f] false 'l'] (by decide) rfl
  exact absurd hsame (by decide)

end ManInTheBox.Emulator
