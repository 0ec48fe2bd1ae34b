import ManInTheBox.Emulator.Lines
import ManInTheBox.Library.RunLength

/-! # Spans are runs of one style

A line is drawn span by span. The spans have the characters and the styles of the cells,
and there are no fewer spans that do.
-/

namespace ManInTheBox.Emulator

open Library

variable {width : UnicodeWidth}

def Span.style (span : Span) : Style := ⟨span.fgColor, span.bgColor, span.bold, span.italic⟩

def Span.run (span : Span) : List Char × Style := (span.text, span.style)

def Line.runs (line : Line) : List (List Char × Style) := line.map Span.run

/-- The characters of a line, each with its style. -/
def Line.styled (line : Line) : List (Char × Style) := expand line.runs

/-- The characters that a cell is to be drawn with, each in the style of the cell. -/
def Cell.styled (cell : Cell) : List (Char × Style) := cell.drawn.map fun c => (c, cell.style)

theorem Span.run_injective : Function.Injective Span.run := by
  rintro ⟨text, fgColor, bgColor, bold, italic⟩ ⟨text', fgColor', bgColor', bold', italic'⟩ h
  simp only [run, style, Prod.mk.injEq, Style.mk.injEq] at h
  simp [h]

theorem Span.hasStyle_iff (span : Span) (style : Style) :
    span.hasStyle style = true ↔ span.style = style := by
  cases style
  simp [hasStyle, Span.style, and_assoc]

namespace Line

variable {line : Line} {cell : Cell}

@[simp] theorem runs_append (line line' : Line) : runs (line ++ line') = line.runs ++ runs line' :=
  List.map_append

theorem pushCell_of_cont (line : Line) (h : cell.wideContinuation = true) :
    line.pushCell cell = line := by
  rw [pushCell, if_pos h]

/-- The last span goes on. -/
theorem runs_pushCell_same (line : Line) {span : Span} (h : cell.wideContinuation = false)
    (hstyle : span.style = cell.style) :
    (pushCell (line ++ [span]) cell).runs = line.runs ++ [(span.text ++ cell.text, span.style)] := by
  have hsame := (span.hasStyle_iff cell.style).mpr hstyle
  simp [pushCell, h, hsame, runs, Span.run, Span.style]

/-- Another span begins. -/
theorem runs_pushCell_other (h : cell.wideContinuation = false)
    (hstyle : ∀ span ∈ line.getLast?, span.style ≠ cell.style) :
    (line.pushCell cell).runs = line.runs ++ [(cell.text, cell.style)] := by
  cases hlast : line.getLast? with
  | none =>
    have hnil : line = [] := List.getLast?_eq_none_iff.mp hlast
    simp [pushCell, h, hnil, runs, Span.run, Span.style]
  | some span =>
    have hother : ¬ span.hasStyle cell.style = true := by
      rw [span.hasStyle_iff]
      exact hstyle span hlast
    simp [pushCell, h, hlast, hother, runs, Span.run, Span.style]

/-- The two ways to add a cell that is drawn. -/
theorem pushCell_cases (line : Line) (h : cell.wideContinuation = false) :
    (∃ (spans : Line) (span : Span), line = spans ++ [span] ∧ span.style = cell.style ∧
      (line.pushCell cell).runs = spans.runs ++ [(span.text ++ cell.text, span.style)]) ∨
    (∀ span ∈ line.getLast?, span.style ≠ cell.style) ∧
      (line.pushCell cell).runs = line.runs ++ [(cell.text, cell.style)] := by
  by_cases hstyle : ∀ span ∈ line.getLast?, span.style ≠ cell.style
  · exact .inr ⟨hstyle, runs_pushCell_other h hstyle⟩
  · push Not at hstyle
    obtain ⟨span, hlast, hsame⟩ := hstyle
    have hline := List.dropLast_append_getLast? span hlast
    refine .inl ⟨line.dropLast, span, hline.symm, hsame, ?_⟩
    have hruns := runs_pushCell_same line.dropLast h hsame
    rwa [hline] at hruns

theorem styled_pushCell (line : Line) (cell : Cell) :
    (line.pushCell cell).styled = line.styled ++ cell.styled := by
  by_cases hcont : cell.wideContinuation = true
  · simp [pushCell_of_cont line hcont, Cell.styled, Cell.drawn, hcont]
  · have hdrawn : cell.drawn = cell.text := by simp [Cell.drawn, hcont]
    rcases pushCell_cases line (by simpa using hcont) with
      ⟨spans, span, rfl, hsame, hruns⟩ | ⟨-, hruns⟩
    · have hspan : runs [span] = [(span.text, span.style)] := rfl
      simp [styled, hruns, Cell.styled, hdrawn, hsame, hspan]
    · simp [styled, hruns, Cell.styled, hdrawn]

/-- A cell that is drawn has a text, and goes on with the last span or begins another one. -/
theorem reduced_pushCell (h : Reduced line.runs) (hcell : CellOk width cell) :
    Reduced (line.pushCell cell).runs := by
  by_cases hcont : cell.wideContinuation = true
  · rwa [pushCell_of_cont line hcont]
  · have hne : cell.text ≠ [] := by
      obtain ⟨c, combining, htext, -⟩ := hcell (by simpa using hcont)
      simp [htext]
    rcases pushCell_cases line (by simpa using hcont) with
      ⟨spans, span, rfl, -, hruns⟩ | ⟨hother, hruns⟩
    · rw [runs_append] at h
      rw [hruns]
      exact Reduced.grow h cell.text
    · rw [hruns]
      apply h.concat hne
      simpa [runs, Span.run] using hother

theorem styled_foldl (row : Row) (line : Line) :
    (row.foldl pushCell line).styled = line.styled ++ row.flatMap Cell.styled := by
  induction row generalizing line with
  | nil => simp
  | cons cell row ih =>
    rw [List.foldl_cons, ih, styled_pushCell, List.flatMap_cons, List.append_assoc]

theorem reduced_foldl {row : Row} (hcells : ∀ cell ∈ row, CellOk width cell)
    (h : Reduced line.runs) : Reduced (row.foldl pushCell line).runs := by
  induction row generalizing line with
  | nil => exact h
  | cons cell row ih =>
    apply ih fun other hother => hcells other (List.mem_cons_of_mem _ hother)
    exact reduced_pushCell h (hcells cell (List.mem_cons_self ..))

end Line

/-- A row of the screen begins with a character. -/
theorem RowOk.styled_ne_nil {cols : ℕ} {row : Row} (h : RowOk width cols row) (hcols : 0 < cols) :
    row.flatMap Cell.styled ≠ [] := by
  cases row with
  | nil =>
    have hlength := h.length
    rw [List.length_nil] at hlength
    omega
  | cons cell row =>
    have hcont : cell.wideContinuation = false := h.paired 0
    obtain ⟨c, combining, htext, -⟩ := h.cell cell (List.mem_cons_self ..) hcont
    simp [Cell.styled, Cell.drawn, hcont, htext]

/-- For every run on a screen of at least two columns, and every row of the screen: the line that is
drawn for it has the characters of the row in their styles, one span for each stretch of one style;
it is the only line of this kind, and no other line with these characters has fewer spans. -/
theorem lines_are_runs (width : UnicodeWidth) (hspace : width ' ' = some 1) {cols rows : ℕ}
    (hcols : 2 ≤ cols) (hrows : 1 ≤ rows) (callbacks : List Callback) :
    ∃ this, (Terminal.new cols rows).feed width callbacks = some this ∧
      this.lines.length = rows ∧
      ∀ (r : ℕ) (line : Line), this.lines[r]? = some line → ∃ row : Row, this.buffer[r]? = some row ∧
        line.styled = row.flatMap Cell.styled ∧ Reduced line.runs ∧
        ∀ other : Line, other.styled = row.flatMap Cell.styled →
          line.length ≤ other.length ∧ (Reduced other.runs → other = line) := by
  obtain ⟨this, hfeed, hat⟩ := Terminal.feed_new_yields hspace hcols hrows callbacks
  have hin := @ScreenCursor.inside_run width cols rows hcols hrows callbacks
  rw [← hat.cursor] at hin
  have hbuffer := hat.buffers.shown
  have hcols' : this.cols = cols := hin.cols_eq
  have hrows' : this.rows = rows := hin.rows_eq
  rw [hcols', hrows'] at hbuffer
  refine ⟨this, hfeed, ?_, ?_⟩
  · rw [Terminal.lines, List.length_map, hbuffer.length]
  · intro r line hline
    rw [Terminal.lines, List.getElem?_map, Option.map_eq_some_iff] at hline
    obtain ⟨row, hget, rfl⟩ := hline
    have hrow := hbuffer.row row (List.mem_of_getElem? hget)
    have hstyled : (row.foldl Line.pushCell []).styled = row.flatMap Cell.styled :=
      Line.styled_foldl row []
    have hline : Line.ofRow row = row.foldl Line.pushCell [] := by
      rw [Line.ofRow]
      by_cases hempty : (row.foldl Line.pushCell []).isEmpty = true
      · rw [List.isEmpty_iff.mp hempty] at hstyled
        exact absurd hstyled.symm (hrow.styled_ne_nil (by omega))
      · rw [if_neg hempty]
    have hreduced : Reduced (row.foldl Line.pushCell []).runs :=
      @Line.reduced_foldl width [] row hrow.cell Reduced.nil
    rw [hline]
    refine ⟨row, hget, hstyled, hreduced, fun other hother => ⟨?_, fun hother' => ?_⟩⟩
    · have hle := hreduced.length_le (hstyled.trans hother.symm)
      simpa [Line.runs] using hle
    · have heq := hother'.eq_of_expand_eq hreduced (hother.trans hstyled.symm)
      exact List.map_injective_iff.mpr Span.run_injective heq

/-- A bold stretch on a row that is not: a combining mark joins the span of its character, and the
cell that has not been written to is a span of its own. -/
theorem lines_are_runs_bold : ∃ this,
    (Terminal.new 4 1).feed exampleWidth [.print 'a', .csiDispatch [[1]] [] false 'm', .print 'b',
      .print 'c', .print '\u0301'] = some this ∧
      this.lines = [[⟨['a'], Color.WHITE, none, false, false⟩,
        ⟨['b', 'c', '\u0301'], Color.WHITE, none, true, false⟩,
        ⟨[' '], Color.WHITE, none, false, false⟩]] := by
  obtain ⟨this, hfeed, hlength, hlines⟩ := lines_are_runs exampleWidth (by decide)
    (by decide : 2 ≤ 4) (by decide : 1 ≤ 1) [.print 'a', .csiDispatch [[1]] [] false 'm',
      .print 'b', .print 'c', .print '\u0301']
  refine ⟨this, hfeed, ?_⟩
  have hbuffer : ((Terminal.new 4 1).feed exampleWidth [.print 'a', .csiDispatch [[1]] [] false 'm',
      .print 'b', .print 'c', .print '\u0301']).map Terminal.buffer =
        some [[⟨['a'], Style.default, false⟩, ⟨['b'], { Style.default with bold := true }, false⟩,
          ⟨['c', '\u0301'], { Style.default with bold := true }, false⟩, Cell.blank]] := by decide
  rw [hfeed, Option.map_some, Option.some_inj] at hbuffer
  obtain ⟨line, hline⟩ := List.length_eq_one_iff.mp hlength
  obtain ⟨row, hrow, -, -, hunique⟩ := hlines 0 line (by rw [hline]; rfl)
  rw [hbuffer] at hrow
  obtain rfl := Option.some.inj hrow
  rw [hline, ← (hunique [⟨['a'], Color.WHITE, none, false, false⟩,
    ⟨['b', 'c', '\u0301'], Color.WHITE, none, true, false⟩,
    ⟨[' '], Color.WHITE, none, false, false⟩] (by decide)).2]
  exact ⟨by decide, by simp [Line.runs, Span.run, Span.style]⟩

end ManInTheBox.Emulator
