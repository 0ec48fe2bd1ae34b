import ManInTheBox.Emulator.LineEditing
import ManInTheBox.Emulator.AddressedPrint
import ManInTheBox.Emulator.Lines
import ManInTheBox.Library.Scrollback

/-! # The screen as the end of a roll of paper

As long as the child only prints, feeds lines and edits the line it is on, the screen is
the end of a roll of paper that only grows: no line is lost, what is scrolled away stays
as it was, and the number of rows of the screen makes no difference to the paper.
-/

namespace ManInTheBox.Emulator

open Library

/-- Callbacks that stay on the line of the cursor or go on to the next one. -/
def Callback.stayOnLine : Callback → Bool
  | .print _ | .execute _ | .hook .. | .put _ | .unhook | .oscDispatch .. => true
  | .csiDispatch params intermediates _ action =>
    if action ∈ ['h', 'l'] then !(intermediates.contains 0x3f && params.flatten.contains 1049)
    else action ∉ ['H', 'f', 'A', 'B', 'E', 'F', 'd', 'J', 'L', 'M', 'S', 'T', 'r', 'u']
  | .escDispatch intermediates _ byte => !intermediates.isEmpty || byte ∉ [0x38, 0x4d, 0x63]

/-- The lines above the cursor, its line and column, and the style. -/
structure Paper where
  above : List Row
  line : Row
  col : ℕ
  style : Style
  deriving DecidableEq

/-- The character before a column. -/
def Row.charBefore (col : ℕ) (row : Row) : Option (Option ℕ) :=
  if 0 < col then do
    let col ← checkedSub col 1
    let cell ← row[col]?
    let col ← if cell.wideContinuation && decide (0 < col) then checkedSub col 1 else some col
    let cell ← row[col]?
    some (if cell.wideContinuation then none else some col)
  else some none

namespace Paper

def new (cols : ℕ) : Paper := ⟨[], blankRow cols, 0, Style.default⟩

def rows (paper : Paper) : List Row := paper.above ++ [paper.line]

variable (width : UnicodeWidth) (cols : ℕ)

def moveTo (col : ℕ) (paper : Paper) : Paper := { paper with col }

/-- Go on to a blank line. -/
def feedLine (paper : Paper) : Paper := { paper with above := paper.rows, line := blankRow cols }

def modifyLine (f : Row → Option Row) (paper : Paper) : Paper :=
  { paper with line := (f paper.line).getD paper.line }

/-- Edit the line above the one of the cursor. -/
def modifyPrevious (f : Row → Option Row) (paper : Paper) : Paper :=
  match paper.above.getLast? with
  | some previous => { paper with above := paper.above.dropLast ++ [(f previous).getD previous] }
  | none => paper

def wrap (paper : Paper) : Paper :=
  if cols ≤ paper.col then (paper.moveTo 0).feedLine cols else paper

def makeRoom (c : Char) (paper : Paper) : Paper :=
  if charWidth width c = 2 ∧ paper.col = cols - 1 then (paper.moveTo 0).feedLine cols else paper

/-- A combining character goes to the character before it. -/
def appendCombiningChar (c : Char) (paper : Paper) : Paper :=
  match (paper.line.charBefore paper.col).join with
  | some col => paper.modifyLine (Row.pushText c col)
  | none => paper.modifyPrevious fun previous => do
    let last ← previous.lastBase cols
    match last with
    | some col => previous.pushText c col
    | none => some previous

def putChar (c : Char) (paper : Paper) : Paper :=
  if charWidth width c = 0 then paper.appendCombiningChar cols c
  else
    let paper := paper.makeRoom width cols c
    let paper := paper.modifyLine (Row.writeChar width cols paper.style c paper.col)
    (paper.moveTo (paper.col + charWidth width c)).wrap cols

def execute (byte : UInt8) (paper : Paper) : Paper :=
  match byte with
  | 0x0a => paper.feedLine cols
  | 0x0d => paper.moveTo 0
  | 0x09 => paper.moveTo (min ((paper.col + 8) / 8 * 8) (cols - 1))
  | 0x08 => paper.moveTo (paper.col - 1)
  | _ => paper

/-- How a control sequence edits the line. -/
def lineEdit (params : Params) (action : Char) (col : ℕ) : Option RowEdit :=
  match action with
  | 'K' =>
    match paramAt params 0 0 with
    | 0 => some (.erase col cols)
    | 1 => some (.erase 0 (col + 1))
    | 2 => some (.erase 0 cols)
    | _ => none
  | 'X' => some (.erase col (min (col + paramCount params 1) cols))
  | '@' => some (.insert col (paramCount params 1))
  | 'P' => some (.delete col (paramCount params 1))
  | _ => none

def csiDispatch (params : Params) (action : Char) (paper : Paper) : Paper :=
  match action with
  | 'C' => paper.moveTo (min (paper.col + paramCount params 1) (cols - 1))
  | 'D' => paper.moveTo (paper.col - paramCount params 1)
  | 'G' => paper.moveTo (min (paramAt params 0 1 - 1) (cols - 1))
  | 'm' => { paper with style := paper.style.select params }
  | action =>
    match lineEdit cols params action paper.col with
    | some edit => paper.modifyLine fun row => some (edit.applied width paper.style row)
    | none => paper

def escDispatch (intermediates : List UInt8) (byte : UInt8) (paper : Paper) : Paper :=
  match intermediates, byte with
  | [], 0x44 => paper.feedLine cols
  | [], 0x45 => (paper.feedLine cols).moveTo 0
  | _, _ => paper

def perform (paper : Paper) : Callback → Paper
  | .print c => paper.putChar width cols c
  | .execute byte => paper.execute cols byte
  | .csiDispatch params _ _ action => paper.csiDispatch width cols params action
  | .escDispatch intermediates _ byte => paper.escDispatch cols intermediates byte
  | .hook .. | .put _ | .unhook | .oscDispatch .. => paper

/-- What the callbacks leave on the paper. -/
def typed (callbacks : List Callback) : Paper := callbacks.foldl (perform width cols) (new cols)

end Paper

/-- The screen shows the end of the paper, and the cursor is on its last line. -/
structure Shows (cols rows : ℕ) (paper : Paper) (this : Terminal) : Prop where
  cols_eq : this.cols = cols
  rows_eq : this.rows = rows
  buffer : this.buffer = bottomOf (blankRow cols) rows paper.rows
  row : this.cursorRow = min paper.above.length (rows - 1)
  col : this.cursorCol = paper.col
  style : this.style = paper.style
  top : this.scrollTop = 0
  bottom : this.scrollBottom = rows - 1

/-! ## The steps of an operation -/

variable {width : UnicodeWidth} {cols rows : ℕ} {paper : Paper} {this next : Terminal}

namespace Shows

theorem new (hcols : 0 < cols) (hrows : 0 < rows) :
    Shows cols rows (Paper.new cols) (Terminal.new cols rows) where
  cols_eq := max_eq_left hcols
  rows_eq := max_eq_left hrows
  buffer := by
    have hpad : [blankRow cols] ++ List.replicate (rows - 1) (blankRow cols) =
        List.replicate rows (blankRow cols) := by
      rw [List.singleton_append, ← List.replicate_succ, Nat.sub_add_cancel hrows]
    have hpaper : (Paper.new cols).rows = [blankRow cols] := rfl
    rw [hpaper, bottomOf_of_le (by exact hrows), List.length_singleton, hpad, Terminal.new,
      max_eq_left (by omega : 1 ≤ cols), max_eq_left (by omega : 1 ≤ rows)]
  row := (Nat.zero_min _).symm
  col := rfl
  style := rfl
  top := rfl
  bottom := by rw [Terminal.new, max_eq_left (by omega : 1 ≤ rows)]

theorem moveTo (h : Shows cols rows paper this) (col : ℕ) :
    Shows cols rows (paper.moveTo col) (this.setCursor this.cursorRow col) :=
  ⟨h.cols_eq, h.rows_eq, h.buffer, h.row, rfl, h.style, h.top, h.bottom⟩

theorem length (h : Shows cols rows paper this) : this.buffer.length = rows := by
  rw [h.buffer, length_bottomOf]

theorem line (h : Shows cols rows paper this) (hrows : 0 < rows) :
    this.buffer[this.cursorRow]? = some paper.line := by
  rw [h.buffer, h.row]
  exact getElem?_bottomOf_last hrows

theorem inside (h : Shows cols rows paper this) (hrows : 0 < rows) :
    this.cursorRow < this.rows := by
  rw [h.row, h.rows_eq]
  omega

theorem modifyLine (h : Shows cols rows paper this) (hrows : 0 < rows) {f : Row → Option Row}
    (hnext : this.modifyRow this.cursorRow f = some next) :
    Shows cols rows (paper.modifyLine f) next := by
  simp only [Terminal.modifyRow, h.line hrows, Option.bind_eq_bind, Option.bind_some] at hnext
  cases hf : f paper.line with
  | none => simp [hf] at hnext
  | some line =>
    have hlt : this.cursorRow < this.buffer.length := by
      rw [h.length, h.row]
      omega
    rw [hf, Option.bind_some, Terminal.setRow, if_pos hlt] at hnext
    obtain rfl := Option.some.inj hnext
    refine ⟨h.cols_eq, h.rows_eq, ?_, h.row, h.col, h.style, h.top, h.bottom⟩
    have hset := @bottomOf_set_last _ (blankRow cols) paper.line line rows paper.above hrows
    simpa [Terminal.withBuffer, Paper.modifyLine, Paper.rows, hf, h.buffer, h.row] using hset

/-- A line feed scrolls exactly if the screen is full. -/
theorem linefeed (h : Shows cols rows paper this) (hrows : 0 < rows)
    (hnext : this.linefeed = some next) : Shows cols rows (paper.feedLine cols) next := by
  have hlength : paper.rows.length = paper.above.length + 1 := by simp [Paper.rows]
  have hfed : (paper.feedLine cols).rows = paper.rows ++ [blankRow cols] := rfl
  have hrow := h.row
  by_cases hfull : rows ≤ paper.above.length + 1
  · have hlast : this.cursorRow = this.scrollBottom := by
      rw [h.bottom]
      omega
    have hscroll : this.scrollUpRegion this.scrollTop this.scrollBottom 1 =
        some (this.withBuffer (shiftUp (blankRow cols) 0 (rows - 1) 1 this.buffer)) := by
      have hregion := @Terminal.scrollUpRegion_eq this 0 (rows - 1) (h.length.trans h.rows_eq.symm)
        (Nat.zero_le _) (by rw [h.rows_eq]; omega) 1
      rwa [h.top, h.bottom, ← h.cols_eq]
    rw [Terminal.linefeed, if_pos hlast, hscroll] at hnext
    obtain rfl := Option.some.inj hnext
    refine ⟨h.cols_eq, h.rows_eq, ?_, ?_, h.col, h.style, h.top, h.bottom⟩
    · rw [hfed, bottomOf_concat_of_le hrows (by omega), ← h.buffer]
      rfl
    · have hsame : this.cursorRow = min paper.rows.length (rows - 1) := by omega
      exact hsame
  · have hmiddle : ¬ this.cursorRow = this.scrollBottom := by
      rw [h.bottom]
      omega
    have hroom : this.cursorRow < this.rows - 1 := by
      rw [h.rows_eq]
      omega
    rw [Terminal.linefeed, if_neg hmiddle, if_pos hroom] at hnext
    obtain rfl := Option.some.inj hnext
    refine ⟨h.cols_eq, h.rows_eq, ?_, ?_, h.col, h.style, h.top, h.bottom⟩
    · rw [hfed, bottomOf_concat_of_lt (by omega)]
      exact h.buffer
    · have hdown : this.cursorRow + 1 = min paper.rows.length (rows - 1) := by omega
      exact hdown

theorem wrap (h : Shows cols rows paper this) (hrows : 0 < rows) (hnext : this.wrap = some next) :
    Shows cols rows (paper.wrap cols) next := by
  rw [Terminal.wrap, h.cols_eq, h.col] at hnext
  unfold Paper.wrap
  split_ifs at hnext ⊢
  · exact (h.moveTo 0).linefeed hrows hnext
  · exact Option.some.inj hnext ▸ h

theorem makeRoom (h : Shows cols rows paper this) (hrows : 0 < rows) {c : Char}
    (hnext : this.makeRoom width c = some next) :
    Shows cols rows (paper.makeRoom width cols c) next := by
  rw [Terminal.makeRoom, h.cols_eq, h.col] at hnext
  unfold Paper.makeRoom
  split_ifs at hnext ⊢
  · exact (h.moveTo 0).linefeed hrows hnext
  · exact Option.some.inj hnext ▸ h

/-! ## Combining characters -/

theorem charBefore (h : Shows cols rows paper this) (hrows : 0 < rows) :
    this.charBefore = paper.line.charBefore paper.col := by
  simp only [Terminal.charBefore, Row.charBefore, h.line hrows, h.col, Option.bind_eq_bind,
    Option.bind_some]

/-- A screen of one row does not show the line above. -/
theorem modifyPrevious_of_top (h : Shows cols rows paper this) (hrows : 0 < rows)
    (htop : ¬ 0 < this.cursorRow) (f : Row → Option Row) :
    Shows cols rows (paper.modifyPrevious f) this := by
  unfold Paper.modifyPrevious
  cases habove : paper.above.getLast? with
  | none => exact h
  | some previous =>
    have hlast : paper.above = paper.above.dropLast ++ [previous] := by
      rw [List.dropLast_append_getLast? _ habove]
    have hone : rows = 1 := by
      have hpos := congrArg List.length hlast
      have hrow := h.row
      rw [List.length_append, List.length_singleton] at hpos
      omega
    have hlength : (paper.above.dropLast ++ [(f previous).getD previous]).length =
        paper.above.length := by
      conv_rhs => rw [hlast]
      simp
    refine ⟨h.cols_eq, h.rows_eq, ?_, ?_, h.col, h.style, h.top, h.bottom⟩
    · have hbuffer := h.buffer
      rw [Paper.rows, bottomOf, List.length_append, List.length_singleton, hone,
        Nat.add_sub_cancel, List.drop_left] at hbuffer
      rw [hbuffer, Paper.rows, bottomOf, List.length_append, List.length_singleton, hone,
        Nat.add_sub_cancel, List.drop_left]
      simp
    · rw [hlength]
      exact h.row

theorem previous (h : Shows cols rows paper this) (hpos : 0 < this.cursorRow) :
    ∃ above previous, paper.above = above ++ [previous] ∧ 2 ≤ rows ∧
      this.buffer[this.cursorRow - 1]? = some previous := by
  have hrow := h.row
  rcases List.eq_nil_or_concat paper.above with hnil | ⟨above, previous, habove⟩
  · rw [hnil, List.length_nil] at hrow
    omega
  · rw [List.concat_eq_append] at habove
    refine ⟨above, previous, habove, by omega, ?_⟩
    have hget := @getElem?_bottomOf_previous _ (blankRow cols) previous paper.line rows above
      (by omega)
    rw [h.buffer, hrow, Paper.rows, habove, List.append_assoc, List.length_append,
      List.length_singleton]
    exact hget

/-- The line above is edited on the screen if there is more than one row. -/
theorem modifyPrevious (h : Shows cols rows paper this) (hpos : 0 < this.cursorRow)
    {f : Row → Option Row} (hnext : this.modifyRow (this.cursorRow - 1) f = some next) :
    Shows cols rows (paper.modifyPrevious f) next := by
  obtain ⟨above, previous, habove, hrows, hget⟩ := h.previous hpos
  simp only [Terminal.modifyRow, hget, Option.bind_eq_bind, Option.bind_some] at hnext
  cases hf : f previous with
  | none => simp [hf] at hnext
  | some edited =>
    have hlt := (List.getElem?_eq_some_iff.mp hget).1
    rw [hf, Option.bind_some, Terminal.setRow, if_pos hlt] at hnext
    obtain rfl := Option.some.inj hnext
    have hrow := h.row
    rw [habove, List.length_append, List.length_singleton] at hrow
    have hpaper : paper.modifyPrevious f = { paper with above := above ++ [edited] } := by
      simp [Paper.modifyPrevious, habove, hf]
    rw [hpaper]
    refine ⟨h.cols_eq, h.rows_eq, ?_, ?_, h.col, h.style, h.top, h.bottom⟩
    · have hset := @bottomOf_set _ (blankRow cols) rows (above ++ [previous, paper.line])
        above.length (by simp; omega) edited
      rw [if_pos (by simp)] at hset
      have hplace : above.length - ((above ++ [previous, paper.line]).length - rows) =
          this.cursorRow - 1 := by
        rw [List.length_append, List.length_cons, List.length_singleton]
        omega
      rw [hplace] at hset
      simpa [Terminal.withBuffer, Paper.rows, h.buffer, habove] using hset.symm
    · simpa [Terminal.withBuffer] using hrow

theorem appendCombiningChar (h : Shows cols rows paper this) (hrows : 0 < rows) {c : Char}
    (hclamp : this.clampCursor = this) (hnext : this.appendCombiningChar c = some next) :
    Shows cols rows (paper.appendCombiningChar cols c) next := by
  rw [Terminal.appendCombiningChar, hclamp, h.charBefore hrows] at hnext
  unfold Paper.appendCombiningChar
  cases hbefore : paper.line.charBefore paper.col with
  | none => simp [hbefore] at hnext
  | some before =>
    simp only [hbefore, Option.bind_eq_bind, Option.bind_some] at hnext
    rw [Option.join_some]
    cases before with
    | some col => exact h.modifyLine hrows hnext
    | none =>
      simp only at hnext ⊢
      by_cases hpos : 0 < this.cursorRow
      · obtain ⟨above, previous, habove, -, hget⟩ := h.previous hpos
        rw [if_pos hpos, Terminal.checkedSub_of_le (by omega : 1 ≤ this.cursorRow),
          Option.bind_some, hget, Option.bind_some, h.cols_eq] at hnext
        apply h.modifyPrevious hpos
        cases hlast : previous.lastBase cols with
        | none => simp [hlast] at hnext
        | some last =>
          rw [hlast, Option.bind_some] at hnext
          cases last with
          | some col =>
            simp only [Terminal.modifyRow, hget, Option.bind_eq_bind, Option.bind_some,
              hlast] at hnext ⊢
            exact hnext
          | none =>
            have hlt := (List.getElem?_eq_some_iff.mp hget).1
            obtain rfl := Option.some.inj hnext
            have hsame : this.buffer.set (this.cursorRow - 1) previous = this.buffer := by
              apply List.ext_getElem?
              intro i
              rw [List.getElem?_set]
              split_ifs with hi
              · rw [← hi, hget]
              · rfl
            simp only [Terminal.modifyRow, hget, hlast, Terminal.setRow, if_pos hlt,
              Terminal.withBuffer, hsame, Option.bind_eq_bind, Option.bind_some]
      · rw [if_neg hpos] at hnext
        obtain rfl := Option.some.inj hnext
        exact h.modifyPrevious_of_top hrows hpos _

theorem putChar (h : Shows cols rows paper this) (hrows : 0 < rows)
    (hin : this.cursor.Inside cols rows) {c : Char} (hnext : this.putChar width c = some next) :
    Shows cols rows (paper.putChar width cols c) next := by
  have hclamp := Terminal.clampCursor_eq hin
  have hcol : this.cursorCol < this.cols := hin.col_lt.trans_eq hin.cols_eq.symm
  unfold Terminal.putChar at hnext
  unfold Paper.putChar
  split_ifs at hnext ⊢
  · exact h.appendCombiningChar hrows hclamp hnext
  · have hwrap : this.clampCursor.wrap = some this := by
      rw [hclamp]
      exact if_neg (by omega)
    rw [hwrap, Option.bind_eq_bind, Option.bind_some, Option.bind_eq_some_iff] at hnext
    obtain ⟨room, hroom, hnext⟩ := hnext
    obtain ⟨written, hwritten, hnext⟩ := Option.bind_eq_some_iff.mp hnext
    have hroomShown := h.makeRoom hrows hroom
    rw [hroomShown.cols_eq, hroomShown.style, hroomShown.col] at hwritten
    have hwrittenShown := hroomShown.modifyLine hrows hwritten
    rw [hwrittenShown.col] at hnext
    exact (hwrittenShown.moveTo _).wrap hrows hnext

/-! ## Every callback -/

theorem execute (h : Shows cols rows paper this) (hrows : 0 < rows) {byte : UInt8}
    (hnext : this.execute byte = some next) : Shows cols rows (paper.execute cols byte) next := by
  unfold Terminal.execute at hnext
  unfold Paper.execute
  split at hnext
  · exact h.linefeed hrows hnext
  · exact Option.some.inj hnext ▸ h.moveTo 0
  · obtain rfl := Option.some.inj hnext
    rw [h.cols_eq, h.col]
    exact h.moveTo _
  · split_ifs at hnext with hpos
    · rw [Terminal.checkedSub_of_le hpos, Option.bind_eq_bind, Option.bind_some] at hnext
      obtain rfl := Option.some.inj hnext
      rw [h.col]
      exact h.moveTo _
    · have hzero : paper.col - 1 = paper.col := by
        have hcol := h.col
        omega
      obtain rfl := Option.some.inj hnext
      rw [hzero]
      exact h
  · obtain rfl := Option.some.inj hnext
    simpa using h

/-- Of the edits of several lines, those that stay on the line of the cursor. -/
theorem lineEdit (h : Shows cols rows paper this) (hin : this.cursor.Inside cols rows)
    (params : Params) {action : Char} (haction : action ≠ 'J') (r : ℕ) :
    this.lineEdit params action r =
      if r = this.cursorRow then Paper.lineEdit cols params action paper.col else none := by
  have hrow : min this.cursorRow (this.rows - 1) = this.cursorRow := by
    have hlt : this.cursorRow < this.rows := hin.row_lt.trans_eq hin.rows_eq.symm
    omega
  have hcol : min this.cursorCol (cols - 1) = paper.col := by
    have hlt : this.cursorCol < cols := hin.col_lt
    rw [← h.col]
    omega
  simp only [Terminal.lineEdit, hrow, h.cols_eq, hcol]
  unfold Paper.lineEdit
  split
  · exact absurd rfl haction
  · rfl
  · rfl
  · rfl
  · rfl
  · simp

theorem edit (h : Shows cols rows paper this) (hrows : 0 < rows)
    (hin : this.cursor.Inside cols rows) (hsized : this.Sized) {params : Params}
    {intermediates : List UInt8} {action : Char} (haction : action ∈ ['K', 'X', '@', 'P'])
    (hnext : this.csiDispatch width params intermediates action = some next) :
    Shows cols rows (paper.csiDispatch width cols params action) next := by
  have hedit : action ∈ ['J', 'K', 'X', '@', 'P'] := List.mem_cons_of_mem _ haction
  have hother : action ≠ 'J' ∧ action ≠ 'C' ∧ action ≠ 'D' ∧ action ≠ 'G' ∧ action ≠ 'm' := by
    simp only [List.mem_cons, List.not_mem_nil, or_false] at haction
    rcases haction with rfl | rfl | rfl | rfl <;> decide
  rw [Terminal.csiDispatch_edit hsized params intermediates hedit] at hnext
  obtain rfl := Option.some.inj hnext
  have hrow := h.lineEdit hin params hother.1
  rw [funext hrow]
  cases hline : Paper.lineEdit cols params action paper.col with
  | none =>
    have hpaper : paper.csiDispatch width cols params action = paper := by
      simp [Paper.csiDispatch, hother, hline]
    simpa only [hpaper, ite_self, Terminal.editRows_none] using h
  | some edit =>
    have hpaper : paper.csiDispatch width cols params action =
        paper.modifyLine fun row => some (edit.applied width paper.style row) := by
      simp [Paper.csiDispatch, hother, hline]
    rw [hpaper]
    apply h.modifyLine hrows
    rw [← h.style]
    have hmodify : this.modifyRow this.cursorRow
        (fun row => some (edit.applied width this.style row)) =
        some (this.editRow width this.cursorRow edit this.style) := by
      rw [Terminal.editRow_eq (h.line hrows)]
      exact Terminal.modifyRow_eq (h.line hrows) rfl
    exact hmodify

theorem saveCursor (h : Shows cols rows paper this) : Shows cols rows paper this.saveCursor :=
  ⟨h.cols_eq, h.rows_eq, h.buffer, h.row, h.col, h.style, h.top, h.bottom⟩

theorem privateModes {modes : List UInt16} (hmodes : 1049 ∉ modes) (set : Bool) :
    modes.foldlM (fun (this : Terminal) value => this.handlePrivateMode value set) this =
      some this := by
  induction modes with
  | nil => rfl
  | cons mode modes ih =>
    have hmode : mode ≠ 1049 := fun heq => hmodes (heq ▸ List.mem_cons_self ..)
    rw [List.foldlM_cons, Terminal.handlePrivateMode, if_neg hmode, Option.bind_eq_bind,
      Option.bind_some]
    exact ih fun hmem => hmodes (List.mem_cons_of_mem _ hmem)

theorem csiDispatch (h : Shows cols rows paper this) (hrows : 0 < rows)
    (hin : this.cursor.Inside cols rows) (hsized : this.Sized) {params : Params}
    {intermediates : List UInt8} {ignore : Bool} {action : Char}
    (hstay : (Callback.csiDispatch params intermediates ignore action).stayOnLine = true)
    (hnext : this.csiDispatch width params intermediates action = some next) :
    Shows cols rows (paper.csiDispatch width cols params action) next := by
  by_cases hedit : action ∈ ['K', 'X', '@', 'P']
  · exact h.edit hrows hin hsized hedit hnext
  · have hnone : Paper.lineEdit cols params action paper.col = none := by
      unfold Paper.lineEdit
      split <;> simp at hedit ⊢
    unfold Terminal.csiDispatch at hnext
    split at hnext
    case h_5 =>
      obtain rfl := Option.some.inj hnext
      rw [h.col, h.cols_eq]
      exact h.moveTo _
    case h_6 =>
      obtain rfl := Option.some.inj hnext
      rw [h.col]
      exact h.moveTo _
    case h_9 =>
      obtain rfl := Option.some.inj hnext
      rw [h.cols_eq]
      exact h.moveTo _
    case h_11 =>
      obtain rfl := Option.some.inj hnext
      refine ⟨h.cols_eq, h.rows_eq, h.buffer, h.row, h.col, ?_, h.top, h.bottom⟩
      exact congrArg (Style.select · params) h.style
    case h_13 | h_14 | h_15 | h_16 => exact absurd hedit (by decide)
    case h_22 => exact Option.some.inj hnext ▸ h.saveCursor
    case h_24 | h_25 =>
      have hnot : intermediates.contains 0x3f = true → 1049 ∉ params.flatten := by
        intro hprivate hmem
        simp_all [Callback.stayOnLine]
      split_ifs at hnext with hprivate
      · rw [privateModes (hnot hprivate)] at hnext
        exact Option.some.inj hnext ▸ h
      · exact Option.some.inj hnext ▸ h
    case h_26 =>
      obtain rfl := Option.some.inj hnext
      have hpaper : paper.csiDispatch width cols params action = paper := by
        simp_all [Paper.csiDispatch]
      rw [hpaper]
      exact h
    all_goals simp [Callback.stayOnLine] at hstay

theorem escDispatch (h : Shows cols rows paper this) (hrows : 0 < rows)
    {intermediates : List UInt8} {ignore : Bool} {byte : UInt8}
    (hstay : (Callback.escDispatch intermediates ignore byte).stayOnLine = true)
    (hnext : this.escDispatch intermediates byte = some next) :
    Shows cols rows (paper.escDispatch cols intermediates byte) next := by
  unfold Terminal.escDispatch at hnext
  split at hnext
  case h_1 => exact Option.some.inj hnext ▸ h.saveCursor
  case h_3 => exact h.linefeed hrows hnext
  case h_4 =>
    obtain ⟨fed, hfed, hnext⟩ := Option.bind_eq_some_iff.mp hnext
    exact Option.some.inj hnext ▸ (h.linefeed hrows hfed).moveTo 0
  case h_7 =>
    obtain rfl := Option.some.inj hnext
    have hpaper : paper.escDispatch cols intermediates byte = paper := by
      unfold Paper.escDispatch
      split <;> simp_all
    rw [hpaper]
    exact h
  all_goals simp [Callback.stayOnLine] at hstay

theorem perform (h : Shows cols rows paper this) (hrows : 0 < rows)
    (hin : this.cursor.Inside cols rows) (hsized : this.Sized) {callback : Callback}
    (hstay : callback.stayOnLine = true) (hnext : this.perform width callback = some next) :
    Shows cols rows (paper.perform width cols callback) next := by
  cases callback with
  | print c => exact h.putChar hrows hin hnext
  | execute byte => exact h.execute hrows hnext
  | csiDispatch params intermediates ignore action =>
    exact h.csiDispatch hrows hin hsized hstay hnext
  | escDispatch intermediates ignore byte => exact h.escDispatch hrows hstay hnext
  | hook | put | unhook | oscDispatch => exact Option.some.inj hnext ▸ h

end Shows

/-- A whole run, on a screen of any size. -/
theorem shows_of_feed (hspace : width ' ' = some 1) (hcols : 0 < cols) (hrows : 0 < rows)
    {callbacks : List Callback} (hstay : ∀ callback ∈ callbacks, callback.stayOnLine = true)
    (hreached : (Terminal.new cols rows).feed width callbacks = some this) :
    Shows cols rows (Paper.typed width cols callbacks) this := by
  induction callbacks using List.reverseRecOn generalizing this with
  | nil => exact Option.some.inj hreached ▸ Shows.new hcols hrows
  | append_singleton callbacks callback ih =>
    rw [Terminal.feed, List.foldlM_append, ← Terminal.feed] at hreached
    obtain ⟨before, hbefore, hlast⟩ := Option.bind_eq_some_iff.mp hreached
    have hshows := ih (fun other hother => hstay other (List.mem_append_left _ hother)) hbefore
    have hin := (Terminal.ok_of_feed_new hspace hbefore).2
    rw [max_eq_left hcols, max_eq_left hrows] at hin
    have hsized := (Terminal.sized_of_feed_new hspace hbefore).1
    rw [Paper.typed, List.foldl_append, ← Paper.typed]
    apply hshows.perform hrows hin hsized (hstay callback (by simp))
    simpa using hlast

/-! ## The paper only grows -/

namespace Paper

/-- All lines but the last two stay as they are, and the lines do not get fewer. -/
structure GrowsTo (paper paper' : Paper) : Prop where
  kept : paper.above.dropLast <+: paper'.above.dropLast
  length : paper.above.length ≤ paper'.above.length

namespace GrowsTo

variable {width : UnicodeWidth} {cols : ℕ} {paper paper' paper'' : Paper}

theorem refl (paper : Paper) : GrowsTo paper paper := ⟨List.prefix_refl _, le_rfl⟩

theorem trans (h : GrowsTo paper paper') (h' : GrowsTo paper' paper'') : GrowsTo paper paper'' :=
  ⟨h.kept.trans h'.kept, h.length.trans h'.length⟩

/-- What happens on the line of the cursor does not concern the others. -/
theorem of_above (h : paper'.above = paper.above) : GrowsTo paper paper' where
  kept := by rw [h]
  length := by rw [h]

theorem feedLine (paper : Paper) : GrowsTo paper (paper.feedLine cols) where
  kept := by
    rw [Paper.feedLine, rows, List.dropLast_concat]
    exact List.dropLast_prefix _
  length := by simp [Paper.feedLine, rows]

theorem modifyPrevious (paper : Paper) (f : Row → Option Row) :
    GrowsTo paper (paper.modifyPrevious f) := by
  unfold Paper.modifyPrevious
  split
  · rename_i previous habove
    have hpos : 0 < paper.above.length := by
      rw [List.length_pos_iff]
      rintro hnil
      simp [hnil] at habove
    constructor
    · rw [List.dropLast_concat]
    · rw [List.length_append, List.length_dropLast, List.length_singleton]
      omega
  · exact refl paper

theorem startLine (paper : Paper) : GrowsTo paper ((paper.moveTo 0).feedLine cols) :=
  (@of_above paper (paper.moveTo 0) rfl).trans (feedLine _)

theorem wrap (paper : Paper) : GrowsTo paper (paper.wrap cols) := by
  unfold Paper.wrap
  split_ifs
  · exact startLine paper
  · exact refl paper

theorem makeRoom (paper : Paper) (c : Char) : GrowsTo paper (paper.makeRoom width cols c) := by
  unfold Paper.makeRoom
  split_ifs
  · exact startLine paper
  · exact refl paper

theorem putChar (paper : Paper) (c : Char) : GrowsTo paper (paper.putChar width cols c) := by
  unfold Paper.putChar
  split_ifs
  · unfold appendCombiningChar
    split
    · exact of_above rfl
    · exact modifyPrevious paper _
  · apply (makeRoom paper c).trans
    have hwrite : GrowsTo (paper.makeRoom width cols c)
        (((paper.makeRoom width cols c).modifyLine (Row.writeChar width cols
          (paper.makeRoom width cols c).style c (paper.makeRoom width cols c).col)).moveTo
            ((paper.makeRoom width cols c).col + charWidth width c)) := of_above rfl
    exact hwrite.trans (wrap _)

theorem perform (paper : Paper) (callback : Callback) :
    GrowsTo paper (paper.perform width cols callback) := by
  cases callback with
  | print c => exact putChar paper c
  | execute byte =>
    simp only [Paper.perform, Paper.execute]
    split
    · exact feedLine paper
    all_goals exact of_above rfl
  | csiDispatch params intermediates ignore action =>
    simp only [Paper.perform, Paper.csiDispatch]
    split
    case h_5 =>
      split
      · exact of_above rfl
      · exact refl paper
    all_goals exact of_above rfl
  | escDispatch intermediates ignore byte =>
    simp only [Paper.perform, Paper.escDispatch]
    split
    · exact feedLine paper
    · exact GrowsTo.trans (@feedLine cols paper) (of_above rfl)
    · exact refl paper
  | hook | put | unhook | oscDispatch => exact refl paper

theorem run (paper : Paper) (callbacks : List Callback) :
    GrowsTo paper (callbacks.foldl (Paper.perform width cols) paper) := by
  induction callbacks generalizing paper with
  | nil => exact refl paper
  | cons callback callbacks ih => exact (perform paper callback).trans (ih _)

end GrowsTo

end Paper

/-- Every screen of at least two columns shows the end of the same paper, whatever the number of its
rows; the paper only grows; and of two screens, the smaller one shows the end of the larger one, once
there is paper for all of its rows. -/
theorem screen_shows_paper (width : UnicodeWidth) (hspace : width ' ' = some 1) {cols : ℕ}
    (hcols : 2 ≤ cols) {callbacks : List Callback}
    (hstay : ∀ callback ∈ callbacks, callback.stayOnLine = true) :
    (∀ rows, 0 < rows → ∃ this, (Terminal.new cols rows).feed width callbacks = some this ∧
      Shows cols rows (Paper.typed width cols callbacks) this) ∧
    (∀ first later, callbacks = first ++ later →
      (Paper.typed width cols first).GrowsTo (Paper.typed width cols callbacks)) ∧
    ∀ rows rows' this this', 0 < rows → rows ≤ rows' →
      rows' ≤ (Paper.typed width cols callbacks).rows.length →
      (Terminal.new cols rows).feed width callbacks = some this →
      (Terminal.new cols rows').feed width callbacks = some this' →
      this.buffer = this'.buffer.drop (rows' - rows) := by
  refine ⟨?_, ?_, ?_⟩
  · intro rows hrows
    obtain ⟨this, hfeed, -⟩ := screen_wellFormed width hspace cols rows hcols hrows callbacks
    exact ⟨this, hfeed, shows_of_feed hspace (by omega) hrows hstay hfeed⟩
  · rintro first later rfl
    have htyped : Paper.typed width cols (first ++ later) =
        later.foldl (Paper.perform width cols) (Paper.typed width cols first) :=
      List.foldl_append
    rw [htyped]
    exact Paper.GrowsTo.run _ later
  · intro rows rows' this this' hrows hle hfull hfeed hfeed'
    have hshows := shows_of_feed hspace (by omega) hrows hstay hfeed
    have hshows' := shows_of_feed hspace (by omega) (by omega) hstay hfeed'
    rw [hshows.buffer, ← bottomOf_bottomOf hle hfull, ← hshows'.buffer, bottomOf, hshows'.length,
      Nat.sub_eq_zero_of_le hle, List.replicate_zero, List.append_nil]

/-- Three lines on two rows: the first one has gone, and a wide character has moved on to the
third. -/
theorem screen_shows_paper_scrolled :
    ∃ this, (Terminal.new 3 2).feed exampleWidth
        [.print 'a', .execute 0x0d, .execute 0x0a, .print 'b', .print 'b', .print '世'] = some this ∧
      Shows 3 2 (Paper.typed exampleWidth 3
        [.print 'a', .execute 0x0d, .execute 0x0a, .print 'b', .print 'b', .print '世']) this :=
  (screen_shows_paper exampleWidth (by decide) (by decide) (by decide)).1 2 (by decide)

end ManInTheBox.Emulator
