import ManInTheBox.Emulator.Row

/-! # The screen of the viewer

The box draws the output of the child on a screen of its own: a buffer of rows, a
cursor, a style, a scroll region, and the main screen that waits while the alternate
one is shown.
-/

namespace ManInTheBox.Emulator

structure SavedScreen where
  buffer : List Row
  cursorRow : ℕ
  cursorCol : ℕ
  style : Style
  savedCursor : ℕ × ℕ
  scrollTop : ℕ
  scrollBottom : ℕ
  deriving DecidableEq

structure Terminal where
  buffer : List Row
  cursorRow : ℕ
  cursorCol : ℕ
  cols : ℕ
  rows : ℕ
  style : Style
  savedCursor : ℕ × ℕ
  scrollTop : ℕ
  scrollBottom : ℕ
  alternateScreen : Bool
  savedMainScreen : Option SavedScreen
  deriving DecidableEq

namespace Terminal

def new (cols rows : ℕ) : Terminal where
  buffer := List.replicate (max rows 1) (blankRow (max cols 1))
  cursorRow := 0
  cursorCol := 0
  cols := max cols 1
  rows := max rows 1
  style := Style.default
  savedCursor := (0, 0)
  scrollTop := 0
  scrollBottom := max rows 1 - 1
  alternateScreen := false
  savedMainScreen := none

/-! ## The buffer -/

def withBuffer (this : Terminal) (buffer : List Row) : Terminal := { this with buffer }

/-- `buffer[row] = cells`. -/
def setRow (row : ℕ) (cells : Row) (this : Terminal) : Option Terminal :=
  if row < this.buffer.length then some (this.withBuffer (this.buffer.set row cells)) else none

/-- Work on the cells of `buffer[row]`. -/
def modifyRow (row : ℕ) (f : Row → Option Row) (this : Terminal) : Option Terminal := do
  let cells ← this.buffer[row]?
  let cells ← f cells
  this.setRow row cells

/-- `buffer[target] = buffer[source].clone()`. -/
def copyRow (source target : ℕ) (this : Terminal) : Option Terminal := do
  let cells ← this.buffer[source]?
  this.setRow target cells

/-- Move the rows from `top` on down by one, over the row `bottom`, and blank the row `top`. -/
def shiftRowsDown (top bottom : ℕ) (this : Terminal) : Option Terminal := do
  let this ← (List.range' (top + 1) (bottom - top)).reverse.foldlM
    (fun (this : Terminal) idx => do
      let source ← checkedSub idx 1
      this.copyRow source idx) this
  this.setRow top (blankRow this.cols)

/-- Move the rows up to `bottom` up by one, over the row `top`, and blank the row `bottom`. -/
def shiftRowsUp (top bottom : ℕ) (this : Terminal) : Option Terminal := do
  let this ← (List.range' top (bottom - top)).foldlM
    (fun (this : Terminal) idx => this.copyRow (idx + 1) idx) this
  this.setRow bottom (blankRow this.cols)

/-- `for _ in 0..count`. -/
def repeated (count : ℕ) (f : Terminal → Option Terminal) (this : Terminal) : Option Terminal :=
  (List.range count).foldlM (fun this _ => f this) this

/-- `for row in 0..rows { buffer[row] = blank_row(cols) }`. -/
def blankRows (this : Terminal) : Option Terminal :=
  (List.range this.rows).foldlM (fun (this : Terminal) row => this.setRow row (blankRow this.cols))
    this

/-! ## The cursor -/

/-- Put the cursor somewhere. -/
def setCursor (this : Terminal) (row col : ℕ) : Terminal :=
  { this with cursorRow := row, cursorCol := col }

def clampCursor (this : Terminal) : Terminal :=
  this.setCursor (min this.cursorRow (this.rows - 1)) (min this.cursorCol (this.cols - 1))

def saveCursor (this : Terminal) : Terminal :=
  { this with savedCursor := (this.cursorRow, this.cursorCol) }

def restoreCursor (this : Terminal) : Terminal :=
  this.setCursor (min this.savedCursor.1 (this.rows - 1)) (min this.savedCursor.2 (this.cols - 1))

/-! ## Scrolling -/

def scrollUpRegion (top bottom count : ℕ) (this : Terminal) : Option Terminal :=
  if this.rows ≤ top ∨ this.rows ≤ bottom ∨ bottom < top then some this
  else
    let lines := bottom - top + 1
    this.repeated (min count lines) (shiftRowsUp top bottom)

def scrollDownRegion (top bottom count : ℕ) (this : Terminal) : Option Terminal :=
  if this.rows ≤ top ∨ this.rows ≤ bottom ∨ bottom < top then some this
  else
    let lines := bottom - top + 1
    this.repeated (min count lines) (shiftRowsDown top bottom)

def linefeed (this : Terminal) : Option Terminal :=
  if this.cursorRow = this.scrollBottom then
    this.scrollUpRegion this.scrollTop this.scrollBottom 1
  else if this.cursorRow < this.rows - 1 then
    some (this.setCursor (this.cursorRow + 1) this.cursorCol)
  else this.scrollUpRegion 0 (this.rows - 1) 1

def reverseIndex (this : Terminal) : Option Terminal :=
  if this.cursorRow = this.scrollTop then
    this.scrollDownRegion this.scrollTop this.scrollBottom 1
  else if 0 < this.cursorRow then do
    let row ← checkedSub this.cursorRow 1
    some (this.setCursor row this.cursorCol)
  else some this

def insertLines (count : ℕ) (this : Terminal) : Option Terminal :=
  let row := min this.cursorRow (this.rows - 1)
  if row < this.scrollTop ∨ this.scrollBottom < row then some this
  else
    let available := this.scrollBottom - row + 1
    this.repeated (min count available) (shiftRowsDown row this.scrollBottom)

def deleteLines (count : ℕ) (this : Terminal) : Option Terminal :=
  let row := min this.cursorRow (this.rows - 1)
  if row < this.scrollTop ∨ this.scrollBottom < row then some this
  else
    let available := this.scrollBottom - row + 1
    this.repeated (min count available) (shiftRowsUp row this.scrollBottom)

def setScrollRegion (top bottom : ℕ) (this : Terminal) : Terminal :=
  let this :=
    if top < bottom ∧ bottom < this.rows then { this with scrollTop := top, scrollBottom := bottom }
    else { this with scrollTop := 0, scrollBottom := this.rows - 1 }
  this.setCursor this.scrollTop 0

/-! ## Printing -/

/-- The column of the character before the cursor on the row of the cursor. -/
def charBefore (this : Terminal) : Option (Option ℕ) :=
  if 0 < this.cursorCol then do
    let cells ← this.buffer[this.cursorRow]?
    let col ← checkedSub this.cursorCol 1
    let cell ← cells[col]?
    let col ← if cell.wideContinuation && decide (0 < col) then checkedSub col 1 else some col
    let cell ← cells[col]?
    some (if cell.wideContinuation then none else some col)
  else some none

/-- A combining character goes to the character before the cursor, and to the last one on the row
above if there is none. -/
def appendCombiningChar (c : Char) (this : Terminal) : Option Terminal := do
  let this := this.clampCursor
  let row := this.cursorRow
  let before ← this.charBefore
  match before with
  | some col => this.modifyRow row (Row.pushText c col)
  | none =>
    if 0 < row then do
      let prevRow ← checkedSub row 1
      let cells ← this.buffer[prevRow]?
      let last ← cells.lastBase this.cols
      match last with
      | some col => this.modifyRow prevRow (Row.pushText c col)
      | none => some this
    else some this

/-- Go to the next line if the column is past the last one. -/
def wrap (this : Terminal) : Option Terminal :=
  if this.cols ≤ this.cursorCol then (this.setCursor this.cursorRow 0).linefeed else some this

variable (width : UnicodeWidth)

/-- Go to the next line if a wide character is to begin in the last column. -/
def makeRoom (c : Char) (this : Terminal) : Option Terminal :=
  if charWidth width c = 2 ∧ this.cursorCol = this.cols - 1 then
    (this.setCursor this.cursorRow 0).linefeed
  else some this

def putChar (c : Char) (this : Terminal) : Option Terminal :=
  if charWidth width c = 0 then this.appendCombiningChar c
  else do
    let this ← this.clampCursor.wrap
    let this ← this.makeRoom width c
    let this ← this.modifyRow this.cursorRow
      (Row.writeChar width this.cols this.style c this.cursorCol)
    (this.setCursor this.cursorRow (this.cursorCol + charWidth width c)).wrap

/-! ## Erasing -/

def sanitizeRow (row : ℕ) (this : Terminal) : Option Terminal :=
  if this.rows ≤ row then some this else this.modifyRow row (Row.sanitize width this.cols)

def clearRowRange (row startCol endCol : ℕ) (style : Style) (this : Terminal) : Option Terminal :=
  if this.rows ≤ row then some this
  else
    let start := min startCol this.cols
    let stop := min endCol this.cols
    if stop ≤ start then some this
    else do
      let this ← this.modifyRow row (Row.fill start stop (Cell.blankWithStyle style))
      this.sanitizeRow width row

/-- Clear some rows as a whole. -/
def clearWholeRows (rows : List ℕ) (style : Style) (this : Terminal) : Option Terminal :=
  rows.foldlM (fun (this : Terminal) row => this.clearRowRange width row 0 this.cols style) this

def clearScreenAll (style : Style) (this : Terminal) : Option Terminal :=
  this.clearWholeRows width (List.range this.rows) style

def clearToEndOfScreen (style : Style) (this : Terminal) : Option Terminal := do
  let row := min this.cursorRow (this.rows - 1)
  let col := min this.cursorCol (this.cols - 1)
  let this ← this.clearRowRange width row col this.cols style
  this.clearWholeRows width (List.range' (row + 1) (this.rows - (row + 1))) style

def clearToStartOfScreen (style : Style) (this : Terminal) : Option Terminal := do
  let row := min this.cursorRow (this.rows - 1)
  let col := min this.cursorCol (this.cols - 1)
  let this ← this.clearWholeRows width (List.range row) style
  this.clearRowRange width row 0 (col + 1) style

def insertBlankChars (count : ℕ) (this : Terminal) : Option Terminal :=
  let row := min this.cursorRow (this.rows - 1)
  let col := min this.cursorCol (this.cols - 1)
  if this.cols ≤ col then some this
  else
    let count := min count (this.cols - col)
    if count = 0 then some this
    else do
      let stop ← checkedSub this.cols count
      let this ← this.modifyRow row (Row.copyRight col stop count)
      let this ← this.modifyRow row (Row.fill col (col + count) (Cell.blankWithStyle this.style))
      this.sanitizeRow width row

def deleteChars (count : ℕ) (this : Terminal) : Option Terminal :=
  let row := min this.cursorRow (this.rows - 1)
  let col := min this.cursorCol (this.cols - 1)
  if this.cols ≤ col then some this
  else
    let count := min count (this.cols - col)
    if count = 0 then some this
    else do
      let stop ← checkedSub this.cols count
      let this ← this.modifyRow row (Row.copyLeft col stop count)
      let this ← this.modifyRow row (Row.fill stop this.cols (Cell.blankWithStyle this.style))
      this.sanitizeRow width row

def eraseChars (count : ℕ) (this : Terminal) : Option Terminal :=
  let row := min this.cursorRow (this.rows - 1)
  let col := min this.cursorCol (this.cols - 1)
  if this.cols ≤ col then some this
  else do
    let stop := min (col + count) this.cols
    let this ← this.modifyRow row (Row.fill col stop (Cell.blankWithStyle this.style))
    this.sanitizeRow width row

/-! ## The alternate screen and the reset -/

def enterAlternateScreen (this : Terminal) : Option Terminal :=
  if this.alternateScreen then some this
  else do
    let snapshot : SavedScreen := {
      buffer := this.buffer
      cursorRow := this.cursorRow
      cursorCol := this.cursorCol
      style := this.style
      savedCursor := this.savedCursor
      scrollTop := this.scrollTop
      scrollBottom := this.scrollBottom }
    let this ← blankRows { this with savedMainScreen := some snapshot, alternateScreen := true }
    some { this with
      cursorRow := 0
      cursorCol := 0
      savedCursor := (0, 0)
      scrollTop := 0
      scrollBottom := this.rows - 1 }

/-- Show a saved screen again. -/
def restore (saved : SavedScreen) (this : Terminal) : Terminal :=
  let scrollTop := min saved.scrollTop (this.rows - 1)
  let scrollBottom := min saved.scrollBottom (this.rows - 1)
  { this with
    buffer := saved.buffer
    cursorRow := min saved.cursorRow (this.rows - 1)
    cursorCol := min saved.cursorCol (this.cols - 1)
    style := saved.style
    savedCursor := saved.savedCursor
    scrollTop := if scrollBottom ≤ scrollTop then 0 else scrollTop
    scrollBottom := if scrollBottom ≤ scrollTop then this.rows - 1 else scrollBottom
    savedMainScreen := none }

def leaveAlternateScreen (this : Terminal) : Terminal :=
  if !this.alternateScreen then this
  else
    match this.savedMainScreen with
    | some saved => { this.restore saved with alternateScreen := false }
    | none => { this with alternateScreen := false }

def handlePrivateMode (mode : UInt16) (set : Bool) (this : Terminal) : Option Terminal :=
  if mode = 1049 then
    if set then this.enterAlternateScreen else some this.leaveAlternateScreen
  else some this

def resetTerminal (this : Terminal) : Option Terminal :=
  blankRows { this with
    style := Style.default
    savedCursor := (0, 0)
    scrollTop := 0
    scrollBottom := this.rows - 1
    cursorRow := 0
    cursorCol := 0 }

/-! ## The performer -/

def execute (byte : UInt8) (this : Terminal) : Option Terminal :=
  match byte with
  | 0x0a => this.linefeed
  | 0x0d => some (this.setCursor this.cursorRow 0)
  | 0x09 =>
    let nextTab := (this.cursorCol + 8) / 8 * 8
    some (this.setCursor this.cursorRow (min nextTab (this.cols - 1)))
  | 0x08 =>
    if 0 < this.cursorCol then do
      let col ← checkedSub this.cursorCol 1
      some (this.setCursor this.cursorRow col)
    else some this
  | _ => some this

def csiDispatch (params : Params) (intermediates : List UInt8) (action : Char) (this : Terminal) :
    Option Terminal :=
  match action with
  | 'H' | 'f' =>
    some (this.setCursor (min (paramAt params 0 1 - 1) (this.rows - 1))
      (min (paramAt params 1 1 - 1) (this.cols - 1)))
  | 'A' => some (this.setCursor (this.cursorRow - paramCount params 1) this.cursorCol)
  | 'B' =>
    some (this.setCursor (min (this.cursorRow + paramCount params 1) (this.rows - 1))
      this.cursorCol)
  | 'C' =>
    some (this.setCursor this.cursorRow
      (min (this.cursorCol + paramCount params 1) (this.cols - 1)))
  | 'D' => some (this.setCursor this.cursorRow (this.cursorCol - paramCount params 1))
  | 'E' =>
    some (this.setCursor (min (this.cursorRow + paramCount params 1) (this.rows - 1)) 0)
  | 'F' => some (this.setCursor (this.cursorRow - paramCount params 1) 0)
  | 'G' => some (this.setCursor this.cursorRow (min (paramAt params 0 1 - 1) (this.cols - 1)))
  | 'd' => some (this.setCursor (min (paramAt params 0 1 - 1) (this.rows - 1)) this.cursorCol)
  | 'm' => some { this with style := this.style.select params }
  | 'J' =>
    match paramAt params 0 0 with
    | 0 => this.clearToEndOfScreen width this.style
    | 1 => this.clearToStartOfScreen width this.style
    | 2 | 3 => this.clearScreenAll width this.style
    | _ => some this
  | 'K' =>
    let row := min this.cursorRow (this.rows - 1)
    let col := min this.cursorCol (this.cols - 1)
    match paramAt params 0 0 with
    | 0 => this.clearRowRange width row col this.cols this.style
    | 1 => this.clearRowRange width row 0 (col + 1) this.style
    | 2 => this.clearRowRange width row 0 this.cols this.style
    | _ => some this
  | '@' => this.insertBlankChars width (paramCount params 1)
  | 'P' => this.deleteChars width (paramCount params 1)
  | 'X' => this.eraseChars width (paramCount params 1)
  | 'L' => this.insertLines (paramCount params 1)
  | 'M' => this.deleteLines (paramCount params 1)
  | 'S' => this.scrollUpRegion this.scrollTop this.scrollBottom (paramCount params 1)
  | 'T' => this.scrollDownRegion this.scrollTop this.scrollBottom (paramCount params 1)
  | 'r' =>
    let top := paramAt params 0 1 - 1
    let bottom := paramAt params 1 (UInt16.ofNat this.rows) - 1
    some (this.setScrollRegion top bottom)
  | 's' => some this.saveCursor
  | 'u' => some this.restoreCursor
  | 'h' | 'l' =>
    if intermediates.contains 0x3f then
      params.flatten.foldlM
        (fun (this : Terminal) value => this.handlePrivateMode value (action == 'h')) this
    else some this
  | _ => some this

def escDispatch (intermediates : List UInt8) (byte : UInt8) (this : Terminal) : Option Terminal :=
  match intermediates, byte with
  | [], 0x37 => some this.saveCursor
  | [], 0x38 => some this.restoreCursor
  | [], 0x44 => this.linefeed
  | [], 0x45 => do
    let this ← this.linefeed
    some (this.setCursor this.cursorRow 0)
  | [], 0x4d => this.reverseIndex
  | [], 0x63 => this.resetTerminal
  | _, _ => some this

def perform (this : Terminal) : Callback → Option Terminal
  | .print c => this.putChar width c
  | .execute byte => this.execute byte
  | .csiDispatch params intermediates _ action => this.csiDispatch width params intermediates action
  | .escDispatch intermediates _ byte => this.escDispatch intermediates byte
  | .hook .. | .put _ | .unhook | .oscDispatch .. => some this

/-- Parse some output, given by its callbacks. -/
def feed (this : Terminal) (callbacks : List Callback) : Option Terminal :=
  callbacks.foldlM (perform width) this

end Terminal

/-! ## Lines to draw -/

structure Span where
  text : List Char
  fgColor : Color
  bgColor : Option Color
  bold : Bool
  italic : Bool
  deriving DecidableEq

def Span.default : Span := ⟨[], Color.WHITE, none, false, false⟩

abbrev Line := List Span

/-- The span takes the style of the cell. -/
def Span.hasStyle (span : Span) (style : Style) : Bool :=
  span.fgColor == style.fgColor && span.bgColor == style.bgColor && span.bold == style.bold &&
    span.italic == style.italic

/-- Add the text of a cell to the last span, or to a new one if the style changes. -/
def Line.pushCell (line : Line) (cell : Cell) : Line :=
  if cell.wideContinuation then line
  else
    let fresh : Span :=
      ⟨cell.text, cell.style.fgColor, cell.style.bgColor, cell.style.bold, cell.style.italic⟩
    match line.getLast? with
    | none => [fresh]
    | some span =>
      if span.hasStyle cell.style then
        line.dropLast ++ [{ span with text := span.text ++ cell.text }]
      else line ++ [fresh]

def Line.ofRow (row : Row) : Line :=
  let line := row.foldl Line.pushCell []
  if line.isEmpty then [Span.default] else line

def Terminal.lines (this : Terminal) : List Line := this.buffer.map Line.ofRow

end ManInTheBox.Emulator
