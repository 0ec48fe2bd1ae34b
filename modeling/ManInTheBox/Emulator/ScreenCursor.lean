import ManInTheBox.Emulator.Terminal

/-! # The cursor of the screen without the screen

Where the cursor of the screen goes depends on the scroll region, the saved cursor and
the two screens, but not on any cell. This machine keeps just that much of a terminal.
-/

namespace ManInTheBox.Emulator

/-- A character that is printed is not wider than the screen. -/
def Callback.Fits (width : UnicodeWidth) (cols : ℕ) : Callback → Prop
  | .print c => charWidth width c ≤ cols
  | _ => True

theorem Callback.fits_of_two_le (width : UnicodeWidth) {cols : ℕ} (hcols : 2 ≤ cols)
    (callback : Callback) : callback.Fits width cols := by
  cases callback with
  | print c => exact (min_le_right _ _).trans hcols
  | execute | csiDispatch | escDispatch | hook | put | unhook | oscDispatch => exact trivial

/-- What a screen has besides its cells and its style. -/
structure Position where
  row : ℕ
  col : ℕ
  saved : ℕ × ℕ
  top : ℕ
  bottom : ℕ
  deriving DecidableEq

structure ScreenCursor extends Position where
  cols : ℕ
  rows : ℕ
  alternate : Bool
  main : Option Position
  deriving DecidableEq

namespace ScreenCursor

def new (cols rows : ℕ) : ScreenCursor where
  row := 0
  col := 0
  saved := (0, 0)
  top := 0
  bottom := rows - 1
  cols := cols
  rows := rows
  alternate := false
  main := none

def moveTo (this : ScreenCursor) (row col : ℕ) : ScreenCursor := { this with row, col }

section MoveTo

variable (this : ScreenCursor) (row col : ℕ)

@[simp] theorem moveTo_row : (this.moveTo row col).row = row := rfl

@[simp] theorem moveTo_col : (this.moveTo row col).col = col := rfl

@[simp] theorem moveTo_bottom : (this.moveTo row col).bottom = this.bottom := rfl

@[simp] theorem moveTo_rows : (this.moveTo row col).rows = this.rows := rfl

@[simp] theorem moveTo_cols : (this.moveTo row col).cols = this.cols := rfl

end MoveTo

def clamp (this : ScreenCursor) : ScreenCursor :=
  this.moveTo (min this.row (this.rows - 1)) (min this.col (this.cols - 1))

def save (this : ScreenCursor) : ScreenCursor := { this with saved := (this.row, this.col) }

def restore (this : ScreenCursor) : ScreenCursor :=
  this.moveTo (min this.saved.1 (this.rows - 1)) (min this.saved.2 (this.cols - 1))

/-- The last row of the scroll region and the last row of the screen are not left downwards. -/
def linefeed (this : ScreenCursor) : ScreenCursor :=
  if this.row = this.bottom then this
  else if this.row < this.rows - 1 then this.moveTo (this.row + 1) this.col
  else this

section Linefeed

variable (this : ScreenCursor)

theorem linefeed_row : this.linefeed.row =
    if this.row = this.bottom then this.row
    else if this.row < this.rows - 1 then this.row + 1 else this.row := by
  unfold linefeed
  split
  · rfl
  · split <;> rfl

@[simp] theorem linefeed_col : this.linefeed.col = this.col := by
  unfold linefeed
  split
  · rfl
  · split <;> rfl

@[simp] theorem linefeed_bottom : this.linefeed.bottom = this.bottom := by
  unfold linefeed
  split
  · rfl
  · split <;> rfl

@[simp] theorem linefeed_rows : this.linefeed.rows = this.rows := by
  unfold linefeed
  split
  · rfl
  · split <;> rfl

@[simp] theorem linefeed_cols : this.linefeed.cols = this.cols := by
  unfold linefeed
  split
  · rfl
  · split <;> rfl

end Linefeed

def reverseIndex (this : ScreenCursor) : ScreenCursor :=
  if this.row = this.top then this else this.moveTo (this.row - 1) this.col

def wrap (this : ScreenCursor) : ScreenCursor :=
  if this.cols ≤ this.col then (this.moveTo this.row 0).linefeed else this

/-- A wide character does not begin in the last column. -/
def makeRoom (this : ScreenCursor) (width : ℕ) : ScreenCursor :=
  if width = 2 ∧ this.col = this.cols - 1 then (this.moveTo this.row 0).linefeed else this

/-- Go past a character of the given width. -/
def advance (this : ScreenCursor) (width : ℕ) : ScreenCursor :=
  (this.moveTo this.row (this.col + width)).wrap

def putChar (this : ScreenCursor) (width : ℕ) : ScreenCursor :=
  if width = 0 then this.clamp else (this.clamp.wrap.makeRoom width).advance width

def setScrollRegion (this : ScreenCursor) (top bottom : ℕ) : ScreenCursor :=
  let this :=
    if top < bottom ∧ bottom < this.rows then { this with top, bottom }
    else { this with top := 0, bottom := this.rows - 1 }
  this.moveTo this.top 0

/-- A fresh position, with the whole screen as scroll region. -/
def home (this : ScreenCursor) : ScreenCursor :=
  { this with row := 0, col := 0, saved := (0, 0), top := 0, bottom := this.rows - 1 }

def enterAlternate (this : ScreenCursor) : ScreenCursor :=
  if this.alternate then this
  else { this.home with main := some this.toPosition, alternate := true }

/-- Take over a position of the main screen. -/
def returnTo (this : ScreenCursor) (main : Position) : ScreenCursor :=
  let top := min main.top (this.rows - 1)
  let bottom := min main.bottom (this.rows - 1)
  { this with
    row := min main.row (this.rows - 1)
    col := min main.col (this.cols - 1)
    saved := main.saved
    top := if bottom ≤ top then 0 else top
    bottom := if bottom ≤ top then this.rows - 1 else bottom
    main := none }

def leaveAlternate (this : ScreenCursor) : ScreenCursor :=
  if !this.alternate then this
  else
    match this.main with
    | some main => { this.returnTo main with alternate := false }
    | none => { this with alternate := false }

def privateMode (this : ScreenCursor) (mode : UInt16) (set : Bool) : ScreenCursor :=
  if mode = 1049 then if set then this.enterAlternate else this.leaveAlternate else this

def execute (this : ScreenCursor) (byte : UInt8) : ScreenCursor :=
  match byte with
  | 0x0a => this.linefeed
  | 0x0d => this.moveTo this.row 0
  | 0x09 => this.moveTo this.row (min ((this.col + 8) / 8 * 8) (this.cols - 1))
  | 0x08 => this.moveTo this.row (this.col - 1)
  | _ => this

def csiDispatch (this : ScreenCursor) (params : Params) (intermediates : List UInt8)
    (action : Char) : ScreenCursor :=
  match action with
  | 'H' | 'f' =>
    this.moveTo (min (paramAt params 0 1 - 1) (this.rows - 1))
      (min (paramAt params 1 1 - 1) (this.cols - 1))
  | 'A' => this.moveTo (this.row - paramCount params 1) this.col
  | 'B' => this.moveTo (min (this.row + paramCount params 1) (this.rows - 1)) this.col
  | 'C' => this.moveTo this.row (min (this.col + paramCount params 1) (this.cols - 1))
  | 'D' => this.moveTo this.row (this.col - paramCount params 1)
  | 'E' => this.moveTo (min (this.row + paramCount params 1) (this.rows - 1)) 0
  | 'F' => this.moveTo (this.row - paramCount params 1) 0
  | 'G' => this.moveTo this.row (min (paramAt params 0 1 - 1) (this.cols - 1))
  | 'd' => this.moveTo (min (paramAt params 0 1 - 1) (this.rows - 1)) this.col
  | 'r' =>
    this.setScrollRegion (paramAt params 0 1 - 1)
      (paramAt params 1 (UInt16.ofNat this.rows) - 1)
  | 's' => this.save
  | 'u' => this.restore
  | 'h' | 'l' =>
    if intermediates.contains 0x3f then
      params.flatten.foldl (fun this mode => this.privateMode mode (action == 'h')) this
    else this
  | _ => this

def escDispatch (this : ScreenCursor) (intermediates : List UInt8) (byte : UInt8) :
    ScreenCursor :=
  match intermediates, byte with
  | [], 0x37 => this.save
  | [], 0x38 => this.restore
  | [], 0x44 => this.linefeed
  | [], 0x45 => this.linefeed.moveTo this.linefeed.row 0
  | [], 0x4d => this.reverseIndex
  | [], 0x63 => this.home
  | _, _ => this

def perform (width : UnicodeWidth) (this : ScreenCursor) : Callback → ScreenCursor
  | .print c => this.putChar (charWidth width c)
  | .execute byte => this.execute byte
  | .csiDispatch params intermediates _ action => this.csiDispatch params intermediates action
  | .escDispatch intermediates _ byte => this.escDispatch intermediates byte
  | .hook .. | .put _ | .unhook | .oscDispatch .. => this

/-! ## The cursor and the scroll region are on the screen -/

structure Inside (cols rows : ℕ) (this : ScreenCursor) : Prop where
  cols_eq : this.cols = cols
  rows_eq : this.rows = rows
  col_lt : this.col < cols
  row_lt : this.row < rows
  top_le : this.top ≤ this.bottom
  bottom_lt : this.bottom < rows

namespace Inside

variable {cols rows : ℕ} {this : ScreenCursor}

theorem new (hcols : 0 < cols) (hrows : 0 < rows) : Inside cols rows (ScreenCursor.new cols rows) := by
  constructor <;> simp [ScreenCursor.new, hcols, hrows]

theorem moveTo (h : Inside cols rows this) {row col : ℕ} (hrow : row < rows) (hcol : col < cols) :
    Inside cols rows (this.moveTo row col) :=
  ⟨h.cols_eq, h.rows_eq, hcol, hrow, h.top_le, h.bottom_lt⟩

/-- Clamping changes nothing. -/
theorem clamp_eq (h : Inside cols rows this) : this.clamp = this := by
  have hcol := h.col_lt
  have hrow := h.row_lt
  have hrow' : min this.row (this.rows - 1) = this.row := by
    rw [h.rows_eq]
    omega
  have hcol' : min this.col (this.cols - 1) = this.col := by
    rw [h.cols_eq]
    omega
  rw [clamp, hrow', hcol']
  rfl

theorem save (h : Inside cols rows this) : Inside cols rows this.save :=
  ⟨h.cols_eq, h.rows_eq, h.col_lt, h.row_lt, h.top_le, h.bottom_lt⟩

theorem restore (h : Inside cols rows this) : Inside cols rows this.restore := by
  have hcol := h.col_lt
  have hcols := h.cols_eq
  have hrow := h.row_lt
  have hrows := h.rows_eq
  exact h.moveTo (by omega) (by omega)

theorem linefeed (h : Inside cols rows this) : Inside cols rows this.linefeed := by
  have hrow := h.row_lt
  have hrows := h.rows_eq
  unfold ScreenCursor.linefeed
  split
  · exact h
  · split
    · exact h.moveTo (by omega) h.col_lt
    · exact h

theorem reverseIndex (h : Inside cols rows this) : Inside cols rows this.reverseIndex := by
  have hrow := h.row_lt
  unfold ScreenCursor.reverseIndex
  split
  · exact h
  · exact h.moveTo (by omega) h.col_lt

theorem wrap_eq (h : Inside cols rows this) : this.wrap = this := by
  have hcol := h.col_lt
  have hcols := h.cols_eq
  have hnot : ¬ this.cols ≤ this.col := by omega
  rw [wrap, if_neg hnot]

/-- The column is zero after a line feed for lack of room, and where there is room it stays. -/
theorem makeRoom (h : Inside cols rows this) {width : ℕ} (hwidth : width ≤ cols) :
    Inside cols rows (this.makeRoom width) ∧
      (width = 2 → (this.makeRoom width).col + 1 < cols) := by
  have hcol := h.col_lt
  have hc := h.cols_eq
  unfold ScreenCursor.makeRoom
  split
  · have hline := (h.moveTo h.row_lt (by omega : 0 < cols)).linefeed
    refine ⟨hline, fun _ => ?_⟩
    rw [linefeed_col, moveTo_col]
    omega
  · exact ⟨h, fun _ => by omega⟩

theorem advance (h : Inside cols rows this) (width : ℕ) : Inside cols rows (this.advance width) := by
  have hcol := h.col_lt
  have hcols := h.cols_eq
  unfold ScreenCursor.advance ScreenCursor.wrap
  split
  · exact (h.moveTo h.row_lt (by omega : 0 < cols)).linefeed
  · rename_i hfit
    simp only [ScreenCursor.moveTo, not_le] at hfit
    exact h.moveTo h.row_lt (by omega)

theorem putChar (h : Inside cols rows this) {width : ℕ} (hwidth : width ≤ cols) :
    Inside cols rows (this.putChar width) := by
  unfold ScreenCursor.putChar
  rw [h.clamp_eq, h.wrap_eq]
  split
  · exact h
  · exact (h.makeRoom hwidth).1.advance width

theorem setScrollRegion (h : Inside cols rows this) (top bottom : ℕ) :
    Inside cols rows (this.setScrollRegion top bottom) := by
  have hcol := h.col_lt
  have hrow := h.row_lt
  have hrows := h.rows_eq
  unfold ScreenCursor.setScrollRegion
  split
  · constructor <;> simp only [ScreenCursor.moveTo, h.cols_eq, h.rows_eq] <;> omega
  · constructor <;> simp only [ScreenCursor.moveTo, h.cols_eq, h.rows_eq] <;> omega

theorem home (h : Inside cols rows this) : Inside cols rows this.home := by
  have hcol := h.col_lt
  have hrow := h.row_lt
  constructor <;> simp only [ScreenCursor.home, h.cols_eq, h.rows_eq] <;> omega

theorem enterAlternate (h : Inside cols rows this) : Inside cols rows this.enterAlternate := by
  unfold ScreenCursor.enterAlternate
  split
  · exact h
  · have hhome := h.home
    exact ⟨hhome.cols_eq, hhome.rows_eq, hhome.col_lt, hhome.row_lt, hhome.top_le, hhome.bottom_lt⟩

theorem returnTo (h : Inside cols rows this) (main : Position) :
    Inside cols rows (this.returnTo main) := by
  have hcol := h.col_lt
  have hrow := h.row_lt
  constructor <;> simp only [ScreenCursor.returnTo, h.cols_eq, h.rows_eq]
  · omega
  · omega
  · split <;> omega
  · split <;> omega

theorem leaveAlternate (h : Inside cols rows this) : Inside cols rows this.leaveAlternate := by
  unfold ScreenCursor.leaveAlternate
  split
  · exact h
  · split
    · rename_i main _
      have hmain := h.returnTo main
      exact ⟨hmain.cols_eq, hmain.rows_eq, hmain.col_lt, hmain.row_lt, hmain.top_le, hmain.bottom_lt⟩
    · exact ⟨h.cols_eq, h.rows_eq, h.col_lt, h.row_lt, h.top_le, h.bottom_lt⟩

theorem privateMode (h : Inside cols rows this) (mode : UInt16) (set : Bool) :
    Inside cols rows (this.privateMode mode set) := by
  unfold ScreenCursor.privateMode
  split
  · split
    · exact h.enterAlternate
    · exact h.leaveAlternate
  · exact h

theorem execute (h : Inside cols rows this) (byte : UInt8) :
    Inside cols rows (this.execute byte) := by
  have hcol := h.col_lt
  have hcols := h.cols_eq
  unfold ScreenCursor.execute
  split
  · exact h.linefeed
  · exact h.moveTo h.row_lt (by omega)
  · exact h.moveTo h.row_lt (by omega)
  · exact h.moveTo h.row_lt (by omega)
  · exact h

theorem csiDispatch (h : Inside cols rows this) (params : Params) (intermediates : List UInt8)
    (action : Char) : Inside cols rows (this.csiDispatch params intermediates action) := by
  have hcol := h.col_lt
  have hcols := h.cols_eq
  have hrow := h.row_lt
  have hrows := h.rows_eq
  unfold ScreenCursor.csiDispatch
  split
  case h_11 => exact h.setScrollRegion _ _
  case h_12 => exact h.save
  case h_13 => exact h.restore
  case h_14 | h_15 =>
    split
    · clear hcol hcols hrow hrows
      induction params.flatten generalizing this with
      | nil => exact h
      | cons mode modes ih => exact ih (h.privateMode mode _)
    · exact h
  case h_16 => exact h
  all_goals exact h.moveTo (by omega) (by omega)

theorem escDispatch (h : Inside cols rows this) (intermediates : List UInt8) (byte : UInt8) :
    Inside cols rows (this.escDispatch intermediates byte) := by
  have hcol := h.col_lt
  unfold ScreenCursor.escDispatch
  split
  · exact h.save
  · exact h.restore
  · exact h.linefeed
  · exact h.linefeed.moveTo h.linefeed.row_lt (by omega)
  · exact h.reverseIndex
  · exact h.home
  · exact h

theorem perform (h : Inside cols rows this) {width : UnicodeWidth} {callback : Callback}
    (hfits : callback.Fits width cols) : Inside cols rows (this.perform width callback) := by
  cases callback with
  | print c => exact h.putChar hfits
  | execute byte => exact h.execute byte
  | csiDispatch params intermediates ignore action => exact h.csiDispatch params intermediates action
  | escDispatch intermediates ignore byte => exact h.escDispatch intermediates byte
  | hook | put | unhook | oscDispatch => exact h

theorem run (h : Inside cols rows this) {width : UnicodeWidth} {callbacks : List Callback}
    (hfits : ∀ callback ∈ callbacks, callback.Fits width cols) :
    Inside cols rows (callbacks.foldl (·.perform width ·) this) := by
  induction callbacks generalizing this with
  | nil => exact h
  | cons callback callbacks ih =>
    rw [List.forall_mem_cons] at hfits
    exact ih (h.perform hfits.1) hfits.2

end Inside

end ScreenCursor

end ManInTheBox.Emulator
