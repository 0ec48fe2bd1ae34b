import ManInTheBox.Emulator.CursorReport
import ManInTheBox.Emulator.Lines

/-! # Where the two emulators agree

The tracker of the host knows no scroll region, no second screen, no reset and no reverse
index, and it takes every character beyond ASCII for a wide one. Between the same geometry
and the same callbacks its cursor is that of the screen as long as these make no difference.
-/

namespace ManInTheBox.Emulator

open Library

/-! ## When one callback moves both cursors alike -/

def SameCursor (box : ScreenCursor) (host : PtyTerminalState) : Prop :=
  box.row = host.cursorRow ∧ box.col = host.cursorCol

/-- A line feed in the last row of the scroll region is one in the last row of the screen. -/
def LinefeedAlike (box : ScreenCursor) : Prop := box.row = box.bottom → box.row + 1 = box.rows

/-- The host counts one column for an ASCII character and two for any other. -/
def PrintAlike (width : UnicodeWidth) (box : ScreenCursor) (c : Char) : Prop :=
  if isControl c then True
  else if isAscii c then box.col + 1 = box.cols → LinefeedAlike box
  else if charWidth width c = 0 then
    -- Two columns from the first of two, in the last row, lead back to it.
    box.cols = 2 ∧ box.col = 0 ∧ box.row + 1 = box.rows
  else if charWidth width c = 1 then box.col + 1 = box.cols ∧ LinefeedAlike box
  else if box.col + 1 = box.cols then
    -- On two columns the screen feeds two lines, and the host one.
    box.cols = 2 ∧ (box.row + 1 = box.rows ∨
      (box.row ≠ box.bottom ∧ (box.row + 1 = box.bottom ∨ box.row + 2 = box.rows)))
  else box.col + 2 = box.cols → LinefeedAlike box

def RestoreAlike (box : ScreenCursor) (host : PtyTerminalState) : Prop :=
  min box.saved.1 (box.rows - 1) = min host.savedCursor.1 (host.rows - 1) ∧
    min box.saved.2 (box.cols - 1) = min host.savedCursor.2 (host.cols - 1)

/-- A new scroll region takes the cursor of the screen to its first row. -/
def RegionAlike (box : ScreenCursor) (params : Params) : Prop :=
  let top := paramAt params 0 1 - 1
  let bottom := paramAt params 1 (UInt16.ofNat box.rows) - 1
  box.row = (if top < bottom ∧ bottom < box.rows then top else 0) ∧ box.col = 0

/-- A change of the screen takes the cursor of the screen home or back to where it was. -/
def PrivateModeAlike (box : ScreenCursor) (params : Params) (intermediates : List UInt8)
    (set : Bool) : Prop :=
  0x3f ∈ intermediates → 1049 ∈ params.flatten →
    if set then box.alternate = false → box.row = 0 ∧ box.col = 0
    else box.alternate = true → ∀ main, box.main = some main →
      box.row = min main.row (box.rows - 1) ∧ box.col = min main.col (box.cols - 1)

/-- What makes a callback move both cursors alike. -/
def Alike (width : UnicodeWidth) (box : ScreenCursor) (host : PtyTerminalState) :
    Callback → Prop
  | .print c => PrintAlike width box c
  | .execute byte => byte = 0x0a → LinefeedAlike box
  | .csiDispatch params intermediates _ action =>
    match action with
    | 'r' => RegionAlike box params
    | 'u' => RestoreAlike box host
    | 'h' => PrivateModeAlike box params intermediates true
    | 'l' => PrivateModeAlike box params intermediates false
    | _ => True
  | .escDispatch intermediates _ byte =>
    match intermediates, byte with
    | [], 0x38 => RestoreAlike box host
    | [], 0x44 | [], 0x45 => LinefeedAlike box
    | [], 0x4d => box.row = box.top ∨ box.row = 0
    | [], 0x63 => box.row = 0 ∧ box.col = 0
    | _, _ => True
  | .hook .. | .put _ | .unhook | .oscDispatch .. => True

/-! ## One callback -/

/-- Both emulators have one geometry and one cursor. -/
structure Together (cols rows : ℕ) (box : ScreenCursor) (host : PtyTerminalState) : Prop where
  inside : box.Inside cols rows
  cols_eq : host.cols = cols
  rows_eq : host.rows = rows
  same : SameCursor box host

namespace Together

variable {cols rows : ℕ} {box : ScreenCursor} {host : PtyTerminalState}

theorem moveTo (h : Together cols rows box host) {row col : ℕ} (hrow : row < rows)
    (hcol : col < cols) : Together cols rows (box.moveTo row col) (host.setCursor row col) :=
  ⟨h.inside.moveTo hrow hcol, h.cols_eq, h.rows_eq, rfl, rfl⟩

theorem linefeed_iff (h : Together cols rows box host) :
    SameCursor box.linefeed host.linefeed ↔ LinefeedAlike box := by
  have hrow := h.same.1
  have hcol := h.same.2
  have hlt := h.inside.row_lt
  have hrows := h.inside.rows_eq
  have hrows' := h.rows_eq
  unfold ScreenCursor.linefeed
  by_cases hbottom : box.row = box.bottom
  · rw [if_pos hbottom]
    simp only [SameCursor, PtyTerminalState.linefeed, PtyTerminalState.setCursor, LinefeedAlike]
    constructor
    · intro hsame _
      omega
    · intro halike
      have hlast := halike hbottom
      exact ⟨by omega, hcol⟩
  · rw [if_neg hbottom]
    split
    · simp only [SameCursor, PtyTerminalState.linefeed, PtyTerminalState.setCursor, LinefeedAlike,
        ScreenCursor.moveTo]
      constructor
      · intro _ hat
        exact absurd hat hbottom
      · intro _
        exact ⟨by omega, hcol⟩
    · simp only [SameCursor, PtyTerminalState.linefeed, PtyTerminalState.setCursor, LinefeedAlike]
      constructor
      · intro _ hat
        exact absurd hat hbottom
      · intro _
        exact ⟨by omega, hcol⟩

/-- The line feed at the end of a line. -/
theorem newline_iff (h : Together cols rows box host) :
    SameCursor (box.moveTo box.row 0).linefeed (host.setCursor host.cursorRow 0).linefeed ↔
      LinefeedAlike box := by
  have hcol := h.inside.col_lt
  have hmoved := h.moveTo h.inside.row_lt (by omega : 0 < cols)
  rw [← h.same.1]
  exact hmoved.linefeed_iff

/-- Past a character that both take for equally wide. -/
theorem advance_iff (h : Together cols rows box host) (count : ℕ) :
    SameCursor (box.advance count)
      (if host.cols ≤ host.cursorCol + count then (host.setCursor host.cursorRow 0).linefeed
        else host.setCursor host.cursorRow (host.cursorCol + count)) ↔
      (box.cols ≤ box.col + count → LinefeedAlike box) := by
  have hcols : host.cols = box.cols := h.cols_eq.trans h.inside.cols_eq.symm
  have hcol := h.same.2
  rw [ScreenCursor.advance, ScreenCursor.wrap, hcols, ← hcol]
  by_cases hwrap : box.cols ≤ box.col + count
  · rw [if_pos (by exact hwrap), if_pos hwrap]
    simp only [hwrap, true_imp_iff]
    exact h.newline_iff
  · rw [if_neg (by exact hwrap), if_neg hwrap]
    simp only [hwrap, false_imp_iff, iff_true]
    exact ⟨h.same.1, rfl⟩

end Together

/-- What is documented of the width of control characters and of ASCII characters. -/
structure StandardWidth (width : UnicodeWidth) : Prop where
  control : ∀ c, isControl c = true → width c = none
  ascii : ∀ c, isAscii c = true → isControl c = false → width c = some 1

theorem StandardWidth.space {width : UnicodeWidth} (h : StandardWidth width) : width ' ' = some 1 :=
  h.ascii ' ' (by decide) (by decide)

theorem charIsWide_eq (c : Char) : PtyTerminalState.charIsWide c = !isAscii c := by
  by_cases hascii : isAscii c = true
  · simp [PtyTerminalState.charIsWide, hascii]
  · have hsize : 1 < c.utf8Size := by
      have hpos := c.utf8Size_pos
      by_contra hle
      have hone : c.val ≤ 127 := Char.utf8Size_eq_one_iff.mp (by omega)
      have hlt : c.toNat ≤ 127 := hone
      exact hascii (by simp only [isAscii, decide_eq_true_eq]; omega)
    simp [PtyTerminalState.charIsWide, hascii, hsize]

namespace Together

variable {cols rows : ℕ} {box : ScreenCursor} {host : PtyTerminalState} {width : UnicodeWidth}

theorem makeRoom_of_ne {w : ℕ} (h : w ≠ 2) : box.makeRoom w = box := by
  simp [ScreenCursor.makeRoom, h]

/-- A character that the host takes for narrow. -/
theorem print_ascii_iff (h : Together cols rows box host) {c : Char} (hc : isControl c = false)
    (hascii : isAscii c = true) (hw : charWidth width c = 1) :
    SameCursor (box.putChar (charWidth width c)) (host.putChar c) ↔
      (box.col + 1 = box.cols → LinefeedAlike box) := by
  have hlt := h.inside.col_lt
  have hcols := h.inside.cols_eq
  have hbox : box.putChar (charWidth width c) = box.advance 1 := by
    rw [hw, ScreenCursor.putChar, if_neg (by omega), h.inside.clamp_eq, h.inside.wrap_eq,
      makeRoom_of_ne (by omega)]
  have hhost : host.putChar c =
      if host.cols ≤ host.cursorCol + 1 then (host.setCursor host.cursorRow 0).linefeed
      else host.setCursor host.cursorRow (host.cursorCol + 1) := by
    simp [PtyTerminalState.putChar, hc, charIsWide_eq, hascii]
  have hend : box.cols ≤ box.col + 1 ↔ box.col + 1 = box.cols := by omega
  rw [hbox, hhost, h.advance_iff, hend]

/-- The host on a character beyond ASCII. -/
theorem host_putChar_wide {c : Char} (hc : isControl c = false) (hascii : isAscii c = false) :
    host.putChar c =
      if host.cols ≤ host.cursorCol + 2 then (host.setCursor host.cursorRow 0).linefeed
      else host.setCursor host.cursorRow (host.cursorCol + 2) := by
  simp [PtyTerminalState.putChar, hc, charIsWide_eq, hascii]

theorem print_combining_iff (h : Together cols rows box host) (hcols : 2 ≤ cols) {c : Char}
    (hc : isControl c = false) (hascii : isAscii c = false) (hw : charWidth width c = 0) :
    SameCursor (box.putChar (charWidth width c)) (host.putChar c) ↔
      (box.cols = 2 ∧ box.col = 0 ∧ box.row + 1 = box.rows) := by
  have hrow := h.same.1
  have hcol := h.same.2
  have hcols' := h.inside.cols_eq
  have hrows := h.inside.rows_eq
  have hcols'' := h.cols_eq
  have hrows' := h.rows_eq
  have hlt := h.inside.row_lt
  have hbox : box.putChar (charWidth width c) = box := by
    rw [hw, ScreenCursor.putChar, if_pos rfl, h.inside.clamp_eq]
  rw [hbox, host_putChar_wide hc hascii]
  by_cases hwrap : host.cols ≤ host.cursorCol + 2
  · rw [if_pos hwrap]
    simp only [SameCursor, PtyTerminalState.linefeed, PtyTerminalState.setCursor]
    omega
  · rw [if_neg hwrap]
    simp only [SameCursor, PtyTerminalState.setCursor]
    omega

theorem print_narrow_iff (h : Together cols rows box host) {c : Char}
    (hc : isControl c = false) (hascii : isAscii c = false) (hw : charWidth width c = 1) :
    SameCursor (box.putChar (charWidth width c)) (host.putChar c) ↔
      (box.col + 1 = box.cols ∧ LinefeedAlike box) := by
  have hcol := h.same.2
  have hlt := h.inside.col_lt
  have hcols := h.inside.cols_eq
  have hcols' := h.cols_eq
  have hbox : box.putChar (charWidth width c) = box.advance 1 := by
    rw [hw, ScreenCursor.putChar, if_neg (by omega), h.inside.clamp_eq, h.inside.wrap_eq,
      makeRoom_of_ne (by omega)]
  rw [hbox, host_putChar_wide hc hascii]
  by_cases hend : box.col + 1 = box.cols
  · have hwrap : box.cols ≤ box.col + 1 := by omega
    rw [ScreenCursor.advance, ScreenCursor.wrap, if_pos (by exact hwrap), if_pos (by omega)]
    simp only [hend, true_and]
    exact h.newline_iff
  · have hnot : ¬ box.cols ≤ box.col + 1 := by omega
    rw [ScreenCursor.advance, ScreenCursor.wrap, if_neg (by exact hnot)]
    simp only [hend, false_and, iff_false]
    intro hsame
    have hsame := hsame.2
    split at hsame
    · simp only [ScreenCursor.moveTo, PtyTerminalState.linefeed, PtyTerminalState.setCursor] at hsame
      omega
    · simp only [ScreenCursor.moveTo, PtyTerminalState.setCursor] at hsame
      omega

theorem print_wide_iff (h : Together cols rows box host) (htwoCols : 2 ≤ cols) {c : Char}
    (hc : isControl c = false) (hascii : isAscii c = false) (hw : charWidth width c = 2) :
    SameCursor (box.putChar (charWidth width c)) (host.putChar c) ↔
      if box.col + 1 = box.cols then
        box.cols = 2 ∧ (box.row + 1 = box.rows ∨
          (box.row ≠ box.bottom ∧ (box.row + 1 = box.bottom ∨ box.row + 2 = box.rows)))
      else box.col + 2 = box.cols → LinefeedAlike box := by
  have hrow := h.same.1
  have hcol := h.same.2
  have hlt := h.inside.col_lt
  have hrowlt := h.inside.row_lt
  have hcols := h.inside.cols_eq
  have hrows := h.inside.rows_eq
  have hcols' := h.cols_eq
  have hrows' := h.rows_eq
  have hput : box.putChar (charWidth width c) = (box.makeRoom 2).advance 2 := by
    rw [hw, ScreenCursor.putChar, if_neg (by omega), h.inside.clamp_eq, h.inside.wrap_eq]
  rw [hput]
  by_cases hend : box.col + 1 = box.cols
  · -- The screen makes room first, so that it is in column 2 or, after a second line feed, 0.
    have hlast : 2 = 2 ∧ box.col = box.cols - 1 := ⟨rfl, by omega⟩
    have hhost : host.cols ≤ host.cursorCol + 2 := by omega
    have hroom : box.makeRoom 2 = (box.moveTo box.row 0).linefeed := if_pos hlast
    rw [if_pos hend, hroom, host_putChar_wide hc hascii, if_pos hhost, ScreenCursor.advance,
      ScreenCursor.wrap]
    simp only [ScreenCursor.moveTo_cols, ScreenCursor.moveTo_col, ScreenCursor.linefeed_cols,
      ScreenCursor.linefeed_col, Nat.zero_add]
    by_cases htwo : box.cols = 2
    · rw [if_pos htwo.le]
      simp only [htwo, true_and, SameCursor, PtyTerminalState.linefeed, PtyTerminalState.setCursor,
        ScreenCursor.linefeed_row, ScreenCursor.linefeed_col, ScreenCursor.linefeed_rows,
        ScreenCursor.linefeed_bottom, ScreenCursor.moveTo_row, ScreenCursor.moveTo_col,
        ScreenCursor.moveTo_rows, ScreenCursor.moveTo_bottom]
      grind
    · rw [if_neg (by omega : ¬ box.cols ≤ 2)]
      simp [htwo, SameCursor, PtyTerminalState.linefeed, PtyTerminalState.setCursor]
  · have hroom : box.makeRoom 2 = box := by
      have hnot : ¬ box.col = box.cols - 1 := by omega
      simp [ScreenCursor.makeRoom, hnot]
    have htwo : box.cols ≤ box.col + 2 ↔ box.col + 2 = box.cols := by omega
    rw [if_neg hend, hroom, host_putChar_wide hc hascii, h.advance_iff, htwo]

theorem print_iff (hwidth : StandardWidth width) (h : Together cols rows box host)
    (hcols : 2 ≤ cols) (c : Char) :
    SameCursor (box.putChar (charWidth width c)) (host.putChar c) ↔ PrintAlike width box c := by
  unfold PrintAlike
  by_cases hcontrol : isControl c = true
  · have hw : charWidth width c = 0 := by simp [charWidth, hwidth.control c hcontrol]
    have hbox : box.putChar (charWidth width c) = box := by
      rw [hw, ScreenCursor.putChar, if_pos rfl, h.inside.clamp_eq]
    have hhost : host.putChar c = host := by simp [PtyTerminalState.putChar, hcontrol]
    rw [if_pos hcontrol, hbox, hhost]
    simpa using h.same
  · have hc : isControl c = false := by simpa using hcontrol
    rw [if_neg hcontrol]
    by_cases hascii : isAscii c = true
    · have hw : charWidth width c = 1 := by simp [charWidth, hwidth.ascii c hascii hc]
      rw [if_pos hascii]
      exact h.print_ascii_iff hc hascii hw
    · have ha : isAscii c = false := by simpa using hascii
      have hle := charWidth_le width c
      rw [if_neg hascii]
      by_cases hzero : charWidth width c = 0
      · rw [if_pos hzero]
        exact h.print_combining_iff hcols hc ha hzero
      · rw [if_neg hzero]
        by_cases hone : charWidth width c = 1
        · rw [if_pos hone]
          exact h.print_narrow_iff hc ha hone
        · rw [if_neg hone]
          exact h.print_wide_iff hcols hc ha (by omega)

theorem execute_iff (h : Together cols rows box host) (byte : UInt8) :
    SameCursor (box.execute byte) (host.execute byte) ↔ (byte = 0x0a → LinefeedAlike box) := by
  have hcols := h.cols_eq.trans h.inside.cols_eq.symm
  obtain ⟨hrow, hcol⟩ := h.same
  unfold ScreenCursor.execute
  split
  · simpa [PtyTerminalState.execute] using h.linefeed_iff
  · simp [PtyTerminalState.execute, SameCursor, PtyTerminalState.setCursor, hrow]
  · simp [PtyTerminalState.execute, SameCursor, PtyTerminalState.setCursor, hrow, hcol, hcols]
  · simp [PtyTerminalState.execute, SameCursor, PtyTerminalState.setCursor, hrow, hcol]
  · rename_i hline _ _ _
    have hhost : host.execute byte = host := by
      unfold PtyTerminalState.execute
      split <;> first | contradiction | rfl
    have hne : byte ≠ 0x0a := hline
    have hother : SameCursor box host := ⟨hrow, hcol⟩
    simpa [hhost, hne] using hother

theorem restore_iff (box : ScreenCursor) (host : PtyTerminalState) :
    SameCursor box.restore host.restoreCursor ↔ RestoreAlike box host := by
  simp [SameCursor, RestoreAlike, ScreenCursor.restore, PtyTerminalState.restoreCursor,
    PtyTerminalState.setCursor]

theorem setScrollRegion_iff (h : SameCursor box host) (params : Params) :
    SameCursor (box.setScrollRegion (paramAt params 0 1 - 1)
      (paramAt params 1 (UInt16.ofNat box.rows) - 1)) host ↔ RegionAlike box params := by
  obtain ⟨hrow, hcol⟩ := h
  unfold ScreenCursor.setScrollRegion RegionAlike
  simp only
  split
  · simp only [SameCursor, ScreenCursor.moveTo_row, ScreenCursor.moveTo_col]
    omega
  · simp only [SameCursor, ScreenCursor.moveTo_row, ScreenCursor.moveTo_col]
    omega

theorem enterAlternate_iff (h : SameCursor box host) :
    SameCursor box.enterAlternate host ↔ (box.alternate = false → box.row = 0 ∧ box.col = 0) := by
  obtain ⟨hrow, hcol⟩ := h
  by_cases halternate : box.alternate = true
  · simp [ScreenCursor.enterAlternate, halternate, SameCursor, hrow, hcol]
  · simp only [ScreenCursor.enterAlternate, halternate, SameCursor, ScreenCursor.home, hrow, hcol]
    grind

theorem leaveAlternate_iff (h : SameCursor box host) :
    SameCursor box.leaveAlternate host ↔
      (box.alternate = true → ∀ main, box.main = some main →
        box.row = min main.row (box.rows - 1) ∧ box.col = min main.col (box.cols - 1)) := by
  obtain ⟨hrow, hcol⟩ := h
  by_cases halternate : box.alternate = true
  · cases hmain : box.main with
    | none => simp [ScreenCursor.leaveAlternate, halternate, hmain, SameCursor, hrow, hcol]
    | some main =>
      simp only [ScreenCursor.leaveAlternate, halternate, hmain, SameCursor, ScreenCursor.returnTo,
        hrow, hcol]
      grind
  · simp [ScreenCursor.leaveAlternate, halternate, SameCursor, hrow, hcol]

theorem enterAlternate_idem (box : ScreenCursor) :
    box.enterAlternate.enterAlternate = box.enterAlternate := by
  have h : box.enterAlternate.alternate = true := by
    unfold ScreenCursor.enterAlternate
    split
    · assumption
    · rfl
  exact if_pos h

theorem leaveAlternate_idem (box : ScreenCursor) :
    box.leaveAlternate.leaveAlternate = box.leaveAlternate := by
  have h : box.leaveAlternate.alternate = false := by
    unfold ScreenCursor.leaveAlternate
    split
    · simpa using ‹(!box.alternate) = true›
    · split <;> rfl
  exact if_pos (by simp [h])

/-- However often a mode is named, the change happens once. -/
theorem privateModes_eq {set : Bool} {change : ScreenCursor → ScreenCursor}
    (hmode : ∀ box, ScreenCursor.privateMode box 1049 set = change box)
    (hidem : ∀ box, change (change box) = change box) (box : ScreenCursor) (modes : List UInt16) :
    modes.foldl (fun box mode => box.privateMode mode set) box =
      if 1049 ∈ modes then change box else box := by
  induction modes generalizing box with
  | nil => rfl
  | cons mode modes ih =>
    rw [List.foldl_cons, ih]
    by_cases h : mode = 1049
    · subst h
      simp [hmode, hidem]
    · have hsame : box.privateMode mode set = box := if_neg h
      simp [hsame, Ne.symm h]

theorem enterModes_iff (h : SameCursor box host) (params : Params) (intermediates : List UInt8) :
    SameCursor (box.csiDispatch params intermediates 'h') host ↔
      PrivateModeAlike box params intermediates true := by
  have hmodes : params.flatten.foldl (fun box mode => box.privateMode mode true) box =
      if 1049 ∈ params.flatten then box.enterAlternate else box :=
    @privateModes_eq true _ (fun _ => rfl) enterAlternate_idem box params.flatten
  have hiff := enterAlternate_iff h
  simp only [ScreenCursor.csiDispatch, PrivateModeAlike, List.contains_iff_mem, beq_self_eq_true,
    hmodes, if_true]
  by_cases hmark : 0x3f ∈ intermediates
  · by_cases hmode : 1049 ∈ params.flatten
    · simpa only [hmark, hmode, if_true, true_imp_iff] using hiff
    · simpa [hmark, hmode] using h
  · simpa [hmark] using h

theorem leaveModes_iff (h : SameCursor box host) (params : Params) (intermediates : List UInt8) :
    SameCursor (box.csiDispatch params intermediates 'l') host ↔
      PrivateModeAlike box params intermediates false := by
  have hmodes : params.flatten.foldl (fun box mode => box.privateMode mode false) box =
      if 1049 ∈ params.flatten then box.leaveAlternate else box :=
    @privateModes_eq false _ (fun _ => rfl) leaveAlternate_idem box params.flatten
  have hset : ('l' == 'h') = false := by decide
  have hiff := leaveAlternate_iff h
  simp only [ScreenCursor.csiDispatch, PrivateModeAlike, List.contains_iff_mem, hset,
    hmodes]
  by_cases hmark : 0x3f ∈ intermediates
  · by_cases hmode : 1049 ∈ params.flatten
    · simpa only [hmark, hmode, if_true, true_imp_iff, Bool.false_eq_true, if_false] using hiff
    · simpa [hmark, hmode] using h
  · simpa [hmark] using h

theorem csiDispatch_iff (h : Together cols rows box host) (params : Params)
    (intermediates : List UInt8) (ignore : Bool) (action : Char) :
    SameCursor (box.csiDispatch params intermediates action)
      (host.csiDispatch params intermediates action) ↔
      Alike width box host (.csiDispatch params intermediates ignore action) := by
  have hcols := h.cols_eq.trans h.inside.cols_eq.symm
  have hrows := h.rows_eq.trans h.inside.rows_eq.symm
  have hsame := h.same
  obtain ⟨hrow, hcol⟩ := h.same
  by_cases hr : action = 'r'
  · subst hr
    exact setScrollRegion_iff hsame params
  by_cases hu : action = 'u'
  · subst hu
    exact restore_iff box host
  by_cases hh : action = 'h'
  · subst hh
    exact enterModes_iff hsame params intermediates
  by_cases hl : action = 'l'
  · subst hl
    exact leaveModes_iff hsame params intermediates
  -- All other sequences move both cursors alike.
  have halike : Alike width box host (.csiDispatch params intermediates ignore action) := by
    simp only [Alike]
  simp only [halike, iff_true]
  unfold PtyTerminalState.csiDispatch
  split
  case h_11 =>
    split
    · exact hsame
    · exact hsame
  case h_12 => exact hsame
  case h_13 => contradiction
  case h_14 =>
    unfold ScreenCursor.csiDispatch
    split <;> first | contradiction | exact hsame
  all_goals
    simp [ScreenCursor.csiDispatch, SameCursor, PtyTerminalState.setCursor, hrow, hcol, hcols, hrows]

theorem escDispatch_iff (h : Together cols rows box host) (intermediates : List UInt8)
    (ignore : Bool) (byte : UInt8) :
    SameCursor (box.escDispatch intermediates byte) (host.escDispatch intermediates byte) ↔
      Alike width box host (.escDispatch intermediates ignore byte) := by
  have hsame := h.same
  obtain ⟨hrow, hcol⟩ := h.same
  unfold ScreenCursor.escDispatch
  split
  · have hsaved : SameCursor box.save host.saveCursor := hsame
    simpa [PtyTerminalState.escDispatch, Alike] using hsaved
  · simpa [PtyTerminalState.escDispatch, Alike] using restore_iff box host
  · simpa [PtyTerminalState.escDispatch, Alike] using h.linefeed_iff
  · have hiff := h.linefeed_iff
    have hcol' : box.linefeed.col = host.linefeed.cursorCol := by
      simpa [PtyTerminalState.linefeed, PtyTerminalState.setCursor] using hcol
    simp only [SameCursor, hcol', and_true] at hiff
    simpa [PtyTerminalState.escDispatch, Alike, SameCursor, PtyTerminalState.setCursor] using hiff
  · have hhost : host.escDispatch [] 0x4d = host := by simp [PtyTerminalState.escDispatch]
    have halike : Alike width box host (.escDispatch [] ignore 0x4d) ↔
        box.row = box.top ∨ box.row = 0 := by
      simp [Alike]
    rw [hhost, halike, ScreenCursor.reverseIndex]
    by_cases htop : box.row = box.top
    · simpa [htop] using hsame
    · rw [if_neg htop]
      simp only [SameCursor, ScreenCursor.moveTo_row, ScreenCursor.moveTo_col, htop, false_or]
      omega
  · have hhost : host.escDispatch [] 0x63 = host := by simp [PtyTerminalState.escDispatch]
    have halike : Alike width box host (.escDispatch [] ignore 0x63) ↔
        box.row = 0 ∧ box.col = 0 := by
      simp [Alike]
    rw [hhost, halike]
    simp only [SameCursor, ScreenCursor.home, hrow, hcol]
    omega
  · have hhost : host.escDispatch intermediates byte = host := by
      unfold PtyTerminalState.escDispatch
      split <;> first | contradiction | rfl
    have halike : Alike width box host (.escDispatch intermediates ignore byte) := by
      simp only [Alike]
    simpa [hhost, halike] using hsame

/-- One callback leaves both cursors at one place exactly if it moves them alike. -/
theorem perform_iff (hwidth : StandardWidth width) (h : Together cols rows box host)
    (hcols : 2 ≤ cols) (callback : Callback) :
    SameCursor (box.perform width callback) (host.perform callback) ↔
      Alike width box host callback := by
  cases callback with
  | print c => exact h.print_iff hwidth hcols c
  | execute byte => exact h.execute_iff byte
  | csiDispatch params intermediates ignore action =>
    exact h.csiDispatch_iff params intermediates ignore action
  | escDispatch intermediates ignore byte => exact h.escDispatch_iff intermediates ignore byte
  | hook | put | unhook | oscDispatch =>
    simpa [ScreenCursor.perform, PtyTerminalState.perform, Alike] using h.same

end Together

/-! ## Whole runs -/

/-- The screen after some callbacks shows its cursor where the tracker has it. -/
def CursorsAgree (width : UnicodeWidth) (cols rows : ℕ) (callbacks : List Callback) : Prop :=
  ∃ box, (Terminal.new cols rows).feed width callbacks = some box ∧
    SameCursor box.cursor (trackerAfter cols rows callbacks)

/-- After some callbacks both emulators are about to move alike. -/
def NextAlike (width : UnicodeWidth) (cols rows : ℕ) (callbacks : List Callback)
    (callback : Callback) : Prop :=
  ∃ box, (Terminal.new cols rows).feed width callbacks = some box ∧
    Alike width box.cursor (trackerAfter cols rows callbacks) callback

section Runs

variable {width : UnicodeWidth} {cols rows : ℕ}

theorem trackerAfter_inside (hcols : 1 ≤ cols) (hrows : 1 ≤ rows) (callbacks : List Callback) :
    PtyTerminalState.Inside cols rows (trackerAfter cols rows callbacks) := by
  have hinside := inside_trackerAfter cols rows callbacks
  rwa [max_eq_left hcols, max_eq_left hrows] at hinside

theorem cursorsAgree_nil : CursorsAgree width cols rows [] :=
  ⟨Terminal.new cols rows, rfl, rfl, rfl⟩

/-- One more callback. -/
theorem cursorsAgree_concat_iff (hwidth : StandardWidth width) (hcols : 2 ≤ cols) (hrows : 1 ≤ rows)
    {callbacks : List Callback} (h : CursorsAgree width cols rows callbacks) (callback : Callback) :
    CursorsAgree width cols rows (callbacks ++ [callback]) ↔
      NextAlike width cols rows callbacks callback := by
  obtain ⟨box, hfeed, hsame⟩ := h
  obtain ⟨box', hfeed', hat⟩ := Terminal.feed_new_yields hwidth.space hcols hrows callbacks
  obtain rfl := Option.some.inj (hfeed.symm.trans hfeed')
  obtain ⟨next, hnext, hmoved⟩ :=
    Terminal.feed_new_yields hwidth.space hcols hrows (callbacks ++ [callback])
  have hinside := @ScreenCursor.inside_run width cols rows hcols hrows callbacks
  have htracker := trackerAfter_inside (by omega : 1 ≤ cols) hrows callbacks
  have hcursor : next.cursor = box.cursor.perform width callback := by
    rw [hmoved.cursor, hat.cursor, List.foldl_append]
    rfl
  have hafter : trackerAfter cols rows (callbacks ++ [callback]) =
      (trackerAfter cols rows callbacks).perform callback := by
    simp [trackerAfter]
  rw [← hat.cursor] at hinside
  have htogether : Together cols rows box.cursor (trackerAfter cols rows callbacks) :=
    ⟨hinside, htracker.cols_eq, htracker.rows_eq, hsame⟩
  have hstep := htogether.perform_iff hwidth hcols callback
  rw [← hcursor, ← hafter] at hstep
  constructor
  · rintro ⟨next', hnext', hsame'⟩
    obtain rfl := Option.some.inj (hnext.symm.trans hnext')
    exact ⟨box, hfeed, hstep.mp hsame'⟩
  · rintro ⟨box', hfeed', halike⟩
    obtain rfl := Option.some.inj (hfeed.symm.trans hfeed')
    exact ⟨next, hnext, hstep.mpr halike⟩

/-- For every screen of at least two columns and rows and every sequence of callbacks: the cursors
of both emulators are at one place after every callback exactly if every callback moves them
alike. -/
theorem cursorsAgree_iff (width : UnicodeWidth) (hwidth : StandardWidth width) (cols rows : ℕ)
    (hcols : 2 ≤ cols) (hrows : 2 ≤ rows) (callbacks : List Callback) :
    (∀ before, before <+: callbacks → CursorsAgree width cols rows before) ↔
      ∀ before callback, before ++ [callback] <+: callbacks →
        NextAlike width cols rows before callback := by
  have hrows' : 1 ≤ rows := by omega
  constructor
  · intro h before callback hbefore
    have hagree := h before ((List.prefix_append _ _).trans hbefore)
    exact (cursorsAgree_concat_iff hwidth hcols hrows' hagree callback).mp (h _ hbefore)
  · intro h before
    induction before using List.reverseRecOn with
    | nil =>
      intro _
      exact cursorsAgree_nil
    | append_singleton before callback ih =>
      intro hbefore
      have hagree := ih ((List.prefix_append _ _).trans hbefore)
      exact (cursorsAgree_concat_iff hwidth hcols hrows' hagree callback).mpr (h _ _ hbefore)

end Runs

theorem exampleWidth_standard : StandardWidth exampleWidth where
  control c hc := by
    have hwide : c ≠ '世' := by
      rintro rfl
      exact absurd hc (by decide)
    have haccent : c ≠ '\u0301' := by
      rintro rfl
      exact absurd hc (by decide)
    simp [exampleWidth, hwide, haccent, hc]
  ascii c hc hcontrol := by
    have hwide : c ≠ '世' := by
      rintro rfl
      exact absurd hc (by decide)
    have haccent : c ≠ '\u0301' := by
      rintro rfl
      exact absurd hc (by decide)
    simp [exampleWidth, hwide, haccent, hcontrol]

/-- Two lines with a wide character. -/
theorem cursorsAgree_iff_wide :
    StandardWidth exampleWidth ∧ 2 ≤ 80 ∧ 2 ≤ 24 ∧
      ((∀ before, before <+: [Callback.print '世', .execute 0x0a] →
          CursorsAgree exampleWidth 80 24 before) ↔
        ∀ before callback, before ++ [callback] <+: [Callback.print '世', .execute 0x0a] →
          NextAlike exampleWidth 80 24 before callback) :=
  ⟨exampleWidth_standard, by decide, by decide,
    cursorsAgree_iff exampleWidth exampleWidth_standard 80 24 (by decide) (by decide) _⟩

/-- An accented letter is one column on the screen and two for the host. -/
theorem not_cursorsAgree_accent :
    ¬ ∀ width, StandardWidth width → ∀ cols rows, 2 ≤ cols → 2 ≤ rows →
      ∀ callbacks before, before <+: callbacks → CursorsAgree width cols rows before := by
  intro h
  have hagree := h exampleWidth exampleWidth_standard 80 24 (by decide) (by decide)
    [.print 'é'] _ (List.prefix_refl _)
  obtain ⟨box, hfeed, halike⟩ := (cursorsAgree_concat_iff exampleWidth_standard (by decide)
    (by decide) cursorsAgree_nil (.print 'é')).mp hagree
  obtain rfl := Option.some.inj hfeed
  have hcontrol : isControl 'é' = false := by decide
  have hascii : isAscii 'é' = false := by decide
  have hw : charWidth exampleWidth 'é' = 1 := by decide
  simp [Alike, PrintAlike, hcontrol, hascii, hw, Terminal.cursor, Terminal.new] at halike

end ManInTheBox.Emulator
