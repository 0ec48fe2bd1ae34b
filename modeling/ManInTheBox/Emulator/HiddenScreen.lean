import ManInTheBox.Emulator.NoPanic

/-! # The screen that waits

Which of the two screens is shown, and the main screen that waits meanwhile, are looked at
by the two private modes only. Everything else does the same whatever they are, and leaves
them as they are.
-/

namespace ManInTheBox.Emulator

open Library

/-- CSI ? h or CSI ? l with the mode of the alternate screen among its parameters. -/
def switches (action : Char) : Callback → Bool
  | .csiDispatch params intermediates _ action' =>
    action' == action && intermediates.contains 0x3f && params.flatten.contains 1049
  | _ => false

namespace Terminal

/-- The same terminal, but for what is known of the other screen. -/
def hide (alternate : Bool) (saved : Option SavedScreen) (this : Terminal) : Terminal :=
  { this with alternateScreen := alternate, savedMainScreen := saved }

theorem hide_self (this : Terminal) :
    this.hide this.alternateScreen this.savedMainScreen = this := rfl

variable {alternate : Bool} {saved : Option SavedScreen}

section Lines

variable (this : Terminal)

@[simp] theorem hide_buffer : (this.hide alternate saved).buffer = this.buffer := rfl

@[simp] theorem hide_rows : (this.hide alternate saved).rows = this.rows := rfl

@[simp] theorem hide_cols : (this.hide alternate saved).cols = this.cols := rfl

@[simp] theorem hide_cursorRow : (this.hide alternate saved).cursorRow = this.cursorRow := rfl

@[simp] theorem hide_cursorCol : (this.hide alternate saved).cursorCol = this.cursorCol := rfl

@[simp] theorem hide_style : (this.hide alternate saved).style = this.style := rfl

@[simp] theorem hide_scrollTop : (this.hide alternate saved).scrollTop = this.scrollTop := rfl

@[simp] theorem hide_scrollBottom :
    (this.hide alternate saved).scrollBottom = this.scrollBottom := rfl

theorem setCursor_hide (row col : ℕ) :
    (this.hide alternate saved).setCursor row col = (this.setCursor row col).hide alternate saved :=
  rfl

theorem setRow_hide (row : ℕ) (cells : Row) :
    (this.hide alternate saved).setRow row cells =
      (this.setRow row cells).map (hide alternate saved) := by
  unfold setRow
  split_ifs <;> first | rfl | contradiction

theorem modifyRow_hide (row : ℕ) (f : Row → Option Row) :
    (this.hide alternate saved).modifyRow row f =
      (this.modifyRow row f).map (hide alternate saved) := by
  rw [modifyRow, modifyRow, hide_buffer]
  cases this.buffer[row]? with
  | none => rfl
  | some cells =>
    simp only [Option.bind_eq_bind, Option.bind_some]
    cases f cells with
    | none => rfl
    | some cells' => exact this.setRow_hide row cells'

theorem copyRow_hide (source target : ℕ) :
    (this.hide alternate saved).copyRow source target =
      (this.copyRow source target).map (hide alternate saved) := by
  rw [copyRow, copyRow, hide_buffer]
  cases this.buffer[source]? with
  | none => rfl
  | some cells => exact this.setRow_hide target cells

/-- A loop and what comes after it. -/
theorem foldlM_bind_hide {α : Type} {f : Terminal → α → Option Terminal}
    {after : Terminal → Option Terminal}
    (hf : ∀ (this : Terminal) a, f (this.hide alternate saved) a = (f this a).map (hide alternate saved))
    (hafter : ∀ this : Terminal,
      after (this.hide alternate saved) = (after this).map (hide alternate saved)) (l : List α) :
    (l.foldlM f (this.hide alternate saved)).bind after =
      ((l.foldlM f this).bind after).map (hide alternate saved) := by
  rw [foldlM_map (hide alternate saved) hf]
  cases l.foldlM f this with
  | none => rfl
  | some next => exact hafter next

theorem shiftRowsUp_hide (top bottom : ℕ) :
    (this.hide alternate saved).shiftRowsUp top bottom =
      (this.shiftRowsUp top bottom).map (hide alternate saved) :=
  this.foldlM_bind_hide (fun this idx => this.copyRow_hide (idx + 1) idx)
    (fun this => this.setRow_hide bottom (blankRow this.cols)) _

theorem shiftRowsDown_hide (top bottom : ℕ) :
    (this.hide alternate saved).shiftRowsDown top bottom =
      (this.shiftRowsDown top bottom).map (hide alternate saved) := by
  apply this.foldlM_bind_hide
  · intro this idx
    cases checkedSub idx 1 with
    | none => rfl
    | some source => exact this.copyRow_hide source idx
  · exact fun this => this.setRow_hide top (blankRow this.cols)

theorem repeated_hide {f : Terminal → Option Terminal}
    (hf : ∀ this : Terminal, f (this.hide alternate saved) = (f this).map (hide alternate saved))
    (count : ℕ) :
    (this.hide alternate saved).repeated count f =
      (this.repeated count f).map (hide alternate saved) :=
  foldlM_map (hide alternate saved) (fun this _ => hf this) _ this

theorem blankRows_hide :
    (this.hide alternate saved).blankRows = this.blankRows.map (hide alternate saved) :=
  foldlM_map (hide alternate saved) (fun this row => this.setRow_hide row (blankRow this.cols)) _ this

theorem scrollUpRegion_hide (top bottom count : ℕ) :
    (this.hide alternate saved).scrollUpRegion top bottom count =
      (this.scrollUpRegion top bottom count).map (hide alternate saved) := by
  rw [scrollUpRegion, scrollUpRegion, hide_rows]
  split
  · rfl
  · exact this.repeated_hide (fun this => this.shiftRowsUp_hide top bottom) _

theorem scrollDownRegion_hide (top bottom count : ℕ) :
    (this.hide alternate saved).scrollDownRegion top bottom count =
      (this.scrollDownRegion top bottom count).map (hide alternate saved) := by
  rw [scrollDownRegion, scrollDownRegion, hide_rows]
  split
  · rfl
  · exact this.repeated_hide (fun this => this.shiftRowsDown_hide top bottom) _

theorem linefeed_hide :
    (this.hide alternate saved).linefeed = this.linefeed.map (hide alternate saved) := by
  by_cases hbottom : this.cursorRow = this.scrollBottom
  · simpa [linefeed, hbottom] using this.scrollUpRegion_hide this.scrollTop this.scrollBottom 1
  · by_cases hlast : this.cursorRow < this.rows - 1
    · simp [linefeed, hbottom, hlast, setCursor_hide]
    · simpa [linefeed, hbottom, hlast] using this.scrollUpRegion_hide 0 (this.rows - 1) 1

theorem reverseIndex_hide :
    (this.hide alternate saved).reverseIndex = this.reverseIndex.map (hide alternate saved) := by
  by_cases htop : this.cursorRow = this.scrollTop
  · simpa [reverseIndex, htop] using this.scrollDownRegion_hide this.scrollTop this.scrollBottom 1
  · by_cases hpos : 0 < this.cursorRow
    · simp [reverseIndex, htop, hpos, checkedSub_of_le hpos, setCursor_hide]
    · simp [reverseIndex, htop, hpos]

theorem insertLines_hide (count : ℕ) :
    (this.hide alternate saved).insertLines count =
      (this.insertLines count).map (hide alternate saved) := by
  by_cases hout : min this.cursorRow (this.rows - 1) < this.scrollTop ∨
      this.scrollBottom < min this.cursorRow (this.rows - 1)
  · simp only [insertLines, hide_rows, hide_cursorRow, hide_scrollTop, hide_scrollBottom, hout,
      if_true, Option.map_some]
  · simp only [insertLines, hide_rows, hide_cursorRow, hide_scrollTop, hide_scrollBottom, hout,
      if_false]
    exact this.repeated_hide (fun this => this.shiftRowsDown_hide _ _) _

theorem deleteLines_hide (count : ℕ) :
    (this.hide alternate saved).deleteLines count =
      (this.deleteLines count).map (hide alternate saved) := by
  by_cases hout : min this.cursorRow (this.rows - 1) < this.scrollTop ∨
      this.scrollBottom < min this.cursorRow (this.rows - 1)
  · simp only [deleteLines, hide_rows, hide_cursorRow, hide_scrollTop, hide_scrollBottom, hout,
      if_true, Option.map_some]
  · simp only [deleteLines, hide_rows, hide_cursorRow, hide_scrollTop, hide_scrollBottom, hout,
      if_false]
    exact this.repeated_hide (fun this => this.shiftRowsUp_hide _ _) _

end Lines

section Cells

variable (this : Terminal)

/-- Two steps one after the other. -/
theorem bind_hide {x y : Option Terminal} {f : Terminal → Option Terminal}
    (hx : y = x.map (hide alternate saved))
    (hf : ∀ this : Terminal, f (this.hide alternate saved) = (f this).map (hide alternate saved)) :
    y.bind f = (x.bind f).map (hide alternate saved) := by
  rw [hx]
  cases x with
  | none => rfl
  | some next => exact hf next

/-- A value that is read first. -/
theorem read_hide {α : Type} (x : Option α) {f f' : α → Option Terminal}
    (hf : ∀ a, f' a = (f a).map (hide alternate saved)) :
    x.bind f' = (x.bind f).map (hide alternate saved) := by
  cases x with
  | none => rfl
  | some a => exact hf a

theorem wrap_hide : (this.hide alternate saved).wrap = this.wrap.map (hide alternate saved) := by
  by_cases hpast : this.cols ≤ this.cursorCol
  · simp only [wrap, hide_cols, hide_cursorCol, hpast, if_true]
    exact (this.setCursor this.cursorRow 0).linefeed_hide
  · simp [wrap, hpast]

theorem appendCombiningChar_hide (c : Char) :
    (this.hide alternate saved).appendCombiningChar c =
      (this.appendCombiningChar c).map (hide alternate saved) := by
  apply read_hide this.clampCursor.charBefore
  intro before
  cases before with
  | some col => exact this.clampCursor.modifyRow_hide _ _
  | none =>
    by_cases hpos : 0 < this.clampCursor.cursorRow
    · have hpos' : 0 < (this.hide alternate saved).clampCursor.cursorRow := hpos
      simp only [if_pos hpos, if_pos hpos']
      apply read_hide (checkedSub this.clampCursor.cursorRow 1)
      intro prevRow
      apply read_hide this.clampCursor.buffer[prevRow]?
      intro cells
      apply read_hide (cells.lastBase this.clampCursor.cols)
      intro last
      cases last with
      | some col => exact this.clampCursor.modifyRow_hide _ _
      | none => rfl
    · have hpos' : ¬ 0 < (this.hide alternate saved).clampCursor.cursorRow := hpos
      simp only [if_neg hpos, if_neg hpos']
      rfl

variable (width : UnicodeWidth)

theorem makeRoom_hide (c : Char) :
    (this.hide alternate saved).makeRoom width c =
      (this.makeRoom width c).map (hide alternate saved) := by
  by_cases hlast : charWidth width c = 2 ∧ this.cursorCol = this.cols - 1
  · simp only [makeRoom, hide_cols, hide_cursorCol, hlast, and_self, if_true]
    exact (this.setCursor this.cursorRow 0).linefeed_hide
  · simp [makeRoom, hlast]

theorem putChar_hide (c : Char) :
    (this.hide alternate saved).putChar width c =
      (this.putChar width c).map (hide alternate saved) := by
  by_cases hc : charWidth width c = 0
  · simpa [putChar, hc] using this.appendCombiningChar_hide c
  · simp only [putChar, hc, if_false]
    apply bind_hide this.clampCursor.wrap_hide
    intro this
    apply bind_hide (this.makeRoom_hide width c)
    intro this
    apply bind_hide (this.modifyRow_hide _ _)
    intro this
    exact (this.setCursor _ _).wrap_hide

theorem sanitizeRow_hide (row : ℕ) :
    (this.hide alternate saved).sanitizeRow width row =
      (this.sanitizeRow width row).map (hide alternate saved) := by
  by_cases hrow : this.rows ≤ row
  · simp [sanitizeRow, hrow]
  · simpa [sanitizeRow, hrow] using this.modifyRow_hide row (Row.sanitize width this.cols)

theorem clearRowRange_hide (row start stop : ℕ) (style : Style) :
    (this.hide alternate saved).clearRowRange width row start stop style =
      (this.clearRowRange width row start stop style).map (hide alternate saved) := by
  by_cases hrow : this.rows ≤ row
  · simp [clearRowRange, hrow]
  · by_cases hempty : min stop this.cols ≤ min start this.cols
    · simp only [clearRowRange, hide_rows, hide_cols, hrow, hempty, if_true, if_false,
        Option.map_some]
    · simp only [clearRowRange, hide_rows, hide_cols, hrow, hempty, if_false]
      exact bind_hide (this.modifyRow_hide row _) fun this => this.sanitizeRow_hide width row

theorem clearWholeRows_hide (rows : List ℕ) (style : Style) :
    (this.hide alternate saved).clearWholeRows width rows style =
      (this.clearWholeRows width rows style).map (hide alternate saved) :=
  foldlM_map (hide alternate saved)
    (fun this row => this.clearRowRange_hide width row 0 this.cols style) rows this

theorem clearToEndOfScreen_hide (style : Style) :
    (this.hide alternate saved).clearToEndOfScreen width style =
      (this.clearToEndOfScreen width style).map (hide alternate saved) :=
  bind_hide (this.clearRowRange_hide width _ _ this.cols style)
    fun this => this.clearWholeRows_hide width _ style

theorem clearToStartOfScreen_hide (style : Style) :
    (this.hide alternate saved).clearToStartOfScreen width style =
      (this.clearToStartOfScreen width style).map (hide alternate saved) :=
  bind_hide (this.clearWholeRows_hide width _ style)
    fun this => this.clearRowRange_hide width _ 0 _ style

theorem insertBlankChars_hide (count : ℕ) :
    (this.hide alternate saved).insertBlankChars width count =
      (this.insertBlankChars width count).map (hide alternate saved) := by
  simp only [insertBlankChars, hide_rows, hide_cols, hide_cursorRow, hide_cursorCol]
  by_cases hpast : this.cols ≤ min this.cursorCol (this.cols - 1)
  · simp only [hpast, if_true, Option.map_some]
  · by_cases hnone : min count (this.cols - min this.cursorCol (this.cols - 1)) = 0
    · simp only [hpast, hnone, if_true, if_false, Option.map_some]
    · simp only [hpast, hnone, if_false]
      apply read_hide
      intro stop
      apply bind_hide (this.modifyRow_hide _ _)
      intro this
      exact bind_hide (this.modifyRow_hide _ _) fun this => this.sanitizeRow_hide width _

theorem deleteChars_hide (count : ℕ) :
    (this.hide alternate saved).deleteChars width count =
      (this.deleteChars width count).map (hide alternate saved) := by
  simp only [deleteChars, hide_rows, hide_cols, hide_cursorRow, hide_cursorCol]
  by_cases hpast : this.cols ≤ min this.cursorCol (this.cols - 1)
  · simp only [hpast, if_true, Option.map_some]
  · by_cases hnone : min count (this.cols - min this.cursorCol (this.cols - 1)) = 0
    · simp only [hpast, hnone, if_true, if_false, Option.map_some]
    · simp only [hpast, hnone, if_false]
      apply read_hide
      intro stop
      apply bind_hide (this.modifyRow_hide _ _)
      intro this
      exact bind_hide (this.modifyRow_hide _ _) fun this => this.sanitizeRow_hide width _

theorem eraseChars_hide (count : ℕ) :
    (this.hide alternate saved).eraseChars width count =
      (this.eraseChars width count).map (hide alternate saved) := by
  simp only [eraseChars, hide_rows, hide_cols, hide_cursorRow, hide_cursorCol]
  by_cases hpast : this.cols ≤ min this.cursorCol (this.cols - 1)
  · simp only [hpast, if_true, Option.map_some]
  · simp only [hpast, if_false]
    exact bind_hide (this.modifyRow_hide _ _) fun this => this.sanitizeRow_hide width _

end Cells

/-! ## The two screens -/

section Screens

variable (this : Terminal)

/-- The screen as it is put away. -/
def snapshot : SavedScreen where
  buffer := this.buffer
  cursorRow := this.cursorRow
  cursorCol := this.cursorCol
  style := this.style
  savedCursor := this.savedCursor
  scrollTop := this.scrollTop
  scrollBottom := this.scrollBottom

/-- The same screen without its cells, the cursor in its corner. -/
def blanked : Option Terminal :=
  this.blankRows.map fun next =>
    { next with
      cursorRow := 0
      cursorCol := 0
      savedCursor := (0, 0)
      scrollTop := 0
      scrollBottom := next.rows - 1 }

theorem enterAlternateScreen_eq (hmain : this.alternateScreen = false) :
    this.enterAlternateScreen = this.blanked.map (hide true (some this.snapshot)) := by
  have hblank := @blankRows_hide true (some this.snapshot) this
  simp only [enterAlternateScreen, hmain, Bool.false_eq_true, if_false]
  change (this.hide true (some this.snapshot)).blankRows.bind _ = _
  rw [hblank, blanked]
  cases this.blankRows with
  | none => rfl
  | some next => rfl

theorem leaveAlternateScreen_main : this.leaveAlternateScreen.alternateScreen = false := by
  cases halternate : this.alternateScreen with
  | false => simp [leaveAlternateScreen, halternate]
  | true => cases hsaved : this.savedMainScreen <;> simp [leaveAlternateScreen, halternate, hsaved]

/-- The mode that switches the screens may as well be given once as many times. -/
theorem handlePrivateMode_again {this next : Terminal} {set : Bool}
    (h : this.handlePrivateMode 1049 set = some next) :
    next.handlePrivateMode 1049 set = some next := by
  cases set with
  | false =>
    have hleft : this.leaveAlternateScreen = next := Option.some.inj h
    have hmain := this.leaveAlternateScreen_main
    rw [hleft] at hmain
    simp [handlePrivateMode, leaveAlternateScreen, hmain]
  | true =>
    have hentered : this.enterAlternateScreen = some next := h
    have halternate : next.alternateScreen = true := by
      cases hmain : this.alternateScreen with
      | false =>
        rw [enterAlternateScreen_eq this hmain, Option.map_eq_some_iff] at hentered
        obtain ⟨blank, -, rfl⟩ := hentered
        rfl
      | true =>
        rw [enterAlternateScreen, if_pos hmain] at hentered
        rw [← Option.some.inj hentered, hmain]
    simp [handlePrivateMode, enterAlternateScreen, halternate]

theorem privateModes_eq (modes : List UInt16) (set : Bool) :
    modes.foldlM (fun (this : Terminal) value => this.handlePrivateMode value set) this =
      if 1049 ∈ modes then this.handlePrivateMode 1049 set else some this := by
  induction modes generalizing this with
  | nil => rfl
  | cons mode modes ih =>
    rw [List.foldlM_cons, Option.bind_eq_bind]
    by_cases hmode : mode = 1049
    · subst hmode
      rw [if_pos (List.mem_cons_self ..)]
      cases hnext : this.handlePrivateMode 1049 set with
      | none => rfl
      | some next => rw [Option.bind_some, ih, handlePrivateMode_again hnext, ite_self]
    · rw [handlePrivateMode, if_neg hmode, Option.bind_some, ih]
      simp only [List.mem_cons, Ne.symm hmode, false_or]

end Screens

/-! ## Callbacks -/

section Callbacks

variable (this : Terminal)

theorem setScrollRegion_hide (top bottom : ℕ) :
    (this.hide alternate saved).setScrollRegion top bottom =
      (this.setScrollRegion top bottom).hide alternate saved := by
  by_cases hregion : top < bottom ∧ bottom < this.rows
  · simp only [setScrollRegion, hide_rows, hregion, and_self, if_true]
    rfl
  · simp only [setScrollRegion, hide_rows, hregion, if_false]
    rfl

theorem execute_hide (byte : UInt8) :
    (this.hide alternate saved).execute byte =
      (this.execute byte).map (hide alternate saved) := by
  unfold execute
  split
  · exact this.linefeed_hide
  · rfl
  · rfl
  · by_cases hpos : 0 < this.cursorCol
    · simp [hpos, checkedSub_of_le hpos, setCursor_hide]
    · simp [hpos]
  · rfl

theorem resetTerminal_hide :
    (this.hide alternate saved).resetTerminal = this.resetTerminal.map (hide alternate saved) :=
  blankRows_hide { this with
    style := Style.default
    savedCursor := (0, 0)
    scrollTop := 0
    scrollBottom := this.rows - 1
    cursorRow := 0
    cursorCol := 0 }

theorem escDispatch_hide (intermediates : List UInt8) (byte : UInt8) :
    (this.hide alternate saved).escDispatch intermediates byte =
      (this.escDispatch intermediates byte).map (hide alternate saved) := by
  unfold escDispatch
  split
  · rfl
  · rfl
  · exact this.linefeed_hide
  · exact bind_hide this.linefeed_hide fun _ => rfl
  · exact this.reverseIndex_hide
  · exact this.resetTerminal_hide
  · rfl

variable (width : UnicodeWidth)

theorem csiDispatch_hide (params : Params) (intermediates : List UInt8) (action : Char)
    (hnot : action = 'h' ∨ action = 'l' → 0x3f ∈ intermediates → 1049 ∉ params.flatten) :
    (this.hide alternate saved).csiDispatch width params intermediates action =
      (this.csiDispatch width params intermediates action).map (hide alternate saved) := by
  have hmodes : ∀ (this : Terminal) set, (action = 'h' ∨ action = 'l') →
      (if intermediates.contains 0x3f then
        params.flatten.foldlM (fun (this : Terminal) value => this.handlePrivateMode value set) this
      else some this) = some this := by
    intro this set haction
    split
    · rename_i hprivate
      rw [privateModes_eq, if_neg (hnot haction (by simpa using hprivate))]
    · rfl
  unfold csiDispatch
  split
  case h_12 =>
    rcases hparam : paramAt params 0 0 with _ | _ | _ | _ | value
    · exact this.clearToEndOfScreen_hide width this.style
    · exact this.clearToStartOfScreen_hide width this.style
    · exact this.clearWholeRows_hide width _ this.style
    · exact this.clearWholeRows_hide width _ this.style
    · rfl
  case h_13 =>
    rcases hparam : paramAt params 0 0 with _ | _ | _ | value
    · exact this.clearRowRange_hide width _ _ _ this.style
    · exact this.clearRowRange_hide width _ _ _ this.style
    · exact this.clearRowRange_hide width _ _ _ this.style
    · rfl
  case h_14 => exact this.insertBlankChars_hide width _
  case h_15 => exact this.deleteChars_hide width _
  case h_16 => exact this.eraseChars_hide width _
  case h_17 => exact this.insertLines_hide _
  case h_18 => exact this.deleteLines_hide _
  case h_19 => exact this.scrollUpRegion_hide _ _ _
  case h_20 => exact this.scrollDownRegion_hide _ _ _
  case h_21 => exact congrArg some (this.setScrollRegion_hide _ _)
  case h_24 => rw [hmodes _ _ (.inl rfl), hmodes _ _ (.inl rfl)]; rfl
  case h_25 => rw [hmodes _ _ (.inr rfl), hmodes _ _ (.inr rfl)]; rfl
  all_goals rfl

/-- The two screens are looked at by no other callback. -/
theorem perform_hide {callback : Callback}
    (hnot : ∀ action, action = 'h' ∨ action = 'l' → switches action callback = false) :
    (this.hide alternate saved).perform width callback =
      (this.perform width callback).map (hide alternate saved) := by
  cases callback with
  | print c => exact this.putChar_hide width c
  | execute byte => exact this.execute_hide byte
  | csiDispatch params intermediates ignore action =>
    apply this.csiDispatch_hide width params intermediates action
    intro haction hprivate hmem
    have hswitch := hnot action haction
    simp [switches, hprivate, hmem] at hswitch
  | escDispatch intermediates ignore byte => exact this.escDispatch_hide intermediates byte
  | hook | put | unhook | oscDispatch => rfl

theorem feed_hide {callbacks : List Callback}
    (hnot : ∀ callback ∈ callbacks, ∀ action, action = 'h' ∨ action = 'l' →
      switches action callback = false) :
    (this.hide alternate saved).feed width callbacks =
      (this.feed width callbacks).map (hide alternate saved) := by
  induction callbacks generalizing this with
  | nil => rfl
  | cons callback callbacks ih =>
    rw [List.forall_mem_cons] at hnot
    rw [feed, feed, List.foldlM_cons, List.foldlM_cons]
    exact bind_hide (this.perform_hide width hnot.1) fun next => ih next hnot.2

/-- So they are kept. -/
theorem perform_keeps {callback : Callback}
    (hnot : ∀ action, action = 'h' ∨ action = 'l' → switches action callback = false)
    {next : Terminal} (hperform : this.perform width callback = some next) :
    next.alternateScreen = this.alternateScreen ∧ next.savedMainScreen = this.savedMainScreen := by
  have hhide := @perform_hide this.alternateScreen this.savedMainScreen this width callback hnot
  rw [hide_self, hperform] at hhide
  rw [Option.some.inj hhide]
  exact ⟨rfl, rfl⟩

end Callbacks

end Terminal

end ManInTheBox.Emulator
