import ManInTheBox.Emulator.RowEdit

/-! # The sequences that edit lines

CSI J, K, X, @ and P edit one row, or several of them, from the cursor on, up to the
cursor, or as a whole. What becomes of each row is its edit followed by the pass over it.
-/

namespace ManInTheBox.Emulator

open Library

variable {width : UnicodeWidth} {this : Terminal}

namespace Terminal

/-- How a control sequence edits the row `r`. -/
def lineEdit (this : Terminal) (params : Params) (action : Char) (r : ℕ) : Option RowEdit :=
  let row := min this.cursorRow (this.rows - 1)
  let col := min this.cursorCol (this.cols - 1)
  match action with
  | 'J' =>
    match paramAt params 0 0 with
    | 0 =>
      if r < row then none else if r = row then some (.erase col this.cols)
      else some (.erase 0 this.cols)
    | 1 =>
      if r < row then some (.erase 0 this.cols) else if r = row then some (.erase 0 (col + 1))
      else none
    | 2 | 3 => some (.erase 0 this.cols)
    | _ => none
  | 'K' =>
    if r = row then
      match paramAt params 0 0 with
      | 0 => some (.erase col this.cols)
      | 1 => some (.erase 0 (col + 1))
      | 2 => some (.erase 0 this.cols)
      | _ => none
    else none
  | 'X' => if r = row then some (.erase col (min (col + paramCount params 1) this.cols)) else none
  | '@' => if r = row then some (.insert col (paramCount params 1)) else none
  | 'P' => if r = row then some (.delete col (paramCount params 1)) else none
  | _ => none

/-- Edit some rows of the buffer, with `f` for what an edit does. -/
def editRows (this : Terminal) (f : RowEdit → Row → Row) (edits : ℕ → Option RowEdit) : Terminal :=
  this.withBuffer (this.buffer.mapIdx fun r row => (edits r).elim row fun edit => f edit row)

/-- A buffer of the size of the screen, which has at least one cell. -/
structure Sized (this : Terminal) : Prop where
  rows_pos : 0 < this.rows
  cols_pos : 0 < this.cols
  length : this.buffer.length = this.rows
  row : ∀ row ∈ this.buffer, row.length = this.cols

section EditRows

variable {f : RowEdit → Row → Row} {edits edits' last : ℕ → Option RowEdit}

theorem getElem?_editRows (r : ℕ) : (this.editRows f edits).buffer[r]? =
    this.buffer[r]?.map fun row => (edits r).elim row fun edit => f edit row :=
  List.getElem?_mapIdx

@[simp] theorem editRows_rows : (this.editRows f edits).rows = this.rows := rfl

@[simp] theorem editRows_cols : (this.editRows f edits).cols = this.cols := rfl

/-- What is to be done to a row that does not exist does not matter. -/
theorem editRows_congr (h : ∀ r < this.buffer.length, edits r = edits' r) :
    this.editRows f edits = this.editRows f edits' := by
  have hbuffer : (this.editRows f edits).buffer = (this.editRows f edits').buffer := by
    apply List.ext_getElem?
    intro r
    rw [getElem?_editRows, getElem?_editRows]
    cases hget : this.buffer[r]? with
    | none => rfl
    | some row => rw [h r (List.getElem?_eq_some_iff.mp hget).1]
  exact congrArg this.withBuffer hbuffer

theorem editRows_none : this.editRows f (fun _ => none) = this := by
  have hbuffer : this.buffer.mapIdx (fun _ row => row) = this.buffer := by
    apply List.ext_getElem?
    intro r
    simp
  rw [editRows]
  exact congrArg this.withBuffer hbuffer

/-- Edits one after the other, row by row. -/
theorem editRows_editRows (h : ∀ r row, this.buffer[r]? = some row →
      (edits' r).elim ((edits r).elim row fun edit => f edit row)
        (fun edit' => f edit' ((edits r).elim row fun edit => f edit row)) =
      (last r).elim row fun edit => f edit row) :
    (this.editRows f edits).editRows f edits' = this.editRows f last := by
  have hbuffer : ((this.editRows f edits).editRows f edits').buffer =
      (this.editRows f last).buffer := by
    apply List.ext_getElem?
    intro r
    rw [getElem?_editRows, getElem?_editRows, getElem?_editRows]
    cases hget : this.buffer[r]? with
    | none => rfl
    | some row => exact congrArg some (h r row hget)
  exact congrArg this.withBuffer hbuffer

theorem Sized.editRows (h : this.Sized) (hf : ∀ edit row, (f edit row).length = row.length) :
    (this.editRows f edits).Sized := by
  refine ⟨h.rows_pos, h.cols_pos, by simp [Terminal.editRows, withBuffer, h.length], ?_⟩
  intro row hrow
  obtain ⟨r, hget⟩ := List.getElem?_of_mem hrow
  rw [getElem?_editRows, Option.map_eq_some_iff] at hget
  obtain ⟨old, hold, rfl⟩ := hget
  have hlength := h.row old (List.mem_of_getElem? hold)
  cases edits r with
  | none => exact hlength
  | some edit => exact (hf edit old).trans hlength

end EditRows

/-! ## One row -/

theorem modifyRow_eq {row : ℕ} {cells cells' : Row} {f : Row → Option Row}
    (hget : this.buffer[row]? = some cells) (hf : f cells = some cells') :
    this.modifyRow row f = some (this.withBuffer (this.buffer.set row cells')) := by
  have hlt := (List.getElem?_eq_some_iff.mp hget).1
  simp only [modifyRow, hget, hf, setRow, if_pos hlt, Option.bind_eq_bind, Option.bind_some]

/-- One row is edited. -/
def editRow (width : UnicodeWidth) (row : ℕ) (edit : RowEdit) (style : Style) (this : Terminal) :
    Terminal :=
  this.editRows (fun edit => edit.applied width style) fun r => if r = row then some edit else none

theorem editRow_eq {row : ℕ} {cells : Row} (hget : this.buffer[row]? = some cells) (edit : RowEdit)
    (style : Style) :
    this.editRow width row edit style =
      this.withBuffer (this.buffer.set row (edit.applied width style cells)) := by
  have hlt := (List.getElem?_eq_some_iff.mp hget).1
  rw [editRow, editRows]
  congr 1
  apply List.ext_getElem?
  intro i
  rw [List.getElem?_mapIdx, List.getElem?_set]
  by_cases hi : row = i
  · subst hi
    rw [hget, if_pos rfl, if_pos hlt]
    simp
  · simp [hi, Ne.symm hi]

theorem Sized.getElem? (h : this.Sized) {row : ℕ} (hrow : row < this.rows) :
    ∃ cells, this.buffer[row]? = some cells ∧ cells.length = this.cols := by
  have hlt : row < this.buffer.length := by rwa [h.length]
  exact ⟨this.buffer[row], List.getElem?_eq_getElem hlt, h.row _ (List.getElem_mem hlt)⟩

/-- What is left of an operation on a row once the loops are done. -/
theorem sanitizeRow_eq (h : this.Sized) {row : ℕ} (hrow : row < this.rows) {cells : Row}
    (hget : this.buffer[row]? = some cells) (edit : RowEdit) (style : Style) :
    (this.withBuffer (this.buffer.set row (edit.raw style cells))).sanitizeRow width row =
      some (this.editRow width row edit style) := by
  have hlt := (List.getElem?_eq_some_iff.mp hget).1
  have hcols : cells.length = this.cols := h.row cells (List.mem_of_getElem? hget)
  have hpass := RowEdit.sanitize_raw width edit style cells
  rw [hcols] at hpass
  have hnot : ¬ (this.withBuffer (this.buffer.set row (edit.raw style cells))).rows ≤ row := by
    exact not_le.mpr hrow
  rw [sanitizeRow, if_neg hnot, editRow_eq hget]
  apply (modifyRow_eq (List.getElem?_set_self hlt) hpass).trans
  simp [withBuffer]

/-- The two loops of a shift and then the pass. -/
theorem shift_sanitizeRow_eq (h : this.Sized) {row : ℕ} (hrow : row < this.rows) {cells : Row}
    (hget : this.buffer[row]? = some cells) {copy : Row → Option Row} (fill : Terminal → Row → Option Row)
    (hfill : ∀ buffer, fill (this.withBuffer buffer) = fill this) {edit : RowEdit}
    (hshift : (copy cells).bind (fill this) = some (edit.raw this.style cells)) :
    ((this.modifyRow row copy).bind fun next =>
      (next.modifyRow row (fill next)).bind fun last => last.sanitizeRow width row) =
      some (this.editRow width row edit this.style) := by
  obtain ⟨copied, hcopy, hedit⟩ := Option.bind_eq_some_iff.mp hshift
  have hlt := (List.getElem?_eq_some_iff.mp hget).1
  have hfilled : (this.withBuffer (this.buffer.set row copied)).modifyRow row (fill this) =
      some (this.withBuffer (this.buffer.set row (edit.raw this.style cells))) := by
    apply (modifyRow_eq (List.getElem?_set_self hlt) hedit).trans
    simp [withBuffer]
  rw [modifyRow_eq hget hcopy, Option.bind_some, hfill, hfilled, Option.bind_some,
    sanitizeRow_eq h hrow hget]

theorem clearRowRange_eq (h : this.Sized) {row start stop : ℕ} (hrow : row < this.rows)
    (hstart : start < stop) (hstop : stop ≤ this.cols) (style : Style) :
    this.clearRowRange width row start stop style =
      some (this.editRow width row (.erase start stop) style) := by
  obtain ⟨cells, hget, hcols⟩ := h.getElem? hrow
  have hfill := @Row.fill_eq cells style start stop hstart.le (by rwa [hcols])
  rw [clearRowRange, if_neg (not_le.mpr hrow)]
  simp only [min_eq_left hstop, min_eq_left (hstart.le.trans hstop)]
  rw [if_neg (not_le.mpr hstart), modifyRow_eq hget hfill, Option.bind_eq_bind, Option.bind_some,
    sanitizeRow_eq h hrow hget]

section Cursor

variable (h : this.Sized)
include h

theorem eraseChars_eq (count : ℕ) (hcount : 0 < count) :
    this.eraseChars width count =
      some (this.editRow width (min this.cursorRow (this.rows - 1))
        (.erase (min this.cursorCol (this.cols - 1))
          (min (min this.cursorCol (this.cols - 1) + count) this.cols)) this.style) := by
  have hrows := h.rows_pos
  have hcols := h.cols_pos
  have hrow : min this.cursorRow (this.rows - 1) < this.rows := by omega
  obtain ⟨cells, hget, hlength⟩ := h.getElem? hrow
  have hfill := @Row.fill_eq cells this.style (min this.cursorCol (this.cols - 1))
    (min (min this.cursorCol (this.cols - 1) + count) this.cols) (by omega) (by omega)
  simp only [eraseChars]
  rw [if_neg (by omega), modifyRow_eq hget hfill, Option.bind_eq_bind, Option.bind_some,
    sanitizeRow_eq h hrow hget]

theorem insertBlankChars_eq (count : ℕ) (hcount : 0 < count) :
    this.insertBlankChars width count =
      some (this.editRow width (min this.cursorRow (this.rows - 1))
        (.insert (min this.cursorCol (this.cols - 1)) count) this.style) := by
  have hrows := h.rows_pos
  have hcols := h.cols_pos
  have hrow : min this.cursorRow (this.rows - 1) < this.rows := by omega
  obtain ⟨cells, hget, hlength⟩ := h.getElem? hrow
  have hcol : min this.cursorCol (this.cols - 1) < cells.length := by omega
  have hshift := @Row.copyRight_fill cells this.style (min this.cursorCol (this.cols - 1))
    (min count (cells.length - min this.cursorCol (this.cols - 1))) hcol (by omega) (min_le_right _ _)
  rw [RowEdit.raw_insert_min hcol, hlength] at hshift
  simp only [insertBlankChars]
  rw [if_neg (by omega), if_neg (by omega), checkedSub_of_le (by omega), Option.bind_eq_bind,
    Option.bind_some]
  exact shift_sanitizeRow_eq h hrow hget
    (fun next => Row.fill _ (_ + _) (Cell.blankWithStyle next.style)) (fun _ => rfl) hshift

theorem deleteChars_eq (count : ℕ) (hcount : 0 < count) :
    this.deleteChars width count =
      some (this.editRow width (min this.cursorRow (this.rows - 1))
        (.delete (min this.cursorCol (this.cols - 1)) count) this.style) := by
  have hrows := h.rows_pos
  have hcols := h.cols_pos
  have hrow : min this.cursorRow (this.rows - 1) < this.rows := by omega
  obtain ⟨cells, hget, hlength⟩ := h.getElem? hrow
  have hcol : min this.cursorCol (this.cols - 1) < cells.length := by omega
  have hshift := @Row.copyLeft_fill cells this.style (min this.cursorCol (this.cols - 1))
    (min count (cells.length - min this.cursorCol (this.cols - 1))) hcol (min_le_right _ _)
  rw [RowEdit.raw_delete_min hcol, hlength] at hshift
  simp only [deleteChars]
  rw [if_neg (by omega), if_neg (by omega), checkedSub_of_le (by omega), Option.bind_eq_bind,
    Option.bind_some]
  exact shift_sanitizeRow_eq h hrow hget
    (fun next => Row.fill _ next.cols (Cell.blankWithStyle next.style)) (fun _ => rfl) hshift

end Cursor

/-! ## Several rows -/

/-- Rows that are cleared as a whole, in whatever order. -/
theorem clearWholeRows_eq (h : this.Sized) {rows : List ℕ} (hrows : ∀ r ∈ rows, r < this.rows)
    (style : Style) :
    this.clearWholeRows width rows style =
      some (this.editRows (fun edit => edit.applied width style) fun r =>
        if r ∈ rows then some (.erase 0 this.cols) else none) := by
  induction rows generalizing this with
  | nil =>
    rw [clearWholeRows, List.foldlM_nil]
    simp only [List.not_mem_nil, if_false, editRows_none]
    rfl
  | cons first rows ih =>
    rw [List.forall_mem_cons] at hrows
    have hfirst := @clearRowRange_eq width this h first 0 this.cols hrows.1 h.cols_pos le_rfl style
    have hsized : (this.editRow width first (.erase 0 this.cols) style).Sized :=
      h.editRows fun edit row => RowEdit.length_applied edit style row
    have hrest := ih hsized hrows.2
    rw [clearWholeRows, List.foldlM_cons, hfirst, Option.bind_eq_bind, Option.bind_some,
      ← clearWholeRows, hrest]
    refine congrArg some (editRows_editRows fun r row hget => ?_)
    have hcols : row.length = this.cols := h.row row (List.mem_of_getElem? hget)
    by_cases hr : r = first
    · by_cases hmem : r ∈ rows
      · -- It does not matter that the row is cleared already.
        have hagain := @RowEdit.applied_whole width style
          ((RowEdit.erase 0 this.cols).applied width style row) row (by simp)
        rw [RowEdit.length_applied, hcols] at hagain
        simpa [hr, hr ▸ hmem, editRow, editRows, withBuffer] using hagain
      · simp [hr, hr ▸ hmem]
    · by_cases hmem : r ∈ rows
      · simp [hr, hmem, editRow, editRows, withBuffer]
      · simp [hr, hmem]

theorem clearToEndOfScreen_eq (h : this.Sized) (style : Style) :
    this.clearToEndOfScreen width style =
      some (this.editRows (fun edit => edit.applied width style) fun r =>
        if r < min this.cursorRow (this.rows - 1) then none
        else if r = min this.cursorRow (this.rows - 1) then
          some (.erase (min this.cursorCol (this.cols - 1)) this.cols)
        else some (.erase 0 this.cols)) := by
  have hrows := h.rows_pos
  have hcols := h.cols_pos
  have hsized : (this.editRow width (min this.cursorRow (this.rows - 1))
      (.erase (min this.cursorCol (this.cols - 1)) this.cols) style).Sized :=
    h.editRows fun edit row => RowEdit.length_applied edit style row
  simp only [clearToEndOfScreen]
  rw [clearRowRange_eq h (by omega) (by omega) le_rfl, Option.bind_eq_bind, Option.bind_some,
    clearWholeRows_eq hsized]
  · refine congrArg some (editRows_editRows fun r row hget => ?_)
    have hr' : r < this.rows := h.length ▸ (List.getElem?_eq_some_iff.mp hget).1
    simp only [List.mem_range'_1, editRow, editRows_rows, editRows_cols]
    rcases lt_trichotomy r (min this.cursorRow (this.rows - 1)) with hr | hr | hr
    · rw [if_neg (by omega), if_neg (by omega), if_pos hr]
      rfl
    · rw [if_neg (by omega), if_pos hr, if_neg (by omega), if_pos hr]
      rfl
    · rw [if_pos (by omega), if_neg (by omega), if_neg (by omega), if_neg (by omega)]
      rfl
  · intro r hr
    have hrange := List.mem_range'_1.mp hr
    simp only [editRow, editRows_rows] at hrange ⊢
    omega

theorem clearToStartOfScreen_eq (h : this.Sized) (style : Style) :
    this.clearToStartOfScreen width style =
      some (this.editRows (fun edit => edit.applied width style) fun r =>
        if r < min this.cursorRow (this.rows - 1) then some (.erase 0 this.cols)
        else if r = min this.cursorRow (this.rows - 1) then
          some (.erase 0 (min this.cursorCol (this.cols - 1) + 1))
        else none) := by
  have hrows := h.rows_pos
  have hcols := h.cols_pos
  have hsized : (this.editRows (fun edit => edit.applied width style) fun r =>
      if r ∈ List.range (min this.cursorRow (this.rows - 1)) then some (.erase 0 this.cols)
      else none).Sized :=
    h.editRows fun edit row => RowEdit.length_applied edit style row
  simp only [clearToStartOfScreen]
  rw [clearWholeRows_eq h, Option.bind_eq_bind, Option.bind_some, clearRowRange_eq hsized]
  · refine congrArg some (editRows_editRows fun r row _ => ?_)
    simp only [List.mem_range]
    rcases lt_trichotomy r (min this.cursorRow (this.rows - 1)) with hr | hr | hr
    · rw [if_pos hr, if_neg (by omega), if_pos hr]
      rfl
    · rw [if_pos hr, if_neg (by omega), if_neg (by omega)]
      rfl
    · rw [if_neg (by omega), if_neg (by omega)]
      rfl
  · rw [editRows_rows]
    omega
  · omega
  · rw [editRows_cols]
    omega
  · intro r hr
    have hrange := List.mem_range.mp hr
    omega

theorem clearScreenAll_eq (h : this.Sized) (style : Style) :
    this.clearScreenAll width style =
      some (this.editRows (fun edit => edit.applied width style)
        fun _ => some (.erase 0 this.cols)) := by
  rw [clearScreenAll, clearWholeRows_eq h (fun r hr => List.mem_range.mp hr)]
  refine congrArg some (editRows_congr fun r hr => ?_)
  rw [if_pos (List.mem_range.mpr (h.length ▸ hr))]

theorem paramCount_pos (params : Params) : 0 < paramCount params 1 := by
  rw [paramCount, paramAt]
  split
  · decide
  · rename_i hne
    exact Nat.pos_of_ne_zero fun hzero => hne (UInt16.toNat_inj.mp hzero)

theorem eraseInDisplay_eq (h : this.Sized) (params : Params) (intermediates : List UInt8) :
    this.csiDispatch width params intermediates 'J' =
      some (this.editRows (fun edit => edit.applied width this.style)
        fun r => this.lineEdit params 'J' r) := by
  rcases hparam : paramAt params 0 0 with _ | _ | _ | _ | value
  · simpa only [csiDispatch, lineEdit, hparam] using clearToEndOfScreen_eq h this.style
  · simpa only [csiDispatch, lineEdit, hparam] using clearToStartOfScreen_eq h this.style
  · simpa only [csiDispatch, lineEdit, hparam] using clearScreenAll_eq h this.style
  · simpa only [csiDispatch, lineEdit, hparam] using clearScreenAll_eq h this.style
  · simp only [csiDispatch, lineEdit, hparam, editRows_none]

theorem eraseInLine_eq (h : this.Sized) (params : Params) (intermediates : List UInt8) :
    this.csiDispatch width params intermediates 'K' =
      some (this.editRows (fun edit => edit.applied width this.style)
        fun r => this.lineEdit params 'K' r) := by
  have hrows := h.rows_pos
  have hcols := h.cols_pos
  have hclear := @clearRowRange_eq width this h (min this.cursorRow (this.rows - 1))
  rcases hparam : paramAt params 0 0 with _ | _ | _ | value
  · simp only [csiDispatch, lineEdit, hparam]
    exact hclear (by omega) (by omega) le_rfl this.style
  · simp only [csiDispatch, lineEdit, hparam]
    exact hclear (by omega) (by omega) (by omega) this.style
  · simp only [csiDispatch, lineEdit, hparam]
    exact hclear (by omega) hcols le_rfl this.style
  · simp only [csiDispatch, lineEdit, hparam, ite_self, editRows_none]

/-- Every sequence that edits lines does its edit on each row, followed by the pass. -/
theorem csiDispatch_edit (h : this.Sized) (params : Params) (intermediates : List UInt8)
    {action : Char} (haction : action ∈ ['J', 'K', 'X', '@', 'P']) :
    this.csiDispatch width params intermediates action =
      some (this.editRows (fun edit => edit.applied width this.style)
        (this.lineEdit params action)) := by
  have hcount := paramCount_pos params
  simp only [List.mem_cons, List.not_mem_nil, or_false] at haction
  rcases haction with rfl | rfl | rfl | rfl | rfl
  · exact eraseInDisplay_eq h params intermediates
  · exact eraseInLine_eq h params intermediates
  · exact eraseChars_eq h _ hcount
  · exact insertBlankChars_eq h _ hcount
  · exact deleteChars_eq h _ hcount

/-- The sequence edits from the cursor on, and not from the start of the line. -/
def editsFromCursor (params : Params) (action : Char) : Bool :=
  match action with
  | 'J' | 'K' => paramAt params 0 0 == 0
  | 'X' | '@' | 'P' => true
  | _ => false

/-- The cursor stands on the right half of a wide character. -/
def OnRightHalf (this : Terminal) : Prop :=
  ∃ row, this.buffer[min this.cursorRow (this.rows - 1)]? = some row ∧
    contAt row (min this.cursorCol (this.cols - 1)) = true

/-- No edit goes beyond its row, and each does something. It begins at the cursor or in the first
column. -/
theorem lineEdit_within (h : this.Sized) {params : Params} {action : Char} {r : ℕ} {edit : RowEdit}
    (hedit : this.lineEdit params action r = some edit) :
    edit.Within this.cols ∧ (edit.left = 0 ∨
      editsFromCursor params action = true ∧ r = min this.cursorRow (this.rows - 1) ∧
        edit.left = min this.cursorCol (this.cols - 1)) := by
  have hcols := h.cols_pos
  have hcount := paramCount_pos params
  have hwhole : (RowEdit.erase 0 this.cols).Within this.cols := ⟨hcols, le_rfl⟩
  have hstart : (RowEdit.erase 0 (min this.cursorCol (this.cols - 1) + 1)).Within this.cols :=
    ⟨by omega, by omega⟩
  have hend : (RowEdit.erase (min this.cursorCol (this.cols - 1)) this.cols).Within this.cols :=
    ⟨by omega, le_rfl⟩
  have hcol : min this.cursorCol (this.cols - 1) < this.cols := by omega
  unfold lineEdit at hedit
  split at hedit
  · rcases hparam : paramAt params 0 0 with _ | _ | _ | _ | value
    · simp only [hparam] at hedit
      split_ifs at hedit with _ hr
      · exact Option.some.inj hedit ▸ ⟨hend, .inr ⟨by simp [editsFromCursor, hparam], hr, rfl⟩⟩
      · exact Option.some.inj hedit ▸ ⟨hwhole, .inl rfl⟩
    · simp only [hparam] at hedit
      split_ifs at hedit
      · exact Option.some.inj hedit ▸ ⟨hwhole, .inl rfl⟩
      · exact Option.some.inj hedit ▸ ⟨hstart, .inl rfl⟩
    · simp only [hparam] at hedit
      exact Option.some.inj hedit ▸ ⟨hwhole, .inl rfl⟩
    · simp only [hparam] at hedit
      exact Option.some.inj hedit ▸ ⟨hwhole, .inl rfl⟩
    · simp [hparam] at hedit
  · rcases hparam : paramAt params 0 0 with _ | _ | _ | value
    · simp only [hparam] at hedit
      split_ifs at hedit with hr
      exact Option.some.inj hedit ▸ ⟨hend, .inr ⟨by simp [editsFromCursor, hparam], hr, rfl⟩⟩
    · simp only [hparam] at hedit
      split_ifs at hedit
      exact Option.some.inj hedit ▸ ⟨hstart, .inl rfl⟩
    · simp only [hparam] at hedit
      split_ifs at hedit
      exact Option.some.inj hedit ▸ ⟨hwhole, .inl rfl⟩
    · simp [hparam] at hedit
  · simp only at hedit
    split_ifs at hedit with hr
    refine Option.some.inj hedit ▸ ⟨⟨?_, min_le_right _ _⟩, .inr ⟨rfl, hr, rfl⟩⟩
    omega
  · simp only at hedit
    split_ifs at hedit with hr
    exact Option.some.inj hedit ▸ ⟨⟨hcol, hcount⟩, .inr ⟨rfl, hr, rfl⟩⟩
  · simp only at hedit
    split_ifs at hedit with hr
    exact Option.some.inj hedit ▸ ⟨⟨hcol, hcount⟩, .inr ⟨rfl, hr, rfl⟩⟩
  · cases hedit

theorem lineEdit_fromCursor {params : Params} {action : Char}
    (hcursor : editsFromCursor params action = true) :
    ∃ edit, this.lineEdit params action (min this.cursorRow (this.rows - 1)) = some edit ∧
      edit.left = min this.cursorCol (this.cols - 1) := by
  unfold editsFromCursor at hcursor
  split at hcursor
  · rw [beq_iff_eq] at hcursor
    simp [lineEdit, hcursor, RowEdit.left]
  · rw [beq_iff_eq] at hcursor
    simp [lineEdit, hcursor, RowEdit.left]
  · simp [lineEdit, RowEdit.left]
  · simp [lineEdit, RowEdit.left]
  · simp [lineEdit, RowEdit.left]
  · cases hcursor

theorem editRows_inj {f g : RowEdit → Row → Row} {edits : ℕ → Option RowEdit} :
    this.editRows f edits = this.editRows g edits ↔
      ∀ r row edit, this.buffer[r]? = some row → edits r = some edit → f edit row = g edit row := by
  constructor
  · intro heq r row edit hget hedit
    have hrow := congrArg (fun next => next.buffer[r]?) heq
    simpa only [getElem?_editRows, hget, hedit, Option.map_some, Option.elim_some, Option.some.injEq]
      using hrow
  · intro hall
    have hbuffer : (this.editRows f edits).buffer = (this.editRows g edits).buffer := by
      apply List.ext_getElem?
      intro r
      rw [getElem?_editRows, getElem?_editRows]
      cases hget : this.buffer[r]? with
      | none => rfl
      | some row =>
        cases hedit : edits r with
        | none => rfl
        | some edit => exact congrArg some (hall r row edit hget hedit)
    exact congrArg this.withBuffer hbuffer

end Terminal

/-- For every screen with whole characters, wherever its cursor is: a sequence that edits lines does
with each row what it is to do, exactly if it does not begin on the right half of a wide
character. -/
theorem lineEdit_iff (width : UnicodeWidth) (hspace : width ' ' = some 1) {this : Terminal}
    (h : this.Sized) (hpaired : ∀ row ∈ this.buffer, Paired width row) (params : Params)
    (intermediates : List UInt8) {action : Char} (haction : action ∈ ['J', 'K', 'X', '@', 'P']) :
    this.csiDispatch width params intermediates action =
        some (this.editRows (fun edit => edit.reference this.style)
          (this.lineEdit params action)) ↔
      ¬ (Terminal.editsFromCursor params action = true ∧ this.OnRightHalf) := by
  have hiff : ∀ r row edit, this.buffer[r]? = some row → this.lineEdit params action r = some edit →
      (edit.applied width this.style row = edit.reference this.style row ↔
        contAt row edit.left = false) := by
    intro r row edit hget hedit
    have hmem := List.mem_of_getElem? hget
    have hwithin := (Terminal.lineEdit_within h hedit).1
    rw [← h.row row hmem] at hwithin
    exact RowEdit.repairedUpTo_raw_iff hspace hwithin (hpaired row hmem)
  rw [Terminal.csiDispatch_edit h params intermediates haction, Option.some.injEq,
    Terminal.editRows_inj]
  constructor
  · rintro hall ⟨hcursor, row, hget, hcont⟩
    obtain ⟨edit, hedit, hleft⟩ := @Terminal.lineEdit_fromCursor this params action hcursor
    have huncut := (hiff _ row edit hget hedit).mp (hall _ row edit hget hedit)
    rw [hleft, hcont] at huncut
    cases huncut
  · intro hnot r row edit hget hedit
    apply (hiff r row edit hget hedit).mpr
    rcases (Terminal.lineEdit_within h hedit).2 with hleft | ⟨hcursor, rfl, hleft⟩
    · rw [hleft]
      exact hpaired row (List.mem_of_getElem? hget) 0
    · by_contra hcont
      rw [hleft, Bool.not_eq_false] at hcont
      exact hnot ⟨hcursor, row, hget, hcont⟩

theorem Terminal.sized_of_feed_new (hspace : width ' ' = some 1) {cols rows : ℕ}
    {callbacks : List Callback} (hreached : (Terminal.new cols rows).feed width callbacks = some this) :
    this.Sized ∧ ∀ row ∈ this.buffer, Paired width row := by
  obtain ⟨hok, hin⟩ := Terminal.ok_of_feed_new hspace hreached
  refine ⟨⟨?_, ?_, hok.shown.length, fun row hrow => (hok.shown.row row hrow).length⟩,
    fun row hrow => (hok.shown.row row hrow).paired⟩
  · exact Nat.zero_lt_of_lt (hin.row_lt.trans_eq hin.rows_eq.symm)
  · exact Nat.zero_lt_of_lt (hin.col_lt.trans_eq hin.cols_eq.symm)

/-- A cut at the right edge: one column is erased from the left half on. -/
theorem lineEdit_iff_right :
    ∃ this, (Terminal.new 3 1).feed exampleWidth
        [.print '世', .csiDispatch [] [] false 'H'] = some this ∧
      this.csiDispatch exampleWidth [[1]] [] 'X' =
        some (this.editRows (fun edit => edit.reference this.style) (this.lineEdit [[1]] 'X')) := by
  have hreached : (Terminal.new 3 1).feed exampleWidth
      [.print '世', .csiDispatch [] [] false 'H'] = some _ := rfl
  obtain ⟨hsized, hpaired⟩ := Terminal.sized_of_feed_new (by decide) hreached
  refine ⟨_, rfl, (lineEdit_iff exampleWidth (by decide) hsized hpaired [[1]] []
    (by decide : 'X' ∈ ['J', 'K', 'X', '@', 'P'])).mpr ?_⟩
  rintro ⟨-, row, hget, hcont⟩
  obtain rfl := Option.some.inj hget
  exact absurd hcont (by decide)

/-- A cut at the left edge: the wide character takes the erased cell again. -/
theorem not_lineEdit :
    ¬ ∀ (width : UnicodeWidth) (this : Terminal) (params : Params) (intermediates : List UInt8) action,
      width ' ' = some 1 → this.Sized → (∀ row ∈ this.buffer, Paired width row) →
      action ∈ ['J', 'K', 'X', '@', 'P'] →
      this.csiDispatch width params intermediates action =
        some (this.editRows (fun edit => edit.reference this.style)
          (this.lineEdit params action)) := by
  intro hall
  have hreached : (Terminal.new 3 1).feed exampleWidth
      [.print '世', .csiDispatch [[2]] [] false 'G'] = some _ := rfl
  obtain ⟨hsized, hpaired⟩ := Terminal.sized_of_feed_new (by decide) hreached
  have hedit := hall exampleWidth _ [[1]] [] 'X' (by decide) hsized hpaired (by decide)
  exact absurd hedit (by decide)

end ManInTheBox.Emulator
