import ManInTheBox.Emulator.Tracker

/-! # The answers to cursor position requests

The reader thread feeds the output of the child to its tracker and writes the answers
back. The pseudo terminal is opened with one geometry and the tracker with another, so
an answer is a position on the terminal of the child only where the two do not differ.
-/

namespace ManInTheBox.Emulator

def ptyCols : ℕ := 72

def ptyRows : ℕ := 27

/-! ## What the tracker answers -/

/-- `CSI 6 n` in each of its spellings. -/
def isCursorQuery : Callback → Bool
  | .csiDispatch params intermediates _ action =>
    action == 'n' && intermediates.isEmpty && paramAt params 0 0 == 6
  | _ => false

namespace PtyTerminalState

/-- The position of the cursor, as it is reported. -/
def report (this : PtyTerminalState) : Bytes :=
  cursorReport (this.cursorRow + 1) (this.cursorCol + 1)

def answer (this : PtyTerminalState) (callback : Callback) : List Bytes :=
  if isCursorQuery callback then [this.report] else []

/-- The answers to the requests among some callbacks. -/
def answers (this : PtyTerminalState) : List Callback → List Bytes
  | [] => []
  | callback :: callbacks => this.answer callback ++ (this.perform callback).answers callbacks

/-- Replace the answers that wait. -/
def withPending (this : PtyTerminalState) (pending : List Bytes) : PtyTerminalState :=
  { this with pendingResponses := pending }

theorem withPending_self (this : PtyTerminalState) :
    this.withPending this.pendingResponses = this := rfl

theorem putChar_withPending (this : PtyTerminalState) (pending : List Bytes) (c : Char) :
    (this.withPending pending).putChar c = (this.putChar c).withPending pending := by
  by_cases hcontrol : isControl c
  · simp [putChar, hcontrol]
  · by_cases hwrap : this.cols ≤ this.cursorCol + if charIsWide c then 2 else 1
    · simp [putChar, hcontrol, hwrap, withPending, setCursor, linefeed]
    · simp [putChar, hcontrol, hwrap, withPending, setCursor]

theorem execute_withPending (this : PtyTerminalState) (pending : List Bytes) (byte : UInt8) :
    (this.withPending pending).execute byte = (this.execute byte).withPending pending := by
  unfold execute
  split <;> rfl

theorem escDispatch_withPending (this : PtyTerminalState) (pending : List Bytes)
    (intermediates : List UInt8) (byte : UInt8) :
    (this.withPending pending).escDispatch intermediates byte =
      (this.escDispatch intermediates byte).withPending pending := by
  unfold escDispatch
  split <;> rfl

theorem csiDispatch_withPending (this : PtyTerminalState) (pending : List Bytes) (params : Params)
    (intermediates : List UInt8) {action : Char} (hn : action ≠ 'n') :
    (this.withPending pending).csiDispatch params intermediates action =
      (this.csiDispatch params intermediates action).withPending pending := by
  unfold csiDispatch
  split <;> first | rfl | exact absurd rfl hn

/-- What waits already neither changes nor is changed by a callback, which adds its own answer. -/
theorem perform_withPending (this : PtyTerminalState) (pending : List Bytes)
    (callback : Callback) :
    (this.withPending pending).perform callback =
      (this.perform callback).withPending (pending ++ this.answer callback) := by
  cases callback with
  | print c => simp [perform, answer, isCursorQuery, putChar_withPending]
  | execute byte => simp [perform, answer, isCursorQuery, execute_withPending]
  | escDispatch intermediates ignore byte =>
    simp [perform, answer, isCursorQuery, escDispatch_withPending]
  | csiDispatch params intermediates ignore action =>
    by_cases hn : action = 'n'
    · subst hn
      by_cases hquery : intermediates.isEmpty && paramAt params 0 0 == 6
      · simp [perform, csiDispatch, answer, isCursorQuery, hquery, enqueueCursorReport, withPending,
          report]
      · simp [perform, csiDispatch, answer, isCursorQuery, hquery, withPending]
    · simp [perform, answer, isCursorQuery, hn, csiDispatch_withPending]
  | hook | put | unhook | oscDispatch => simp [perform, answer, isCursorQuery, withPending]

theorem foldl_withPending (this : PtyTerminalState) (pending : List Bytes)
    (callbacks : List Callback) :
    callbacks.foldl perform (this.withPending pending) =
      (callbacks.foldl perform this).withPending (pending ++ this.answers callbacks) := by
  induction callbacks generalizing this pending with
  | nil => simp [answers]
  | cons callback callbacks ih =>
    simp only [List.foldl_cons, perform_withPending, answers]
    rw [ih, List.append_assoc]

theorem answers_withPending (this : PtyTerminalState) (pending : List Bytes)
    (callbacks : List Callback) :
    (this.withPending pending).answers callbacks = this.answers callbacks := by
  induction callbacks generalizing this pending with
  | nil => rfl
  | cons callback callbacks ih =>
    simp only [answers, perform_withPending, ih]
    rfl

theorem answers_append (this : PtyTerminalState) (callbacks later : List Callback) :
    this.answers (callbacks ++ later) =
      this.answers callbacks ++ (callbacks.foldl perform this).answers later := by
  induction callbacks generalizing this with
  | nil => simp [answers]
  | cons callback callbacks ih => simp [answers, ih]

/-- One answer to each request. -/
theorem length_answers (this : PtyTerminalState) (callbacks : List Callback) :
    (this.answers callbacks).length = callbacks.countP isCursorQuery := by
  induction callbacks generalizing this with
  | nil => rfl
  | cons callback callbacks ih =>
    by_cases hquery : isCursorQuery callback
    · simp [answers, answer, hquery, ih]
    · simp [answers, answer, hquery, ih]

/-- The answers come in the order of the requests, each with the position at its request. -/
theorem answers_getElem? (this : PtyTerminalState) (before after : List Callback)
    {query : Callback} (hquery : isCursorQuery query) :
    (this.answers (before ++ query :: after))[before.countP isCursorQuery]? =
      some (before.foldl perform this).report := by
  rw [answers_append, ← length_answers this before]
  simp [answers, answer, hquery]

theorem mem_answers {this : PtyTerminalState} {callbacks : List Callback} {reply : Bytes}
    (h : reply ∈ this.answers callbacks) :
    ∃ before query after, callbacks = before ++ query :: after ∧ isCursorQuery query ∧
      reply = (before.foldl perform this).report := by
  induction callbacks generalizing this with
  | nil => simp [answers] at h
  | cons callback callbacks ih =>
    rw [answers, List.mem_append] at h
    rcases h with h | h
    · by_cases hquery : isCursorQuery callback
      · have hreply : reply = this.report := by simpa [answer, hquery] using h
        exact ⟨[], callback, callbacks, rfl, hquery, hreply⟩
      · simp [answer, hquery] at h
    · obtain ⟨before, query, after, rfl, hquery, hreply⟩ := ih h
      exact ⟨callback :: before, query, after, rfl, hquery, hreply⟩

/-! ## The cursor stays on the screen of the tracker -/

structure Inside (cols rows : ℕ) (this : PtyTerminalState) : Prop where
  cols_eq : this.cols = cols
  rows_eq : this.rows = rows
  col_lt : this.cursorCol < cols
  row_lt : this.cursorRow < rows

namespace Inside

variable {cols rows : ℕ} {this : PtyTerminalState}

theorem new (cols rows : ℕ) :
    Inside (max cols 1) (max rows 1) (PtyTerminalState.new cols rows) := by
  constructor <;> simp [PtyTerminalState.new]

theorem setCursor (h : Inside cols rows this) {row col : ℕ} (hrow : row < rows)
    (hcol : col < cols) : Inside cols rows (this.setCursor row col) where
  cols_eq := h.cols_eq
  rows_eq := h.rows_eq
  col_lt := hcol
  row_lt := hrow

theorem linefeed (h : Inside cols rows this) : Inside cols rows this.linefeed := by
  have hrow := h.row_lt
  have hrows := h.rows_eq
  exact h.setCursor (by omega) h.col_lt

theorem putChar (h : Inside cols rows this) (c : Char) : Inside cols rows (this.putChar c) := by
  have hcol := h.col_lt
  have hcols := h.cols_eq
  by_cases hcontrol : isControl c
  · simpa [PtyTerminalState.putChar, hcontrol] using h
  · by_cases hwrap : this.cols ≤ this.cursorCol + if charIsWide c then 2 else 1
    · have hline := (h.setCursor h.row_lt (by omega : 0 < cols)).linefeed
      simpa [PtyTerminalState.putChar, hcontrol, hwrap] using hline
    · have hnext := h.setCursor h.row_lt
        (by omega : (this.cursorCol + if charIsWide c then 2 else 1) < cols)
      simpa [PtyTerminalState.putChar, hcontrol, hwrap] using hnext

theorem execute (h : Inside cols rows this) (byte : UInt8) :
    Inside cols rows (this.execute byte) := by
  have hcol := h.col_lt
  have hcols := h.cols_eq
  unfold PtyTerminalState.execute
  split
  · exact h.linefeed
  · exact h.setCursor h.row_lt (by omega)
  · exact h.setCursor h.row_lt (by omega)
  · exact h.setCursor h.row_lt (by omega)
  · exact h

theorem saveCursor (h : Inside cols rows this) : Inside cols rows this.saveCursor :=
  ⟨h.cols_eq, h.rows_eq, h.col_lt, h.row_lt⟩

theorem restoreCursor (h : Inside cols rows this) : Inside cols rows this.restoreCursor := by
  have hcol := h.col_lt
  have hcols := h.cols_eq
  have hrow := h.row_lt
  have hrows := h.rows_eq
  exact h.setCursor (by omega) (by omega)

theorem csiDispatch (h : Inside cols rows this) (params : Params) (intermediates : List UInt8)
    (action : Char) : Inside cols rows (this.csiDispatch params intermediates action) := by
  have hcol := h.col_lt
  have hcols := h.cols_eq
  have hrow := h.row_lt
  have hrows := h.rows_eq
  unfold PtyTerminalState.csiDispatch
  split
  case h_11 =>
    split
    · exact ⟨hcols, hrows, hcol, hrow⟩
    · exact h
  case h_12 => exact h.saveCursor
  case h_13 => exact h.restoreCursor
  case h_14 => exact h
  all_goals exact h.setCursor (by omega) (by omega)

theorem escDispatch (h : Inside cols rows this) (intermediates : List UInt8) (byte : UInt8) :
    Inside cols rows (this.escDispatch intermediates byte) := by
  have hcol := h.col_lt
  unfold PtyTerminalState.escDispatch
  split
  · exact h.saveCursor
  · exact h.restoreCursor
  · exact h.linefeed
  · exact h.linefeed.setCursor h.linefeed.row_lt (by omega)
  · exact h

theorem perform (h : Inside cols rows this) (callback : Callback) :
    Inside cols rows (this.perform callback) := by
  cases callback with
  | print c => exact h.putChar c
  | execute byte => exact h.execute byte
  | csiDispatch params intermediates ignore action => exact h.csiDispatch params intermediates action
  | escDispatch intermediates ignore byte => exact h.escDispatch intermediates byte
  | hook | put | unhook | oscDispatch => exact h

theorem foldl (h : Inside cols rows this) (callbacks : List Callback) :
    Inside cols rows (callbacks.foldl PtyTerminalState.perform this) := by
  induction callbacks generalizing this with
  | nil => exact h
  | cons callback callbacks ih => exact ih (h.perform callback)

end Inside

end PtyTerminalState

/-! ## The answers of the reader thread -/

/-- What `read_pty_output` writes back, chunk by chunk of what it reads. -/
def answerChunks (terminal : PtyTerminalState) : List (List Callback) → List Bytes
  | [] => []
  | chunk :: chunks => (terminal.feed chunk).2 ++ answerChunks (terminal.feed chunk).1 chunks

def readPtyOutput (chunks : List (List Callback)) : List Bytes :=
  answerChunks (PtyTerminalState.new 80 24) chunks

/-- Where the output is cut into chunks makes no difference. -/
theorem answerChunks_eq (terminal : PtyTerminalState) (hnone : terminal.pendingResponses = [])
    (chunks : List (List Callback)) :
    answerChunks terminal chunks = terminal.answers chunks.flatten := by
  induction chunks generalizing terminal with
  | nil => rfl
  | cons chunk chunks ih =>
    have hfold := terminal.foldl_withPending [] chunk
    rw [← hnone, PtyTerminalState.withPending_self, hnone, List.nil_append] at hfold
    have hfeed : terminal.feed chunk =
        ((chunk.foldl PtyTerminalState.perform terminal).withPending [],
          terminal.answers chunk) := by
      simp only [PtyTerminalState.feed]
      rw [hfold]
      rfl
    rw [answerChunks, hfeed, ih _ rfl, PtyTerminalState.answers_withPending, List.flatten_cons,
      PtyTerminalState.answers_append]

/-- The tracker of the reader thread after some callbacks. -/
def tracked (callbacks : List Callback) : PtyTerminalState :=
  callbacks.foldl PtyTerminalState.perform (PtyTerminalState.new 80 24)

theorem readPtyOutput_eq (chunks : List (List Callback)) :
    readPtyOutput chunks = (PtyTerminalState.new 80 24).answers chunks.flatten :=
  answerChunks_eq _ rfl chunks

theorem tracked_inside (callbacks : List Callback) :
    PtyTerminalState.Inside 80 24 (tracked callbacks) :=
  (PtyTerminalState.Inside.new 80 24).foldl callbacks

/-! ## Trackers of any size -/

/-- The tracker after some callbacks, on a screen of a given size. -/
def trackerAfter (cols rows : ℕ) (callbacks : List Callback) : PtyTerminalState :=
  callbacks.foldl PtyTerminalState.perform (PtyTerminalState.new cols rows)

theorem inside_trackerAfter (cols rows : ℕ) (callbacks : List Callback) :
    PtyTerminalState.Inside (max cols 1) (max rows 1) (trackerAfter cols rows callbacks) :=
  (PtyTerminalState.Inside.new cols rows).foldl callbacks

theorem trackerAfter_pending (cols rows : ℕ) (callbacks : List Callback) :
    (trackerAfter cols rows callbacks).pendingResponses =
      (PtyTerminalState.new cols rows).answers callbacks := by
  have hfold := (PtyTerminalState.new cols rows).foldl_withPending [] callbacks
  rw [List.nil_append] at hfold
  exact congrArg PtyTerminalState.pendingResponses hfold

/-- The cursor of a tracker is on its screen after any callbacks, and a screen has at least one row
and one column. There is one answer to each request, in order, and it is the position on the
screen at which the request has found the cursor. Parsed chunk by chunk, the callbacks give the same
answers. -/
theorem tracker_stays (cols rows : ℕ) (callbacks : List Callback) :
    (trackerAfter cols rows callbacks).rows = max rows 1 ∧
    (trackerAfter cols rows callbacks).cols = max cols 1 ∧
    (trackerAfter cols rows callbacks).cursorRow < max rows 1 ∧
    (trackerAfter cols rows callbacks).cursorCol < max cols 1 ∧
    (trackerAfter cols rows callbacks).pendingResponses.length = callbacks.countP isCursorQuery ∧
    (∀ before query after, callbacks = before ++ query :: after → isCursorQuery query →
      ∃ row col, (trackerAfter cols rows callbacks).pendingResponses[before.countP isCursorQuery]? =
          some (cursorReport row col) ∧
        row = (trackerAfter cols rows before).cursorRow + 1 ∧
        col = (trackerAfter cols rows before).cursorCol + 1 ∧
        (1 ≤ row ∧ row ≤ max rows 1) ∧ 1 ≤ col ∧ col ≤ max cols 1) ∧
    ∀ chunks, chunks.flatten = callbacks →
      answerChunks (PtyTerminalState.new cols rows) chunks =
        (trackerAfter cols rows callbacks).pendingResponses := by
  have hinside := inside_trackerAfter cols rows callbacks
  refine ⟨hinside.rows_eq, hinside.cols_eq, hinside.row_lt, hinside.col_lt, ?_, ?_, ?_⟩
  · rw [trackerAfter_pending, PtyTerminalState.length_answers]
  · rintro before query after rfl hquery
    have hbefore := inside_trackerAfter cols rows before
    have hrow := hbefore.row_lt
    have hcol := hbefore.col_lt
    refine ⟨_, _, ?_, rfl, rfl, by omega, by omega⟩
    rw [trackerAfter_pending]
    exact PtyTerminalState.answers_getElem? _ before after hquery
  · rintro chunks rfl
    rw [trackerAfter_pending]
    exact answerChunks_eq _ rfl chunks

/-! ## Positions on the pseudo terminal -/

def OnPty (row col : ℕ) : Prop := (1 ≤ row ∧ row ≤ ptyRows) ∧ 1 ≤ col ∧ col ≤ ptyCols

/-- `CSI row ; col H`. -/
def moveTo (row col : UInt16) : Callback := .csiDispatch [[row], [col]] [] false 'H'

/-- `CSI 6 n`. -/
def cursorQuery : Callback := .csiDispatch [[6]] [] false 'n'

/-- Every answer is a position on the pseudo terminal, and a request that directly follows a move
of the cursor to such a position is answered with that position. -/
structure ReportsPty (chunks : List (List Callback)) : Prop where
  onPty : ∀ reply ∈ readPtyOutput chunks,
    ∃ row col, reply = cursorReport row col ∧ OnPty row col
  exact : ∀ before row col after,
    chunks.flatten = before ++ moveTo row col :: cursorQuery :: after →
    OnPty row.toNat col.toNat →
    (readPtyOutput chunks)[before.countP isCursorQuery]? =
      some (cursorReport row.toNat col.toNat)

/-- The tracker is asked only where its screen and the pseudo terminal agree: no request comes
while the tracked column is beyond the last one of the pseudo terminal, and none directly follows a
move to a row that the tracker does not have. -/
structure AskedInside (callbacks : List Callback) : Prop where
  col : ∀ before query after, callbacks = before ++ query :: after → isCursorQuery query →
    (tracked before).cursorCol < ptyCols
  row : ∀ before row col after, callbacks = before ++ moveTo row col :: cursorQuery :: after →
    OnPty row.toNat col.toNat → row.toNat ≤ 24

theorem tracked_moveTo (before : List Callback) (row col : UInt16)
    (hon : OnPty row.toNat col.toNat) :
    (tracked (before ++ [moveTo row col])).report =
      cursorReport (min row.toNat 24) col.toNat := by
  obtain ⟨⟨hrow, -⟩, hcol, hcols⟩ := hon
  have hrow0 : row ≠ 0 := fun h => by simp [h] at hrow
  have hcol0 : col ≠ 0 := fun h => by simp [h] at hcol
  have hinside := tracked_inside before
  have hrowAt : paramAt [[row], [col]] 0 1 = row.toNat := paramAt_of_ne_zero rfl hrow0
  have hcolAt : paramAt [[row], [col]] 1 1 = col.toNat := paramAt_of_ne_zero rfl hcol0
  have hlast : col.toNat ≤ 72 := hcols
  simp only [tracked, List.foldl_append, List.foldl_cons, List.foldl_nil, moveTo,
    PtyTerminalState.perform, PtyTerminalState.csiDispatch, hrowAt, hcolAt]
  have hmoved : ∀ this : PtyTerminalState, this.cols = 80 → this.rows = 24 →
      (this.setCursor (min (row.toNat - 1) (this.rows - 1))
        (min (col.toNat - 1) (this.cols - 1))).report =
          cursorReport (min row.toNat 24) col.toNat := by
    intro this hcols hrows
    simp only [PtyTerminalState.report, PtyTerminalState.setCursor, hcols, hrows]
    congr 1 <;> omega
  exact hmoved _ hinside.cols_eq hinside.rows_eq

theorem onPty_report_iff (callbacks : List Callback) :
    (∃ row col, (tracked callbacks).report = cursorReport row col ∧ OnPty row col) ↔
      (tracked callbacks).cursorCol < ptyCols := by
  have hrow := (tracked_inside callbacks).row_lt
  constructor
  · rintro ⟨row, col, hreport, hon⟩
    have hpos := cursorReport_inj.mp hreport
    have hcol := hon.2.2
    omega
  · intro hcol
    exact ⟨_, _, rfl, by simp [OnPty, ptyRows, ptyCols] at hcol ⊢; omega⟩

theorem isCursorQuery_moveTo (row col : UInt16) : isCursorQuery (moveTo row col) = false := by
  simp [isCursorQuery, moveTo]

/-- The answer to a request that directly follows a move. -/
theorem answer_after_moveTo {chunks : List (List Callback)} {before after : List Callback}
    {row col : UInt16}
    (hchunks : chunks.flatten = before ++ moveTo row col :: cursorQuery :: after)
    (hon : OnPty row.toNat col.toNat) :
    (readPtyOutput chunks)[before.countP isCursorQuery]? =
      some (cursorReport (min row.toNat 24) col.toNat) := by
  have hcut : chunks.flatten = (before ++ [moveTo row col]) ++ cursorQuery :: after := by
    simpa using hchunks
  have hcount : (before ++ [moveTo row col]).countP isCursorQuery =
      before.countP isCursorQuery := by
    simp [isCursorQuery_moveTo]
  rw [readPtyOutput_eq, hcut, ← hcount,
    PtyTerminalState.answers_getElem? _ _ _ (by decide : isCursorQuery cursorQuery)]
  exact congrArg some (tracked_moveTo before row col hon)

/-- For every output of the child, however it is cut into chunks: the answers report positions on
the pseudo terminal exactly if the requests come where the two geometries agree. -/
theorem reportsPty_iff (chunks : List (List Callback)) :
    ReportsPty chunks ↔ AskedInside chunks.flatten := by
  constructor
  · intro h
    constructor
    · intro before query after hcut hquery
      have hmem : (tracked before).report ∈ readPtyOutput chunks := by
        rw [readPtyOutput_eq, hcut]
        exact List.mem_of_getElem? (PtyTerminalState.answers_getElem? _ before after hquery)
      exact (onPty_report_iff before).mp (h.onPty _ hmem)
    · intro before row col after hcut hon
      have hreply := h.exact before row col after hcut hon
      rw [answer_after_moveTo hcut hon, Option.some.injEq, cursorReport_inj] at hreply
      omega
  · intro h
    constructor
    · intro reply hmem
      rw [readPtyOutput_eq] at hmem
      obtain ⟨before, query, after, hcut, hquery, rfl⟩ := PtyTerminalState.mem_answers hmem
      exact (onPty_report_iff before).mpr (h.col before query after hcut hquery)
    · intro before row col after hcut hon
      have hrow := h.row before row col after hcut hon
      rw [answer_after_moveTo hcut hon, min_eq_left hrow]

/-- A move to the last row of the pseudo terminal is reported as one to row 24. -/
theorem not_reportsPty_last_row :
    ¬ ∀ chunks : List (List Callback), ReportsPty chunks := by
  intro h
  have hon : OnPty (27 : UInt16).toNat (1 : UInt16).toNat := by simp [OnPty, ptyRows, ptyCols]
  have hcut : [[moveTo 27 1, cursorQuery]].flatten = [] ++ moveTo 27 1 :: cursorQuery :: [] := rfl
  have hreply := (h [[moveTo 27 1, cursorQuery]]).exact [] 27 1 [] hcut hon
  rw [answer_after_moveTo hcut hon, Option.some.injEq, cursorReport_inj] at hreply
  exact absurd hreply.1 (by decide)

end ManInTheBox.Emulator
