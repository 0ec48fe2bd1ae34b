import Mathlib.Tactic
import ManInTheBox.Emulator.Callback

/-! # The cursor tracker of the host

The host follows the cursor of the child through its output, without a screen, so
that it can answer the requests for the cursor position. An answer waits until the
chunk of output that holds its request has been parsed.
-/

namespace ManInTheBox.Emulator

/-- The bytes of a text. -/
def utf8 (text : List Char) : Bytes := text.flatMap String.utf8EncodeChar

theorem utf8_injective : Function.Injective utf8 := by
  intro text text' h
  have henc : text.utf8Encode = text'.utf8Encode := by
    have := congrArg List.toByteArray h
    simpa [utf8, List.utf8Encode] using this
  have hdec := congrArg ByteArray.utf8Decode? henc
  simpa [List.utf8Decode?_utf8Encode] using hdec

/-! ## Cursor reports -/

/-- `ESC [ row ; col R`. -/
def cursorReport (row col : ℕ) : Bytes :=
  utf8 ('\x1b' :: '[' :: (Nat.toDigits 10 row ++ ';' :: (Nat.toDigits 10 col ++ ['R'])))

theorem not_mem_toDigits {c : Char} (hc : c.isDigit = false) (n : ℕ) : c ∉ Nat.toDigits 10 n := by
  intro h
  have hdigit := Nat.isDigit_of_mem_toDigits (by omega) (by omega) h
  simp [hc] at hdigit

theorem toDigits_inj {m n : ℕ} (h : Nat.toDigits 10 m = Nat.toDigits 10 n) : m = n := by
  have hm := Nat.ofDigitChars_ten_toDigits (n := m)
  have hn := Nat.ofDigitChars_ten_toDigits (n := n)
  rw [h] at hm
  exact hm.symm.trans hn

/-- Two texts that are cut by the same separator are equal if their parts are. -/
theorem separator_inj {α : Type*} {a : α} {l l' r r' : List α} (hl : a ∉ l) (hl' : a ∉ l')
    (h : l ++ a :: r = l' ++ a :: r') : l = l' ∧ r = r' := by
  induction l generalizing l' with
  | nil =>
    cases l' with
    | nil => simpa using h
    | cons x l' =>
      have hx : a = x := (List.cons.inj h).1
      simp [hx] at hl'
  | cons x l ih =>
    cases l' with
    | nil =>
      have hx : x = a := (List.cons.inj h).1
      simp [hx] at hl
    | cons x' l' =>
      simp only [List.cons_append, List.cons.injEq] at h
      have hrest := ih (fun hm => hl (by simp [hm])) (fun hm => hl' (by simp [hm])) h.2
      simp [h.1, hrest.1, hrest.2]

theorem cursorReport_inj {row col row' col' : ℕ} :
    cursorReport row col = cursorReport row' col' ↔ row = row' ∧ col = col' := by
  constructor
  · intro h
    have htext := utf8_injective h
    simp only [List.cons.injEq, true_and] at htext
    have hrow := separator_inj (not_mem_toDigits (by decide) _) (not_mem_toDigits (by decide) _)
      htext
    have hcol := List.append_cancel_right hrow.2
    exact ⟨toDigits_inj hrow.1, toDigits_inj hcol⟩
  · rintro ⟨rfl, rfl⟩
    rfl

/-! ## The state and its callbacks -/

structure PtyTerminalState where
  cursorRow : ℕ
  cursorCol : ℕ
  rows : ℕ
  cols : ℕ
  savedCursor : ℕ × ℕ
  pendingResponses : List Bytes
  deriving DecidableEq

namespace PtyTerminalState

def new (cols rows : ℕ) : PtyTerminalState where
  cursorRow := 0
  cursorCol := 0
  rows := max rows 1
  cols := max cols 1
  savedCursor := (0, 0)
  pendingResponses := []

/-- Put the cursor somewhere. -/
def setCursor (this : PtyTerminalState) (row col : ℕ) : PtyTerminalState :=
  { this with cursorRow := row, cursorCol := col }

def linefeed (this : PtyTerminalState) : PtyTerminalState :=
  this.setCursor (min (this.cursorRow + 1) (this.rows - 1)) this.cursorCol

def charIsWide (c : Char) : Bool := !isAscii c && decide (1 < c.utf8Size)

def putChar (this : PtyTerminalState) (c : Char) : PtyTerminalState :=
  if isControl c then this
  else
    let col := this.cursorCol + if charIsWide c then 2 else 1
    if this.cols ≤ col then (this.setCursor this.cursorRow 0).linefeed
    else this.setCursor this.cursorRow col

def enqueueCursorReport (this : PtyTerminalState) : PtyTerminalState :=
  { this with
    pendingResponses :=
      this.pendingResponses ++ [cursorReport (this.cursorRow + 1) (this.cursorCol + 1)] }

def execute (this : PtyTerminalState) (byte : UInt8) : PtyTerminalState :=
  match byte with
  | 0x0a => this.linefeed
  | 0x0d => this.setCursor this.cursorRow 0
  | 0x09 =>
    let nextTab := (this.cursorCol + 8) / 8 * 8
    this.setCursor this.cursorRow (min nextTab (this.cols - 1))
  | 0x08 => this.setCursor this.cursorRow (this.cursorCol - 1)
  | _ => this

def saveCursor (this : PtyTerminalState) : PtyTerminalState :=
  { this with savedCursor := (this.cursorRow, this.cursorCol) }

def restoreCursor (this : PtyTerminalState) : PtyTerminalState :=
  this.setCursor (min this.savedCursor.1 (this.rows - 1)) (min this.savedCursor.2 (this.cols - 1))

def csiDispatch (this : PtyTerminalState) (params : Params) (intermediates : List UInt8)
    (action : Char) : PtyTerminalState :=
  match action with
  | 'A' => this.setCursor (this.cursorRow - paramCount params 1) this.cursorCol
  | 'B' =>
    this.setCursor (min (this.cursorRow + paramCount params 1) (this.rows - 1)) this.cursorCol
  | 'C' =>
    this.setCursor this.cursorRow (min (this.cursorCol + paramCount params 1) (this.cols - 1))
  | 'D' => this.setCursor this.cursorRow (this.cursorCol - paramCount params 1)
  | 'E' => this.setCursor (min (this.cursorRow + paramCount params 1) (this.rows - 1)) 0
  | 'F' => this.setCursor (this.cursorRow - paramCount params 1) 0
  | 'G' => this.setCursor this.cursorRow (min (paramAt params 0 1 - 1) (this.cols - 1))
  | 'H' | 'f' =>
    this.setCursor (min (paramAt params 0 1 - 1) (this.rows - 1))
      (min (paramAt params 1 1 - 1) (this.cols - 1))
  | 'd' => this.setCursor (min (paramAt params 0 1 - 1) (this.rows - 1)) this.cursorCol
  | 'n' =>
    if intermediates.isEmpty && paramAt params 0 0 == 6 then this.enqueueCursorReport else this
  | 's' => this.saveCursor
  | 'u' => this.restoreCursor
  | _ => this

def escDispatch (this : PtyTerminalState) (intermediates : List UInt8) (byte : UInt8) :
    PtyTerminalState :=
  match intermediates, byte with
  | [], 0x37 => this.saveCursor
  | [], 0x38 => this.restoreCursor
  | [], 0x44 => this.linefeed
  | [], 0x45 => this.linefeed.setCursor this.linefeed.cursorRow 0
  | _, _ => this

/-- The performer. -/
def perform (this : PtyTerminalState) : Callback → PtyTerminalState
  | .print c => this.putChar c
  | .execute byte => this.execute byte
  | .csiDispatch params intermediates _ action => this.csiDispatch params intermediates action
  | .escDispatch intermediates _ byte => this.escDispatch intermediates byte
  | .hook .. | .put _ | .unhook | .oscDispatch .. => this

/-- Parse a chunk of output, given by its callbacks, and take the answers. -/
def feed (this : PtyTerminalState) (chunk : List Callback) : PtyTerminalState × List Bytes :=
  let this := chunk.foldl perform this
  ({ this with pendingResponses := [] }, this.pendingResponses)

end PtyTerminalState

end ManInTheBox.Emulator
