import Mathlib.Tactic
import ManInTheBox.Emulator.Style
import ManInTheBox.Library.Fallible

/-! # Cells and rows of the screen

A wide character takes two cells: its own, the lead, and a continuation to the right
of it. The operations on a row index it as the program does; an index or a subtraction
out of range gives no result.
-/

namespace ManInTheBox.Emulator

open Library

structure Cell where
  text : List Char
  style : Style
  wideContinuation : Bool
  deriving DecidableEq

namespace Cell

def blankWithStyle (style : Style) : Cell := ⟨[' '], style, false⟩

def blank : Cell := blankWithStyle Style.default

def continuation (style : Style) : Cell := ⟨[' '], style, true⟩

end Cell

/-! ## Widths -/

/-- The width of a character: what `UnicodeWidthChar::width` says, none for a control character. -/
abbrev UnicodeWidth := Char → Option ℕ

def charWidth (width : UnicodeWidth) (c : Char) : ℕ := min ((width c).getD 0) 2

def isWideLead (width : UnicodeWidth) (cell : Cell) : Bool :=
  if cell.wideContinuation then false
  else
    match cell.text with
    | [] => false
    | first :: _ => decide (2 ≤ (width first).getD 1)

/-! ## Operations on a row -/

/-- `a - b` on `usize`. -/
def checkedSub (a b : ℕ) : Option ℕ := if b ≤ a then some (a - b) else none

abbrev Row := List Cell

def blankRow (cols : ℕ) : Row := List.replicate cols Cell.blank

namespace Row

/-- `row[col] = cell`. -/
def setCell (col : ℕ) (cell : Cell) (row : Row) : Option Row :=
  if col < row.length then some (row.set col cell) else none

variable (width : UnicodeWidth) (cols : ℕ)

/-- Remove the character that a cell is about to replace, with its other half. -/
def clearOverlappedCell (col : ℕ) (row : Row) : Option Row :=
  if cols ≤ col then some row
  else do
    let cell ← row[col]?
    if cell.wideContinuation then
      let row ← setCell col Cell.blank row
      if 0 < col then
        let left ← checkedSub col 1
        let lead ← row[left]?
        if isWideLead width lead then setCell left Cell.blank row else some row
      else some row
    else
      let row ←
        if isWideLead width cell && decide (col + 1 < cols) then do
          let right ← row[col + 1]?
          if right.wideContinuation then setCell (col + 1) Cell.blank row else some row
        else some row
      setCell col Cell.blank row

/-- One round of `sanitize_row`. -/
def sanitizeCell (row : Row) (col : ℕ) : Option Row := do
  let cell ← row[col]?
  if cell.wideContinuation then
    if col = 0 then setCell col Cell.blank row
    else
      let left ← checkedSub col 1
      let lead ← row[left]?
      if isWideLead width lead then some row else setCell col Cell.blank row
  else if isWideLead width cell then
    if cols ≤ col + 1 then setCell col Cell.blank row
    else
      let right ← row[col + 1]?
      if right.wideContinuation then some row
      else setCell (col + 1) (Cell.continuation cell.style) row
  else some row

def sanitize (row : Row) : Option Row := (List.range cols).foldlM (sanitizeCell width cols) row

/-- `for col in start..stop { row[col] = cell }`. -/
def fill (start stop : ℕ) (cell : Cell) (row : Row) : Option Row :=
  (List.range' start (stop - start)).foldlM (fun row col => setCell col cell row) row

/-- `row[target] = row[source].clone()`. -/
def copyCell (source target : ℕ) (row : Row) : Option Row := do
  let cell ← row[source]?
  setCell target cell row

/-- `for idx in (start..stop).rev() { row[idx + count] = row[idx].clone() }`. -/
def copyRight (start stop count : ℕ) (row : Row) : Option Row :=
  (List.range' start (stop - start)).reverse.foldlM
    (fun row idx => copyCell idx (idx + count) row) row

/-- `for idx in start..stop { row[idx] = row[idx + count].clone() }`. -/
def copyLeft (start stop count : ℕ) (row : Row) : Option Row :=
  (List.range' start (stop - start)).foldlM
    (fun row idx => copyCell (idx + count) idx row) row

/-- Write a character of width 1 or 2, with its continuation. -/
def writeChar (style : Style) (c : Char) (col : ℕ) (row : Row) : Option Row := do
  let row ← clearOverlappedCell width cols col row
  let row ← setCell col ⟨[c], style, false⟩ row
  if charWidth width c = 2 then
    let rightCol := col + 1
    let row ← clearOverlappedCell width cols rightCol row
    setCell rightCol (Cell.continuation style) row
  else some row

/-- `row[col].text.push(c)`. -/
def pushText (c : Char) (col : ℕ) (row : Row) : Option Row := do
  let cell ← row[col]?
  setCell col { cell with text := cell.text ++ [c] } row

/-- The last column before `col` that is no continuation. -/
def lastBase (row : Row) : (col : ℕ) → Option (Option ℕ)
  | 0 => some none
  | col + 1 => do
    let cell ← row[col]?
    if cell.wideContinuation then lastBase row col else some (some col)

end Row

end ManInTheBox.Emulator
