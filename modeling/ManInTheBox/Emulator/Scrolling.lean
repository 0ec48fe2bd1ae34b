import ManInTheBox.Emulator.NoPanic
import ManInTheBox.Library.Shift

/-! # Scrolling

The operations on lines copy rows one by one in place, and once more for each line of
their count. However often they do it, a part of the buffer is shifted by the count as
a whole, and no row outside that part changes.
-/

namespace ManInTheBox.Emulator

open Library

/-! ## The loops on the buffer -/

namespace Terminal

variable {this : Terminal} {top bottom : ℕ}

theorem setRow_eq_map (this : Terminal) (row : ℕ) (cells : Row) :
    this.setRow row cells = (setEntry row cells this.buffer).map this.withBuffer := by
  unfold setRow setEntry
  split <;> rfl

theorem copyRow_eq_map (this : Terminal) (source target : ℕ) :
    this.copyRow source target = (copyEntry source target this.buffer).map this.withBuffer := by
  unfold copyRow copyEntry
  cases this.buffer[source]? with
  | none => rfl
  | some cells => exact this.setRow_eq_map target cells

theorem copyRows_up (this : Terminal) (start n : ℕ) :
    (List.range' start n).foldlM (fun (this : Terminal) idx => this.copyRow (idx + 1) idx) this =
      (copyUp start n 1 this.buffer).map this.withBuffer :=
  foldlM_map this.withBuffer (fun buffer idx => (this.withBuffer buffer).copyRow_eq_map (idx + 1) idx)
    (List.range' start n) this.buffer

theorem copyRows_down (this : Terminal) (start n : ℕ) :
    (List.range' (start + 1) n).reverse.foldlM
        (fun (this : Terminal) idx => do
          let source ← checkedSub idx 1
          this.copyRow source idx) this =
      (copyDown start n 1 this.buffer).map this.withBuffer := by
  have hrange : List.range' (start + 1) n = (List.range' start n).map (· + 1) := by
    rw [Nat.add_comm start 1, ← List.map_add_range']
    simp only [Nat.add_comm 1]
  rw [hrange, ← List.map_reverse, List.foldlM_map]
  exact foldlM_map this.withBuffer (fun buffer idx => (this.withBuffer buffer).copyRow_eq_map idx (idx + 1))
    (List.range' start n).reverse this.buffer

/-- A round of an operation on lines shifts by one. -/
theorem shiftRowsUp_eq (htop : top ≤ bottom) (hbottom : bottom < this.buffer.length) :
    this.shiftRowsUp top bottom =
      some (this.withBuffer (shiftUp (blankRow this.cols) top bottom 1 this.buffer)) := by
  have hshift := @copyUp_fillEntries _ (blankRow this.cols) top bottom 1 this.buffer htop (by omega)
    hbottom
  rw [Nat.add_sub_cancel] at hshift
  rw [shiftRowsUp, copyRows_up]
  cases hcopied : copyUp top (bottom - top) 1 this.buffer with
  | none => simp [hcopied] at hshift
  | some buffer =>
    rw [hcopied, Option.bind_some] at hshift
    have hset : setEntry bottom (blankRow this.cols) buffer =
        some (shiftUp (blankRow this.cols) top bottom 1 this.buffer) := by
      simpa [fillEntries] using hshift
    simp [setRow_eq_map, withBuffer, hset]

theorem shiftRowsDown_eq (htop : top ≤ bottom) (hbottom : bottom < this.buffer.length) :
    this.shiftRowsDown top bottom =
      some (this.withBuffer (shiftDown (blankRow this.cols) top bottom 1 this.buffer)) := by
  have hshift := @copyDown_fillEntries _ (blankRow this.cols) top bottom 1 this.buffer one_pos
    (by omega) hbottom
  rw [Nat.add_sub_cancel] at hshift
  rw [shiftRowsDown, copyRows_down]
  cases hcopied : copyDown top (bottom - top) 1 this.buffer with
  | none => simp [hcopied] at hshift
  | some buffer =>
    rw [hcopied, Option.bind_some] at hshift
    have hset : setEntry top (blankRow this.cols) buffer =
        some (shiftDown (blankRow this.cols) top bottom 1 this.buffer) := by
      simpa [fillEntries] using hshift
    simp [setRow_eq_map, withBuffer, hset]

/-! ## The loops over the count -/

/-- An operation on the buffer that is repeated, if the repetitions add up. -/
theorem repeated_eq {f : Terminal → Option Terminal} (shift : ℕ → List Row → List Row)
    (hlength : ∀ n buffer, (shift n buffer).length = buffer.length)
    (hzero : shift 0 this.buffer = this.buffer)
    (hadd : ∀ n, shift 1 (shift n this.buffer) = shift (n + 1) this.buffer)
    (hf : ∀ buffer, buffer.length = this.buffer.length →
      f (this.withBuffer buffer) = some (this.withBuffer (shift 1 buffer))) (count : ℕ) :
    this.repeated count f = some (this.withBuffer (shift count this.buffer)) := by
  induction count with
  | zero =>
    rw [hzero]
    rfl
  | succ count ih =>
    rw [repeated, List.range_succ, List.foldlM_append, ← repeated, ih, Option.bind_eq_bind,
      Option.bind_some, List.foldlM_cons, hf _ (hlength _ _), hadd]
    rfl

theorem repeated_shiftRowsUp (htop : top ≤ bottom) (hbottom : bottom < this.buffer.length)
    (count : ℕ) :
    this.repeated count (shiftRowsUp top bottom) =
      some (this.withBuffer (shiftUp (blankRow this.cols) top bottom count this.buffer)) := by
  apply repeated_eq fun count => shiftUp (blankRow this.cols) top bottom count
  · exact fun count buffer => length_shiftUp
  · exact shiftUp_zero hbottom
  · exact fun count => shiftUp_shiftUp hbottom count 1
  · exact fun buffer hlength => shiftRowsUp_eq htop (by rw [withBuffer, hlength]; exact hbottom)

theorem repeated_shiftRowsDown (htop : top ≤ bottom) (hbottom : bottom < this.buffer.length)
    (count : ℕ) :
    this.repeated count (shiftRowsDown top bottom) =
      some (this.withBuffer (shiftDown (blankRow this.cols) top bottom count this.buffer)) := by
  apply repeated_eq fun count => shiftDown (blankRow this.cols) top bottom count
  · exact fun count buffer => length_shiftDown
  · exact shiftDown_zero hbottom
  · exact fun count => shiftDown_shiftDown hbottom count 1
  · exact fun buffer hlength => shiftRowsDown_eq htop (by rw [withBuffer, hlength]; exact hbottom)

section Operations

variable (hlength : this.buffer.length = this.rows)
include hlength

theorem scrollUpRegion_eq (htop : top ≤ bottom) (hbottom : bottom < this.rows) (count : ℕ) :
    this.scrollUpRegion top bottom count =
      some (this.withBuffer (shiftUp (blankRow this.cols) top bottom count this.buffer)) := by
  have hbottom' : bottom < this.buffer.length := by omega
  rw [scrollUpRegion, if_neg (by omega), repeated_shiftRowsUp htop hbottom', shiftUp_min hbottom']

theorem scrollDownRegion_eq (htop : top ≤ bottom) (hbottom : bottom < this.rows) (count : ℕ) :
    this.scrollDownRegion top bottom count =
      some (this.withBuffer (shiftDown (blankRow this.cols) top bottom count this.buffer)) := by
  have hbottom' : bottom < this.buffer.length := by omega
  rw [scrollDownRegion, if_neg (by omega), repeated_shiftRowsDown htop hbottom',
    shiftDown_min hbottom']

variable (htop : this.scrollTop ≤ this.cursorRow) (hrow : this.cursorRow ≤ this.scrollBottom)
  (hbottom : this.scrollBottom < this.rows)
include htop hrow hbottom

theorem insertLines_eq (count : ℕ) :
    this.insertLines count = some (this.withBuffer
      (shiftDown (blankRow this.cols) this.cursorRow this.scrollBottom count this.buffer)) := by
  have hbottom' : this.scrollBottom < this.buffer.length := by omega
  have hclamp : min this.cursorRow (this.rows - 1) = this.cursorRow := by omega
  simp only [insertLines, hclamp]
  rw [if_neg (by omega), repeated_shiftRowsDown hrow hbottom', shiftDown_min hbottom']

theorem deleteLines_eq (count : ℕ) :
    this.deleteLines count = some (this.withBuffer
      (shiftUp (blankRow this.cols) this.cursorRow this.scrollBottom count this.buffer)) := by
  have hbottom' : this.scrollBottom < this.buffer.length := by omega
  have hclamp : min this.cursorRow (this.rows - 1) = this.cursorRow := by omega
  simp only [deleteLines, hclamp]
  rw [if_neg (by omega), repeated_shiftRowsUp hrow hbottom', shiftUp_min hbottom']

end Operations

end Terminal

/-! ## Exact shifts -/

/-- Row `i` is what row `i + count` was, and the rows that come in are blank. -/
structure ShiftedUp (cols top bottom count : ℕ) (old new : List Row) : Prop where
  moved : ∀ i, top ≤ i → i + count ≤ bottom → new[i]? = old[i + count]?
  blank : ∀ i, top ≤ i → i ≤ bottom → bottom < i + count → new[i]? = some (blankRow cols)
  outside : ∀ i, i < top ∨ bottom < i → new[i]? = old[i]?

/-- Row `i` is what row `i - count` was, and the rows that come in are blank. -/
structure ShiftedDown (cols top bottom count : ℕ) (old new : List Row) : Prop where
  moved : ∀ i, top + count ≤ i → i ≤ bottom → new[i]? = old[i - count]?
  blank : ∀ i, top ≤ i → i ≤ bottom → i < top + count → new[i]? = some (blankRow cols)
  outside : ∀ i, i < top ∨ bottom < i → new[i]? = old[i]?

section Shifted

variable {cols top bottom count : ℕ} {buffer : List Row}

theorem shiftedUp (h : bottom < buffer.length) :
    ShiftedUp cols top bottom count buffer
      (shiftUp (blankRow cols) top bottom count buffer) := by
  constructor
  · intro i htop hmoved
    rw [getElem?_shiftUp h, if_pos (by omega), if_pos hmoved]
  · intro i htop hbottom hblank
    rw [getElem?_shiftUp h, if_pos (by omega), if_neg (by omega)]
  · intro i houtside
    rw [getElem?_shiftUp h, if_neg (by omega)]

theorem shiftedDown (h : bottom < buffer.length) :
    ShiftedDown cols top bottom count buffer
      (shiftDown (blankRow cols) top bottom count buffer) := by
  constructor
  · intro i hmoved hbottom
    rw [getElem?_shiftDown h, if_pos (by omega), if_pos hmoved]
  · intro i htop hbottom hblank
    rw [getElem?_shiftDown h, if_pos (by omega), if_neg (by omega)]
  · intro i houtside
    rw [getElem?_shiftDown h, if_neg (by omega)]

end Shifted

/-- Scrolling a part of the buffer shifts it by the count, and so does the insertion or the deletion
of lines with the part from the cursor to the end of the scroll region. -/
theorem scrolling_shifts {this : Terminal} (hlength : this.buffer.length = this.rows)
    {top bottom : ℕ} (htop : top ≤ bottom) (hbottom : bottom < this.rows) (count : ℕ) :
    (∃ buffer, this.scrollUpRegion top bottom count = some (this.withBuffer buffer) ∧
      ShiftedUp this.cols top bottom count this.buffer buffer) ∧
    (∃ buffer, this.scrollDownRegion top bottom count = some (this.withBuffer buffer) ∧
      ShiftedDown this.cols top bottom count this.buffer buffer) ∧
    (this.scrollTop ≤ top → this.cursorRow = top → this.scrollBottom = bottom →
      (∃ buffer, this.deleteLines count = some (this.withBuffer buffer) ∧
        ShiftedUp this.cols top bottom count this.buffer buffer) ∧
      ∃ buffer, this.insertLines count = some (this.withBuffer buffer) ∧
        ShiftedDown this.cols top bottom count this.buffer buffer) := by
  have hbottom' : bottom < this.buffer.length := by omega
  refine ⟨⟨_, Terminal.scrollUpRegion_eq hlength htop hbottom count, shiftedUp hbottom'⟩,
    ⟨_, Terminal.scrollDownRegion_eq hlength htop hbottom count, shiftedDown hbottom'⟩, ?_⟩
  rintro hregion rfl rfl
  exact ⟨⟨_, Terminal.deleteLines_eq hlength hregion htop hbottom count, shiftedUp hbottom'⟩,
    ⟨_, Terminal.insertLines_eq hlength hregion htop hbottom count, shiftedDown hbottom'⟩⟩

/-- Six rows with a letter each, the scroll region from the second to the fifth, and the cursor in
the third. -/
def lettered : List Callback :=
  [.print 'a', .execute 0x0d, .execute 0x0a, .print 'b', .execute 0x0d, .execute 0x0a, .print 'c',
    .execute 0x0d, .execute 0x0a, .print 'd', .execute 0x0d, .execute 0x0a, .print 'e',
    .execute 0x0d, .execute 0x0a, .print 'f', .csiDispatch [[2], [5]] [] false 'r',
    .csiDispatch [[3], [1]] [] false 'H']

def letterRow (letter : Char) : Row := [⟨[letter], Style.default, false⟩, Cell.blank]

/-- Two lines are deleted: `e` moves up, two blank rows come in above the end of the region, and
what is above the cursor and below the region stays. -/
theorem scrolling_shifts_delete :
    ∃ this buffer, (Terminal.new 2 6).feed exampleWidth lettered = some this ∧
      this.deleteLines 2 = some (this.withBuffer buffer) ∧
      buffer[0]? = some (letterRow 'a') ∧ buffer[1]? = some (letterRow 'b') ∧
      buffer[2]? = some (letterRow 'e') ∧ buffer[3]? = some (blankRow 2) ∧
      buffer[4]? = some (blankRow 2) ∧ buffer[5]? = some (letterRow 'f') := by
  obtain ⟨this, hfeed⟩ : ∃ this, (Terminal.new 2 6).feed exampleWidth lettered = some this :=
    ⟨_, rfl⟩
  have hscreen : ((Terminal.new 2 6).feed exampleWidth lettered).map (fun this =>
      (this.buffer, this.cols, this.rows, this.cursorRow, this.scrollTop, this.scrollBottom)) =
        some (['a', 'b', 'c', 'd', 'e', 'f'].map letterRow, 2, 6, 2, 1, 4) := by decide
  rw [hfeed, Option.map_some, Option.some_inj] at hscreen
  simp only [Prod.mk.injEq] at hscreen
  obtain ⟨hbuffer, hcols, hrows, hrow, htop, hbottom⟩ := hscreen
  obtain ⟨⟨buffer, hdelete, hshifted⟩, -⟩ :=
    (@scrolling_shifts this (by rw [hbuffer, hrows]; rfl) 2 4 (by decide) (by omega) 2).2.2
      (by omega) hrow hbottom
  rw [hcols, hbuffer] at hshifted
  exact ⟨this, buffer, hfeed, hdelete, hshifted.outside 0 (by decide), hshifted.outside 1 (by decide),
    hshifted.moved 2 (by decide) (by decide), hshifted.blank 3 (by decide) (by decide) (by decide),
    hshifted.blank 4 (by decide) (by decide) (by decide), hshifted.outside 5 (by decide)⟩

/-! ## Scrolling and the scroll region -/

/-- LF, ESC D and ESC E. -/
def isLinefeed : Callback → Bool
  | .execute byte => byte == 0x0a
  | .escDispatch intermediates _ byte =>
    intermediates.isEmpty && (byte == 0x44 || byte == 0x45)
  | _ => false

/-- ESC M and CSI L, M, S and T. -/
def isRegionScroll : Callback → Bool
  | .escDispatch intermediates _ byte => intermediates.isEmpty && byte == 0x4d
  | .csiDispatch _ _ _ action => ['L', 'M', 'S', 'T'].contains action
  | _ => false

/-- Every row outside the scroll region is as it was. -/
def OutsideKept (this next : Terminal) : Prop :=
  ∀ i, i < this.scrollTop ∨ this.scrollBottom < i → next.buffer[i]? = this.buffer[i]?

/-- A line feed here scrolls the whole screen. -/
def BelowRegion (this : Terminal) : Prop :=
  this.scrollBottom < this.cursorRow ∧ this.cursorRow + 1 = this.rows

/-- Each row outside the scroll region is the same as the row below it, or blank if it is the last
one. -/
def AlikeOutside (this : Terminal) : Prop :=
  ∀ i < this.rows, i < this.scrollTop ∨ this.scrollBottom < i →
    this.buffer[i]? = some (this.buffer.getD (i + 1) (blankRow this.cols))

namespace Terminal

variable {this : Terminal} (hlength : this.buffer.length = this.rows)
include hlength

/-- What a line feed does, by the row of the cursor. -/
theorem linefeed_shift (htop : this.scrollTop ≤ this.scrollBottom)
    (hbottom : this.scrollBottom < this.rows) (hrow : this.cursorRow < this.rows) :
    this.linefeed = some (
      if this.cursorRow = this.scrollBottom then
        this.withBuffer
          (shiftUp (blankRow this.cols) this.scrollTop this.scrollBottom 1 this.buffer)
      else if this.cursorRow + 1 = this.rows then
        this.withBuffer (shiftUp (blankRow this.cols) 0 this.cursorRow 1 this.buffer)
      else this.setCursor (this.cursorRow + 1) this.cursorCol) := by
  rw [linefeed]
  by_cases hregion : this.cursorRow = this.scrollBottom
  · rw [if_pos hregion, if_pos hregion, scrollUpRegion_eq hlength htop hbottom]
  · rw [if_neg hregion, if_neg hregion]
    by_cases hlast : this.cursorRow + 1 = this.rows
    · have hrow' : this.rows - 1 = this.cursorRow := by omega
      rw [if_neg (by omega), if_pos hlast, hrow', scrollUpRegion_eq hlength (by omega) hrow]
    · rw [if_pos (by omega), if_neg hlast]

theorem outsideKept_shiftUp {row : ℕ} (hrow : this.scrollTop ≤ row)
    (hbottom : this.scrollBottom < this.rows) (count : ℕ) :
    OutsideKept this (this.withBuffer
      (shiftUp (blankRow this.cols) row this.scrollBottom count this.buffer)) := by
  intro i houtside
  have hshift := @shiftedUp this.cols row this.scrollBottom count this.buffer (by omega)
  exact hshift.outside i (by omega)

theorem outsideKept_shiftDown {row : ℕ} (hrow : this.scrollTop ≤ row)
    (hbottom : this.scrollBottom < this.rows) (count : ℕ) :
    OutsideKept this (this.withBuffer
      (shiftDown (blankRow this.cols) row this.scrollBottom count this.buffer)) := by
  intro i houtside
  have hshift := @shiftedDown this.cols row this.scrollBottom count this.buffer (by omega)
  exact hshift.outside i (by omega)

/-- The whole screen is shifted. -/
theorem outsideKept_shiftUp_zero (hrow : this.cursorRow + 1 = this.rows) :
    OutsideKept this (this.withBuffer
      (shiftUp (blankRow this.cols) 0 this.cursorRow 1 this.buffer)) ↔ AlikeOutside this := by
  have hrow' : this.cursorRow < this.buffer.length := by omega
  have hentry : ∀ i < this.rows,
      (shiftUp (blankRow this.cols) 0 this.cursorRow 1 this.buffer)[i]? =
        some (this.buffer.getD (i + 1) (blankRow this.cols)) := by
    intro i hi
    rw [getElem?_shiftUp hrow', if_pos (by omega), List.getD_eq_getElem?_getD]
    by_cases hlast : i + 1 ≤ this.cursorRow
    · rw [if_pos hlast, List.getElem?_eq_getElem (by omega), Option.getD_some]
    · rw [if_neg hlast, List.getElem?_eq_none (by omega), Option.getD_none]
  constructor
  · intro h i hi houtside
    rw [← hentry i hi]
    exact (h i houtside).symm
  · intro h i houtside
    by_cases hi : i < this.rows
    · exact (hentry i hi).trans (h i hi houtside).symm
    · have hshift := @shiftedUp this.cols 0 this.cursorRow 1 this.buffer hrow'
      exact hshift.outside i (by omega)

/-- A line feed keeps the rows outside, unless it is below the region, on the last row. -/
theorem linefeed_outside (htop : this.scrollTop ≤ this.scrollBottom)
    (hbottom : this.scrollBottom < this.rows) (hrow : this.cursorRow < this.rows) :
    ∃ next, this.linefeed = some next ∧
      (OutsideKept this next ↔ (BelowRegion this → AlikeOutside this)) := by
  refine ⟨_, linefeed_shift hlength htop hbottom hrow, ?_⟩
  by_cases hregion : this.cursorRow = this.scrollBottom
  · have hnot : ¬ BelowRegion this := fun h => absurd h.1 (by omega)
    rw [if_pos hregion]
    exact iff_of_true (outsideKept_shiftUp hlength le_rfl hbottom 1) (absurd · hnot)
  · rw [if_neg hregion]
    by_cases hlast : this.cursorRow + 1 = this.rows
    · have hbelow : BelowRegion this := ⟨by omega, hlast⟩
      rw [if_pos hlast, outsideKept_shiftUp_zero hlength hlast]
      exact ⟨fun h _ => h, fun h => h hbelow⟩
    · have hnot : ¬ BelowRegion this := fun h => hlast h.2
      rw [if_neg hlast]
      exact iff_of_true (fun i _ => rfl) (absurd · hnot)

theorem reverseIndex_outside (htop : this.scrollTop ≤ this.scrollBottom)
    (hbottom : this.scrollBottom < this.rows) :
    ∃ next, this.reverseIndex = some next ∧ OutsideKept this next := by
  rw [reverseIndex]
  by_cases hregion : this.cursorRow = this.scrollTop
  · rw [if_pos hregion, scrollDownRegion_eq hlength htop hbottom]
    exact ⟨_, rfl, outsideKept_shiftDown hlength le_rfl hbottom 1⟩
  · rw [if_neg hregion]
    by_cases hpos : 0 < this.cursorRow
    · rw [if_pos hpos, checkedSub_of_le hpos]
      exact ⟨_, rfl, fun i _ => rfl⟩
    · rw [if_neg hpos]
      exact ⟨_, rfl, fun i _ => rfl⟩

section Lines

variable (hbottom : this.scrollBottom < this.rows) (hrow : this.cursorRow < this.rows)
include hbottom hrow

theorem insertLines_outside (count : ℕ) :
    ∃ next, this.insertLines count = some next ∧ OutsideKept this next := by
  by_cases hin : this.scrollTop ≤ this.cursorRow ∧ this.cursorRow ≤ this.scrollBottom
  · rw [insertLines_eq hlength hin.1 hin.2 hbottom]
    exact ⟨_, rfl, outsideKept_shiftDown hlength hin.1 hbottom count⟩
  · have hclamp : min this.cursorRow (this.rows - 1) = this.cursorRow := by omega
    simp only [insertLines, hclamp]
    rw [if_pos (by omega)]
    exact ⟨_, rfl, fun i _ => rfl⟩

theorem deleteLines_outside (count : ℕ) :
    ∃ next, this.deleteLines count = some next ∧ OutsideKept this next := by
  by_cases hin : this.scrollTop ≤ this.cursorRow ∧ this.cursorRow ≤ this.scrollBottom
  · rw [deleteLines_eq hlength hin.1 hin.2 hbottom]
    exact ⟨_, rfl, outsideKept_shiftUp hlength hin.1 hbottom count⟩
  · have hclamp : min this.cursorRow (this.rows - 1) = this.cursorRow := by omega
    simp only [deleteLines, hclamp]
    rw [if_pos (by omega)]
    exact ⟨_, rfl, fun i _ => rfl⟩

end Lines

section Callbacks

variable (htop : this.scrollTop ≤ this.scrollBottom) (hbottom : this.scrollBottom < this.rows)
  (hrow : this.cursorRow < this.rows) {callback : Callback}
include htop hbottom hrow

theorem perform_linefeed (width : UnicodeWidth) (h : isLinefeed callback) :
    ∃ next, this.perform width callback = some next ∧
      (OutsideKept this next ↔ (BelowRegion this → AlikeOutside this)) := by
  obtain ⟨next, hline, hkept⟩ := linefeed_outside hlength htop hbottom hrow
  cases callback with
  | execute byte =>
    obtain rfl : byte = 0x0a := by simpa [isLinefeed] using h
    exact ⟨next, hline, hkept⟩
  | escDispatch intermediates ignore byte =>
    obtain ⟨rfl, rfl | rfl⟩ : intermediates = [] ∧ (byte = 0x44 ∨ byte = 0x45) := by
      simpa [isLinefeed] using h
    · exact ⟨next, hline, hkept⟩
    · -- The carriage return does not touch the buffer.
      refine ⟨next.setCursor next.cursorRow 0, ?_, hkept⟩
      simp [perform, escDispatch, hline]
  | print | csiDispatch | hook | put | unhook | oscDispatch => simp [isLinefeed] at h

theorem perform_regionScroll (width : UnicodeWidth) (h : isRegionScroll callback) :
    ∃ next, this.perform width callback = some next ∧ OutsideKept this next := by
  cases callback with
  | escDispatch intermediates ignore byte =>
    obtain ⟨rfl, rfl⟩ : intermediates = [] ∧ byte = 0x4d := by
      simpa [isRegionScroll] using h
    exact reverseIndex_outside hlength htop hbottom
  | csiDispatch params intermediates ignore action =>
    obtain rfl | rfl | rfl | rfl : action = 'L' ∨ action = 'M' ∨ action = 'S' ∨ action = 'T' := by
      simpa [isRegionScroll] using h
    · exact insertLines_outside hlength hbottom hrow _
    · exact deleteLines_outside hlength hbottom hrow _
    · exact ⟨_, scrollUpRegion_eq hlength htop hbottom _,
        outsideKept_shiftUp hlength le_rfl hbottom _⟩
    · exact ⟨_, scrollDownRegion_eq hlength htop hbottom _,
        outsideKept_shiftDown hlength le_rfl hbottom _⟩
  | print | execute | hook | put | unhook | oscDispatch => simp [isRegionScroll] at h

end Callbacks

end Terminal

/-- On every screen that can be reached, the sequences that scroll keep the rows outside the scroll
region, exactly if no line feed comes on the last row, below the region: it scrolls all rows, and
then the rows outside would have to be alike. -/
theorem scrolling_outside_iff (width : UnicodeWidth) (hspace : width ' ' = some 1) {cols rows : ℕ}
    {callbacks : List Callback} {this : Terminal}
    (hreached : (Terminal.new cols rows).feed width callbacks = some this) {callback : Callback}
    (hscroll : isLinefeed callback ∨ isRegionScroll callback) :
    ∃ next, this.perform width callback = some next ∧
      (OutsideKept this next ↔
        (isLinefeed callback → BelowRegion this → AlikeOutside this)) := by
  obtain ⟨hok, hin⟩ := Terminal.ok_of_feed_new hspace hreached
  have hlength : this.buffer.length = this.rows := hok.shown.length
  have htop : this.scrollTop ≤ this.scrollBottom := hin.top_le
  have hbottom : this.scrollBottom < this.rows := hin.bottom_lt.trans_eq hin.rows_eq.symm
  have hrow : this.cursorRow < this.rows := hin.row_lt.trans_eq hin.rows_eq.symm
  by_cases hline : isLinefeed callback
  · obtain ⟨next, hperform, hkept⟩ :=
      Terminal.perform_linefeed hlength htop hbottom hrow width hline
    exact ⟨next, hperform, hkept.trans ⟨fun h _ => h, fun h => h hline⟩⟩
  · have hregion : isRegionScroll callback := hscroll.resolve_left hline
    obtain ⟨next, hperform, hkept⟩ :=
      Terminal.perform_regionScroll hlength htop hbottom hrow width hregion
    exact ⟨next, hperform, iff_of_true hkept fun h => absurd h hline⟩

/-- A line feed at the end of the region. -/
theorem scrolling_outside_iff_region :
    ∃ this next, (Terminal.new 2 3).feed exampleWidth
        [.csiDispatch [[1], [2]] [] false 'r', .csiDispatch [[2]] [] false 'd'] = some this ∧
      this.perform exampleWidth (.execute 0x0a) = some next ∧ OutsideKept this next := by
  have hreached : (Terminal.new 2 3).feed exampleWidth
      [.csiDispatch [[1], [2]] [] false 'r', .csiDispatch [[2]] [] false 'd'] = some _ := rfl
  obtain ⟨next, hperform, hkept⟩ := scrolling_outside_iff exampleWidth (by decide) hreached
    (Or.inl (by decide : isLinefeed (.execute 0x0a)))
  refine ⟨_, next, rfl, hperform, hkept.mpr ?_⟩
  intro _ hbelow
  exact absurd hbelow.1 (by decide)

/-- A status line below the region is scrolled away by a line feed on it. -/
theorem not_scrolling_outside :
    ¬ ∀ (width : UnicodeWidth) cols rows callbacks this callback next, width ' ' = some 1 →
      (Terminal.new cols rows).feed width callbacks = some this →
      isLinefeed callback ∨ isRegionScroll callback →
      this.perform width callback = some next → OutsideKept this next := by
  intro hall
  have hkept := hall exampleWidth 2 3
    [.csiDispatch [[1], [2]] [] false 'r', .csiDispatch [[3]] [] false 'd', .print 'a'] _
    (.execute 0x0a) _ (by decide) rfl (by decide) rfl 2 (by decide)
  exact absurd hkept (by decide)

end ManInTheBox.Emulator
