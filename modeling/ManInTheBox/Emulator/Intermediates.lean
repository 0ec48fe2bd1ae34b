import ManInTheBox.Emulator.Reset
import ManInTheBox.Emulator.StyleValues
import ManInTheBox.Emulator.Tracker

/-! # Private markers and intermediate bytes

The parser hands a private marker or an intermediate byte over next to the final byte, and
with it the sequence is another one. Both emulators look at the final byte alone in nearly
all cases, and take such a sequence for the plain one.
-/

namespace ManInTheBox.Emulator

open Library

/-- The private modes and the selective erases, which are meant to be done. -/
def selective (intermediates : List UInt8) (action : Char) : Prop :=
  0x3f ∈ intermediates ∧ action ∈ ['h', 'l', 'J', 'K']

/-- The final bytes on which both emulators move or keep the cursor. -/
def cursorActions : List Char := ['A', 'B', 'C', 'D', 'E', 'F', 'G', 'H', 'f', 'd', 's', 'u']

/-- The final bytes on which the screen is changed whatever the parameters are. -/
def screenActions : List Char := ['@', 'P', 'X', 'L', 'M', 'S', 'T', 'r']

/-- A sequence with a marker that is harmless: its final byte is none of those that are acted upon, or
its parameters are none of those that are. -/
structure Harmless (params : Params) (intermediates : List UInt8) (action : Char) : Prop where
  cursor : action ∉ cursorActions
  screen : action ∉ screenActions
  style : action = 'm' → params.flatten ≠ [] ∧ Style.idle params.flatten
  display : action = 'J' → 0x3f ∈ intermediates ∨ 3 < paramAt params 0 0
  line : action = 'K' → 0x3f ∈ intermediates ∨ 2 < paramAt params 0 0

variable {width : UnicodeWidth} {params : Params} {intermediates : List UInt8} {action : Char}

/-! ## Harmless sequences -/

namespace Harmless

theorem host_eq (h : Harmless params intermediates action) (hmarked : intermediates ≠ [])
    (this : PtyTerminalState) : this.csiDispatch params intermediates action = this := by
  have hcursor := h.cursor
  unfold PtyTerminalState.csiDispatch
  split
  case h_11 => simp [hmarked]
  case h_14 => rfl
  all_goals exact absurd (by decide) hcursor

theorem box_eq (h : Harmless params intermediates action)
    (hplain : ¬ selective intermediates action) (this : Terminal) :
    this.csiDispatch width params intermediates action = some this := by
  have hcursor := h.cursor
  have hscreen := h.screen
  unfold Terminal.csiDispatch
  split
  case h_11 =>
    obtain ⟨hvalues, hidle⟩ := h.style rfl
    have hstyle : this.style.select params = this.style := by
      rw [Style.select, if_neg (by simpa using hvalues), Style.setAll_of_idle hidle]
    rw [hstyle]
  case h_12 =>
    have hparam := (h.display rfl).resolve_left fun hmem => hplain ⟨hmem, by decide⟩
    split <;> first | omega | rfl
  case h_13 =>
    have hparam := (h.line rfl).resolve_left fun hmem => hplain ⟨hmem, by decide⟩
    split <;> first | omega | rfl
  case h_24 | h_25 =>
    rw [if_neg]
    exact fun hmem => hplain ⟨by simpa using hmem, by decide⟩
  case h_26 => rfl
  all_goals first | exact absurd (by decide) hcursor | exact absurd (by decide) hscreen

end Harmless

/-! ## States in which the others are seen -/

/-- The cursor of the host in a corner and away from it. -/
theorem not_cursorActions_of_host
    (hcorner : (PtyTerminalState.new 3 3).csiDispatch params intermediates action =
      PtyTerminalState.new 3 3)
    (hmiddle : ((PtyTerminalState.new 3 3).setCursor 1 1).csiDispatch params intermediates action =
      (PtyTerminalState.new 3 3).setCursor 1 1) : action ∉ cursorActions := by
  intro haction
  have hcount := Terminal.paramCount_pos params
  have hcorner' := And.intro (congrArg PtyTerminalState.cursorRow hcorner)
    (congrArg PtyTerminalState.cursorCol hcorner)
  have hmiddle' := And.intro (congrArg PtyTerminalState.cursorRow hmiddle)
    (congrArg PtyTerminalState.cursorCol hmiddle)
  have hsaved := congrArg PtyTerminalState.savedCursor hmiddle
  simp only [cursorActions, List.mem_cons, List.not_mem_nil, or_false] at haction
  rcases haction with rfl | rfl | rfl | rfl | rfl | rfl | rfl | rfl | rfl | rfl | rfl | rfl
  all_goals
    simp [PtyTerminalState.csiDispatch, PtyTerminalState.setCursor, PtyTerminalState.new,
      PtyTerminalState.saveCursor, PtyTerminalState.restoreCursor] at hcorner' hmiddle' hsaved
    try omega

namespace Terminal

/-- One cell with a background, and none to write with. -/
def tiny : Terminal :=
  { coloured 1 1 with style := (Style.default.set 41).set 49 }

theorem feed_tiny (hspace : width ' ' = some 1) :
    (Terminal.new 1 1).feed width (colouring ++ [.csiDispatch [[49]] [] false 'm']) =
      some tiny := by
  rw [feed_append, feed_colouring hspace]
  rfl

theorem sized_tiny : tiny.Sized := by
  constructor <;> decide

/-- Every edit of a single cell blanks it. -/
theorem applied_tiny (hspace : width ' ' = some 1) {edit : RowEdit} (hwithin : edit.Within 1)
    (style : Style) (cell : Cell) :
    edit.applied width style [cell] = [Cell.blankWithStyle style] := by
  have hraw : edit.raw style [cell] = List.replicate 1 (Cell.blankWithStyle style) := by
    cases edit with
    | erase start stop =>
      obtain ⟨hstart, hstop⟩ := hwithin
      obtain rfl : start = 0 := by omega
      obtain rfl : stop = 1 := by omega
      rfl
    | insert col count =>
      obtain ⟨hcol, hcount⟩ := hwithin
      obtain rfl : col = 0 := by omega
      have hnot : ¬ count ≤ 0 := by omega
      simp [RowEdit.raw, shiftDown, hnot]
    | delete col count =>
      obtain ⟨hcol, hcount⟩ := hwithin
      obtain rfl : col = 0 := by omega
      have hnot : count ≠ 0 := by omega
      simp [RowEdit.raw, shiftUp, hnot]
  rw [RowEdit.applied, hraw]
  exact repairedUpTo_blank hspace style 1 _

theorem lineEdit_tiny (hspace : width ' ' = some 1) (haction : action ∈ ['J', 'K', 'X', '@', 'P'])
    (hkept : tiny.csiDispatch width params intermediates action = some tiny) :
    tiny.lineEdit params action 0 = none := by
  rw [csiDispatch_edit sized_tiny params intermediates haction, Option.some.injEq] at hkept
  have hrow := congrArg (fun this : Terminal => this.buffer[0]?) hkept
  rw [Option.eq_none_iff_forall_ne_some]
  intro edit hedit
  have hwithin := (lineEdit_within sized_tiny hedit).1
  simp only [getElem?_editRows, hedit] at hrow
  have hcells : edit.applied width tiny.style [Cell.blankWithStyle (Style.default.set 41)] =
      [Cell.blankWithStyle (Style.default.set 41)] := Option.some.inj hrow
  rw [applied_tiny hspace hwithin] at hcells
  exact absurd hcells (by decide)

theorem lineEdit_tiny_ne_none (haction : action ∈ ['X', '@', 'P']) :
    tiny.lineEdit params action 0 ≠ none := by
  simp only [List.mem_cons, List.not_mem_nil, or_false] at haction
  rcases haction with rfl | rfl | rfl <;> simp [lineEdit, tiny, coloured, new]

theorem lineEdit_tiny_display (h : tiny.lineEdit params 'J' 0 = none) :
    3 < paramAt params 0 0 := by
  rcases hparam : paramAt params 0 0 with _ | _ | _ | _ | value
  all_goals simp [lineEdit, tiny, coloured, new, hparam] at h
  omega

theorem lineEdit_tiny_line (h : tiny.lineEdit params 'K' 0 = none) : 2 < paramAt params 0 0 := by
  rcases hparam : paramAt params 0 0 with _ | _ | _ | value
  all_goals simp [lineEdit, tiny, coloured, new, hparam] at h
  omega

/-- Whatever scrolls takes the only row away. -/
theorem not_scrolls_tiny (hkept : tiny.csiDispatch width params intermediates action = some tiny) :
    action ∉ ['L', 'M', 'S', 'T'] := by
  intro haction
  have hcount := paramCount_pos params
  have hne : paramCount params 1 ≠ 0 := hcount.ne'
  have hnot : ¬ paramCount params 1 ≤ 0 := by omega
  have hup : shiftUp (blankRow 1) 0 0 (paramCount params 1) tiny.buffer = [blankRow 1] := by
    simp [shiftUp, hne, tiny, coloured, new]
  have hdown : shiftDown (blankRow 1) 0 0 (paramCount params 1) tiny.buffer = [blankRow 1] := by
    simp [shiftDown, hnot, tiny, coloured, new]
  have hgone : some (tiny.withBuffer [blankRow 1]) ≠ some tiny := by decide
  have hlength : tiny.buffer.length = tiny.rows := by decide
  simp only [List.mem_cons, List.not_mem_nil, or_false] at haction
  rcases haction with rfl | rfl | rfl | rfl
  · have hlines := insertLines_eq hlength (by decide) (by decide) (by decide) (paramCount params 1)
    exact hgone (hdown ▸ hlines.symm.trans hkept)
  · have hlines := deleteLines_eq hlength (by decide) (by decide) (by decide) (paramCount params 1)
    exact hgone (hup ▸ hlines.symm.trans hkept)
  · have hscroll := @scrollUpRegion_eq tiny 0 0 hlength le_rfl (by decide) (paramCount params 1)
    exact hgone (hup ▸ hscroll.symm.trans hkept)
  · have hscroll := @scrollDownRegion_eq tiny 0 0 hlength le_rfl (by decide) (paramCount params 1)
    exact hgone (hdown ▸ hscroll.symm.trans hkept)

/-- Setting a region moves the cursor to its corner. -/
theorem not_setsRegion_middle
    (hkept : ((Terminal.new 3 3).setCursor 1 1).csiDispatch width params intermediates action =
      some ((Terminal.new 3 3).setCursor 1 1)) : action ≠ 'r' := by
  rintro rfl
  have hcol : 0 = 1 := congrArg Terminal.cursorCol (Option.some.inj hkept)
  exact Nat.zero_ne_one hcol

theorem not_screenActions_of_box (hspace : width ' ' = some 1)
    (htiny : tiny.csiDispatch width params intermediates action = some tiny)
    (hmiddle : ((Terminal.new 3 3).setCursor 1 1).csiDispatch width params intermediates action =
      some ((Terminal.new 3 3).setCursor 1 1)) : action ∉ screenActions := by
  intro haction
  have hscroll := not_scrolls_tiny htiny
  have hedit : ∀ hedits : action ∈ ['X', '@', 'P'], False := fun hedits =>
    lineEdit_tiny_ne_none hedits
      (lineEdit_tiny hspace (List.mem_cons_of_mem _ (List.mem_cons_of_mem _ hedits)) htiny)
  simp only [screenActions, List.mem_cons, List.not_mem_nil, or_false] at haction
  rcases haction with rfl | rfl | rfl | rfl | rfl | rfl | rfl | rfl
  · exact hedit (by decide)
  · exact hedit (by decide)
  · exact hedit (by decide)
  · exact hscroll (by decide)
  · exact hscroll (by decide)
  · exact hscroll (by decide)
  · exact hscroll (by decide)
  · exact not_setsRegion_middle hmiddle rfl

theorem idle_of_select (hdefault : Style.default.select params = Style.default)
    (hmarked : Style.marked.select params = Style.marked) :
    params.flatten ≠ [] ∧ Style.idle params.flatten := by
  by_cases hvalues : params.flatten = []
  · rw [Style.select, if_pos (by simpa using hvalues)] at hmarked
    exact absurd hmarked (by decide)
  · rw [Style.select, if_neg (by simpa using hvalues)] at hdefault hmarked
    exact ⟨hvalues, Style.idle_of_setAll hdefault hmarked⟩

end Terminal

/-- A control sequence with a marker or an intermediate byte is taken for the plain one in some state
of the host or of the screen, unless it is a harmless one; and a harmless one changes nothing in any
state at all. -/
theorem harmless_iff (width : UnicodeWidth) (hspace : width ' ' = some 1) (params : Params)
    {intermediates : List UInt8} (hmarked : intermediates ≠ []) (action : Char) :
    (((∀ cols rows (callbacks : List Callback) (this : PtyTerminalState),
          callbacks.foldl PtyTerminalState.perform (PtyTerminalState.new cols rows) = this →
          this.csiDispatch params intermediates action = this) ∧
        (¬ selective intermediates action → ∀ cols rows callbacks this,
          (Terminal.new cols rows).feed width callbacks = some this →
          this.csiDispatch width params intermediates action = some this)) ↔
      Harmless params intermediates action) ∧
    (Harmless params intermediates action →
      (∀ this : PtyTerminalState, this.csiDispatch params intermediates action = this) ∧
        (¬ selective intermediates action → ∀ this : Terminal,
          this.csiDispatch width params intermediates action = some this)) := by
  have hharmless : Harmless params intermediates action →
      (∀ this : PtyTerminalState, this.csiDispatch params intermediates action = this) ∧
        (¬ selective intermediates action → ∀ this : Terminal,
          this.csiDispatch width params intermediates action = some this) :=
    fun h => ⟨h.host_eq hmarked, h.box_eq⟩
  refine ⟨⟨?_, fun h => ?_⟩, hharmless⟩
  · rintro ⟨hhost, hbox⟩
    have hcursor : action ∉ cursorActions :=
      not_cursorActions_of_host (hhost 3 3 [] _ rfl)
        (hhost 3 3 [.csiDispatch [[2], [2]] [] false 'H'] _ rfl)
    have htiny := fun hplain => hbox hplain 1 1 _ _ (Terminal.feed_tiny hspace)
    have hplain : ∀ {actions : List Char}, action ∈ actions →
        (∀ action ∈ actions, action ∉ ['h', 'l', 'J', 'K']) → ¬ selective intermediates action :=
      fun hmem hother hselective => hother action hmem hselective.2
    constructor
    · exact hcursor
    · intro hmem
      have hnot := hplain hmem (by simp [screenActions])
      exact Terminal.not_screenActions_of_box hspace (htiny hnot)
        (hbox hnot 3 3 [.csiDispatch [[2], [2]] [] false 'H'] _ rfl) hmem
    · rintro rfl
      have hnot := hplain (List.mem_singleton_self 'm') (by simp)
      have hdefault := hbox hnot 1 1 [] _ rfl
      have hmarks := hbox hnot 1 1 [.csiDispatch [[1], [3], [30], [40]] [] false 'm'] _ rfl
      exact Terminal.idle_of_select (congrArg Terminal.style (Option.some.inj hdefault))
        (congrArg Terminal.style (Option.some.inj hmarks))
    · rintro rfl
      by_contra hacted
      push Not at hacted
      have hedit := Terminal.lineEdit_tiny hspace (by decide) (htiny fun h => hacted.1 h.1)
      exact hacted.2.not_gt (Terminal.lineEdit_tiny_display hedit)
    · rintro rfl
      by_contra hacted
      push Not at hacted
      have hedit := Terminal.lineEdit_tiny hspace (by decide) (htiny fun h => hacted.1 h.1)
      exact hacted.2.not_gt (Terminal.lineEdit_tiny_line hedit)
  · obtain ⟨hhost, hbox⟩ := hharmless h
    exact ⟨fun _ _ _ this _ => hhost this, fun hplain _ _ _ this _ => hbox hplain this⟩

/-- CSI > 4 ; 2 m changes no style: neither value is one that is acted upon. -/
theorem harmless_iff_modifyOtherKeys :
    exampleWidth ' ' = some 1 ∧ ∀ this : Terminal,
      this.csiDispatch exampleWidth [[4], [2]] [0x3e] 'm' = some this := by
  have hharmless : Harmless [[4], [2]] [0x3e] 'm' := by
    constructor <;> decide
  obtain ⟨-, hkept⟩ := harmless_iff exampleWidth (by decide) [[4], [2]]
    (by decide : ([0x3e] : List UInt8) ≠ []) 'm'
  exact ⟨by decide, (hkept hharmless).2 fun hselective => absurd hselective.2 (by decide)⟩

/-- CSI > 1 u moves the cursor of the host to where it was saved. -/
theorem not_harmless :
    ¬ ∀ (params : Params) (intermediates : List UInt8) (action : Char), intermediates ≠ [] →
      ∀ cols rows (callbacks : List Callback) (this : PtyTerminalState),
        callbacks.foldl PtyTerminalState.perform (PtyTerminalState.new cols rows) = this →
        this.csiDispatch params intermediates action = this := by
  intro hall
  have hkept := hall [[1]] [0x3e] 'u' (by decide) 3 3 [.csiDispatch [[2], [2]] [] false 'H'] _ rfl
  exact absurd hkept (by decide)

end ManInTheBox.Emulator
