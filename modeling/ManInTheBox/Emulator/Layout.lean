import ManInTheBox.Emulator.Paper

/-! # How text is laid out

Text that is printed line by line is cut into rows: no character is lost or moved, combining
characters stay with their base, and a row ends where its line does or where the next
character does not fit. On the screen stand the last of these rows.
-/

namespace ManInTheBox.Emulator

open Library

/-- A character that takes columns, and the combining ones after it. -/
structure Cluster (width : UnicodeWidth) where
  base : Char
  marks : List Char
  base_ne : charWidth width base ≠ 0
  marks_eq : ∀ mark ∈ marks, charWidth width mark = 0

variable {width : UnicodeWidth}

namespace Cluster

def columns (cluster : Cluster width) : ℕ := charWidth width cluster.base

def text (cluster : Cluster width) : List Char := cluster.base :: cluster.marks

def callbacks (cluster : Cluster width) : List Callback := cluster.text.map .print

end Cluster

/-- What is to stand on one row. -/
abbrev Piece (width : UnicodeWidth) := List (Cluster width)

namespace Piece

def columns (piece : Piece width) : ℕ := (piece.map Cluster.columns).sum

def text (piece : Piece width) : List Char := piece.flatMap Cluster.text

/-- The text of a row, with blanks up to its end. -/
def rowText (cols : ℕ) (piece : Piece width) : List Char :=
  piece.text ++ List.replicate (cols - piece.columns) ' '

@[simp] theorem columns_nil : columns ([] : Piece width) = 0 := rfl

@[simp] theorem columns_concat (piece : Piece width) (cluster : Cluster width) :
    columns (piece ++ [cluster]) = piece.columns + cluster.columns := by simp [columns]

end Piece

/-- A row that does not end with its line is full, or there is one column left for a wide
character. -/
def Piece.Full (cols : ℕ) (piece rest : Piece width) : Prop :=
  piece.columns = cols ∨ piece.columns + 1 = cols ∧ ∃ next later, rest = next :: later ∧
    next.columns = 2

/-- The rows of a line: cut from it in order, each as full as it can be but the last, which has
room left. -/
inductive Wraps (cols : ℕ) : Piece width → List (Piece width) → Prop
  | last {piece : Piece width} : piece.columns < cols → Wraps cols piece [piece]
  | row {piece rest : Piece width} {pieces : List (Piece width)} :
    piece.Full cols rest → Wraps cols rest pieces → Wraps cols (piece ++ rest) (piece :: pieces)

/-- The callbacks of a text: its lines, with a carriage return and a line feed after each but the
last. -/
def textCallbacks (lines : List (Piece width)) (last : Piece width) : List Callback :=
  lines.flatMap (fun line => line.flatMap Cluster.callbacks ++ [.execute 0x0d, .execute 0x0a]) ++
    last.flatMap Cluster.callbacks

/-! ## One cluster -/

/-- The cells of a text of so many columns. -/
def cellsOf (style : Style) (columns : ℕ) (text : List Char) : Row :=
  ⟨text, style, false⟩ :: if columns = 2 then [Cell.continuation style] else []

theorem length_cellsOf {c : Char} (hc : charWidth width c ≠ 0) (style : Style) (text : List Char) :
    (cellsOf style (charWidth width c) text).length = charWidth width c := by
  have hle := charWidth_le width c
  unfold cellsOf
  split_ifs with hwide
  · simp [hwide]
  · rw [List.length_singleton]
    omega

section Cells

variable {cols : ℕ} {style : Style} {written : Row}

/-- A blank cell is nobody's half. -/
theorem clearOverlappedCell_blank (hspace : width ' ' = some 1) {col : ℕ} {row : Row}
    (hcell : row[col]? = some Cell.blank) :
    Row.clearOverlappedCell width cols col row = some row := by
  have hlt := (List.getElem?_eq_some_iff.mp hcell).1
  have hlead : isWideLead width Cell.blank = false := (narrow_blank hspace).2
  have hset : row.set col Cell.blank = row := by
    apply List.ext_getElem?
    intro i
    rw [List.getElem?_set]
    split_ifs with hi
    · rw [← hi, hcell]
    · rfl
  have hcont : Cell.blank.wideContinuation = false := rfl
  rw [Row.clearOverlappedCell]
  by_cases hcol : cols ≤ col
  · rw [if_pos hcol]
  · rw [if_neg hcol]
    simp only [hcell, hcont, hlead, Bool.false_and, Bool.false_eq_true, if_false, Row.setCell,
      if_pos hlt, hset, Option.bind_eq_bind, Option.bind_some]

/-- To print onto blanks. -/
theorem writeChar_blanks (hspace : width ' ' = some 1) {c : Char} (hc : charWidth width c ≠ 0)
    {n : ℕ} (hfits : charWidth width c ≤ n) :
    Row.writeChar width cols style c written.length (written ++ List.replicate n Cell.blank) =
      some (written ++ cellsOf style (charWidth width c) [c] ++
        List.replicate (n - charWidth width c) Cell.blank) := by
  have hle := charWidth_le width c
  obtain ⟨m, rfl⟩ : ∃ m, n = m + 1 := ⟨n - 1, by omega⟩
  have hfirst : (written ++ List.replicate (m + 1) Cell.blank)[written.length]? =
      some Cell.blank := by simp
  have hset : Row.setCell written.length ⟨[c], style, false⟩
      (written ++ List.replicate (m + 1) Cell.blank) =
        some (written ++ ⟨[c], style, false⟩ :: List.replicate m Cell.blank) := by
    rw [Row.setCell, if_pos (by simp), List.replicate_succ]
    simp
  rw [Row.writeChar, clearOverlappedCell_blank hspace hfirst, Option.bind_eq_bind, Option.bind_some,
    hset, Option.bind_some]
  split_ifs with hwide
  · obtain ⟨k, rfl⟩ : ∃ k, m = k + 1 := ⟨m - 1, by omega⟩
    have hsecond : (written ++ ⟨[c], style, false⟩ :: List.replicate (k + 1) Cell.blank)[
        written.length + 1]? = some Cell.blank := by
      rw [List.getElem?_append_right (by omega)]
      simp
    simp only [clearOverlappedCell_blank hspace hsecond, Option.bind_some]
    rw [Row.setCell, if_pos (by simp), List.set_append_right _ _ (by omega)]
    simp [cellsOf, hwide, List.replicate_succ]
  · have hone : charWidth width c = 1 := by omega
    simp [cellsOf, hone]

theorem pushText_cellsOf (columns : ℕ) (text : List Char) (mark : Char) (rest : Row) :
    Row.pushText mark written.length (written ++ cellsOf style columns text ++ rest) =
      some (written ++ cellsOf style columns (text ++ [mark]) ++ rest) := by
  simp [Row.pushText, Row.setCell, cellsOf]

theorem charBefore_cellsOf {c : Char} (hc : charWidth width c ≠ 0) (text : List Char) (rest : Row) :
    Row.charBefore (written.length + charWidth width c)
      (written ++ cellsOf style (charWidth width c) text ++ rest) = some (some written.length) := by
  have hle := charWidth_le width c
  rw [Row.charBefore, if_pos (by omega)]
  by_cases hwide : charWidth width c = 2
  · simp [cellsOf, hwide, checkedSub, Cell.continuation]
  · have hone : charWidth width c = 1 := by omega
    simp [cellsOf, hone, checkedSub]

/-- The last character of a row without blanks. -/
theorem lastBase_cellsOf {c : Char} (hc : charWidth width c ≠ 0) (text : List Char) :
    Row.lastBase (written ++ cellsOf style (charWidth width c) text)
      (written.length + charWidth width c) = some (some written.length) := by
  have hle := charWidth_le width c
  by_cases hwide : charWidth width c = 2
  · simp [cellsOf, hwide, Row.lastBase, Cell.continuation]
  · have hone : charWidth width c = 1 := by omega
    simp [cellsOf, hone, Row.lastBase]

end Cells

namespace Paper

/-- The paper once a character with this text has been printed at the end of a line: if that fills
the row, the next one has begun. -/
def printed (cols : ℕ) (style : Style) (above : List Row) (written : Row) (columns : ℕ)
    (text : List Char) : Paper :=
  if cols ≤ written.length + columns then
    ⟨above ++ [written ++ cellsOf style columns text], blankRow cols, 0, style⟩
  else
    ⟨above, written ++ cellsOf style columns text ++
      List.replicate (cols - (written.length + columns)) Cell.blank, written.length + columns, style⟩

variable {cols : ℕ} {style : Style} {above : List Row} {written : Row}

theorem putChar_base (hspace : width ' ' = some 1) {c : Char} (hc : charWidth width c ≠ 0)
    (hfits : written.length + charWidth width c ≤ cols) :
    Paper.putChar width cols c ⟨above,
        written ++ List.replicate (cols - written.length) Cell.blank, written.length, style⟩ =
      printed cols style above written (charWidth width c) [c] := by
  have hroom : ¬ (charWidth width c = 2 ∧ written.length = cols - 1) := by omega
  have hwrite := @writeChar_blanks width cols style written hspace c hc (cols - written.length)
    (by omega)
  rw [Paper.putChar, if_neg hc]
  simp only [Paper.makeRoom, if_neg hroom, modifyLine, hwrite, Option.getD_some, moveTo, Paper.wrap,
    printed]
  split_ifs with hfull
  · have hlast : cols - written.length - charWidth width c = 0 := by omega
    rw [hlast]
    simp [Paper.feedLine, rows]
  · rw [Nat.sub_sub]

/-- A combining character finds its base, also if the row was filled by it. -/
theorem putChar_mark {c mark : Char} (hc : charWidth width c ≠ 0) (hmark : charWidth width mark = 0)
    (hfits : written.length + charWidth width c ≤ cols) (text : List Char) :
    Paper.putChar width cols mark (printed cols style above written (charWidth width c) text) =
      printed cols style above written (charWidth width c) (text ++ [mark]) := by
  rw [Paper.putChar, if_pos hmark, Paper.appendCombiningChar]
  unfold printed
  split_ifs with hfull
  · have hcols : cols = written.length + charWidth width c := by omega
    have hlast := @lastBase_cellsOf width style written c hc text
    have hpush := @pushText_cellsOf style written (charWidth width c) text mark []
    rw [List.append_nil, List.append_nil] at hpush
    rw [← hcols] at hlast
    simp [Row.charBefore, modifyPrevious, hlast, hpush]
  · have hbefore := @charBefore_cellsOf width style written c hc text
      (List.replicate (cols - (written.length + charWidth width c)) Cell.blank)
    have hpush := @pushText_cellsOf style written (charWidth width c) text mark
      (List.replicate (cols - (written.length + charWidth width c)) Cell.blank)
    simp only [hbefore, Option.join_some, modifyLine, hpush, Option.getD_some]

theorem putChar_marks {c : Char} (hc : charWidth width c ≠ 0) {marks : List Char}
    (hmarks : ∀ mark ∈ marks, charWidth width mark = 0)
    (hfits : written.length + charWidth width c ≤ cols) (text : List Char) :
    (marks.map Callback.print).foldl (Paper.perform width cols)
        (printed cols style above written (charWidth width c) text) =
      printed cols style above written (charWidth width c) (text ++ marks) := by
  induction marks generalizing text with
  | nil => simp
  | cons mark marks ih =>
    have hmark := @putChar_mark width cols style above written c mark hc
      (hmarks mark (List.mem_cons_self ..)) hfits text
    rw [List.map_cons, List.foldl_cons, Paper.perform, hmark,
      ih (fun other hother => hmarks other (List.mem_cons_of_mem _ hother)), List.append_assoc,
      List.singleton_append]

end Paper

/-! ## Rows -/

namespace Piece

def cells (style : Style) (piece : Piece width) : Row :=
  piece.flatMap fun cluster => cellsOf style cluster.columns cluster.text

def row (cols : ℕ) (style : Style) (piece : Piece width) : Row :=
  piece.cells style ++ List.replicate (cols - piece.columns) Cell.blank

variable {cols : ℕ} {style : Style} {piece rest : Piece width}

theorem cells_concat (cluster : Cluster width) :
    cells style (piece ++ [cluster]) =
      piece.cells style ++ cellsOf style cluster.columns cluster.text := by
  simp [cells]

theorem length_cells : (piece.cells style).length = piece.columns := by
  induction piece with
  | nil => rfl
  | cons cluster piece ih =>
    have hfirst : (cellsOf style cluster.columns cluster.text).length = cluster.columns :=
      length_cellsOf cluster.base_ne style cluster.text
    have hrest : (piece.flatMap fun cluster => cellsOf style cluster.columns cluster.text).length =
        Piece.columns piece := ih
    rw [cells, List.flatMap_cons, List.length_append, hfirst, hrest]
    simp [columns]

theorem Full.append (h : piece.Full cols rest) (more : Piece width) :
    piece.Full cols (rest ++ more) := by
  refine h.imp_right fun hwide => ?_
  obtain ⟨hroom, next, later, rfl, hnext⟩ := hwide
  exact ⟨hroom, next, later ++ more, rfl, hnext⟩

end Piece

namespace Wraps

variable {cols : ℕ} {line current rest : Piece width} {pieces tail : List (Piece width)}
  {cluster : Cluster width}

/-- A line that goes on is cut as before up to its last row. -/
theorem concat (h : Wraps cols line (pieces ++ [current]))
    (htail : Wraps cols (current ++ [cluster]) tail) :
    Wraps cols (line ++ [cluster]) (pieces ++ tail) := by
  induction pieces generalizing line with
  | nil =>
    cases h with
    | last => exact htail
    | row _ hrest => cases hrest
  | cons piece pieces ih =>
    rw [List.cons_append] at h
    generalize hrows : pieces ++ [current] = rows at h
    cases h with
    | last => simp at hrows
    | row hfull hrest =>
      subst hrows
      rw [List.append_assoc]
      exact .row (hfull.append _) (ih hrest)

theorem columns_lt (h : Wraps cols line (pieces ++ [current])) : current.columns < cols := by
  induction pieces generalizing line with
  | nil =>
    cases h with
    | last hlt => exact hlt
    | row _ hrest => cases hrest
  | cons piece pieces ih =>
    rw [List.cons_append] at h
    generalize hrows : pieces ++ [current] = rows at h
    cases h with
    | last => simp at hrows
    | row _ hrest => exact ih (hrows ▸ hrest)

/-- With what comes after it, a full row is too long. -/
theorem full_lt {piece more later : Piece width} (h : piece.Full cols (more ++ later))
    (hne : more ≠ []) : cols < Piece.columns (piece ++ more) := by
  cases more with
  | nil => exact absurd rfl hne
  | cons first more =>
    have hsum : Piece.columns (piece ++ first :: more) =
        piece.columns + first.columns + Piece.columns more := by
      simp [Piece.columns, Nat.add_assoc]
    have hpos : 0 < first.columns := Nat.pos_of_ne_zero first.base_ne
    rcases h with hfull | ⟨hroom, next, others, hnext, hwide⟩
    · omega
    · obtain rfl : first = next := (List.cons.inj hnext).1
      omega

theorem full_le {piece : Piece width} (h : piece.Full cols rest) : piece.columns ≤ cols := by
  rcases h with hfull | ⟨hroom, -⟩
  · exact hfull.le
  · omega

theorem le_of_full {piece : Piece width} (h : piece.Full cols rest) :
    cols ≤ Piece.columns (piece ++ rest) := by
  have hsum : Piece.columns (piece ++ rest) = piece.columns + rest.columns := by
    simp [Piece.columns]
  rcases h with hfull | ⟨hroom, next, later, rfl, hwide⟩
  · omega
  · have hnext : Piece.columns (next :: later) = next.columns + Piece.columns later := by
      simp [Piece.columns]
    omega

/-- There is only one way to cut a line. -/
theorem unique (h : Wraps cols line pieces) (h' : Wraps cols line tail) : pieces = tail := by
  induction h generalizing tail with
  | last hlt =>
    cases h' with
    | last => rfl
    | row hfull hrest => exact absurd (le_of_full hfull) (not_le.mpr hlt)
  | @row piece rest pieces hfull hrest ih =>
    generalize hline : piece ++ rest = line at h'
    cases h' with
    | last hlt => exact absurd (hline ▸ le_of_full hfull) (not_le.mpr hlt)
    | row hfull' hrest' =>
      rcases List.append_eq_append_iff.mp hline with ⟨more, rfl, rfl⟩ | ⟨more, rfl, rfl⟩
      · by_cases hne : more = []
        · subst hne
          rw [List.append_nil, ih hrest']
        · exact absurd (full_le hfull') (not_le.mpr (full_lt hfull hne))
      · by_cases hne : more = []
        · subst hne
          rw [List.append_nil, ih hrest']
        · exact absurd (full_le hfull) (not_le.mpr (full_lt hfull' hne))

end Wraps

/-! ## Lines -/

section Lines

variable {cols : ℕ} {style : Style}

/-- The paper while a line is typed below some rows. -/
def Paper.onLine (cols : ℕ) (style : Style) (above : List Row) (pieces : List (Piece width))
    (current : Piece width) : Paper :=
  ⟨above ++ pieces.map (Piece.row cols style), current.row cols style, current.columns, style⟩

/-- The paper after a character that had room on its row. -/
theorem Paper.printed_eq {above : List Row} {current : Piece width} {cluster : Cluster width}
    (hfits : current.columns + cluster.columns ≤ cols) :
    Paper.printed cols style above (current.cells style) cluster.columns cluster.text =
      if current.columns + cluster.columns = cols then
        ⟨above ++ [Piece.row cols style (current ++ [cluster])],
          Piece.row cols style ([] : Piece width), 0, style⟩
      else ⟨above, Piece.row cols style (current ++ [cluster]), current.columns + cluster.columns,
        style⟩ := by
  have hcells : Piece.row cols style (current ++ [cluster]) =
      current.cells style ++ cellsOf style cluster.columns cluster.text ++
        List.replicate (cols - (current.columns + cluster.columns)) Cell.blank := by
    rw [Piece.row, Piece.cells_concat, Piece.columns_concat]
  rw [Paper.printed, Piece.length_cells, hcells]
  by_cases hfull : current.columns + cluster.columns = cols
  · rw [if_pos hfull.ge, if_pos hfull, hfull, Nat.sub_self]
    simp [Piece.row, Piece.cells, blankRow]
  · rw [if_neg (by omega), if_neg hfull]

theorem Paper.type_cluster (hspace : width ' ' = some 1) {above : List Row} {current : Piece width}
    {cluster : Cluster width} (hfits : current.columns + cluster.columns ≤ cols) :
    cluster.callbacks.foldl (Paper.perform width cols)
        ⟨above, current.row cols style, current.columns, style⟩ =
      Paper.printed cols style above (current.cells style) cluster.columns cluster.text := by
  have hlength := @Piece.length_cells width style current
  have hbase := @putChar_base width cols style above (current.cells style) hspace cluster.base
    cluster.base_ne (by rw [hlength]; exact hfits)
  have hmarks := @putChar_marks width cols style above (current.cells style) cluster.base
    cluster.base_ne cluster.marks cluster.marks_eq (by rw [hlength]; exact hfits) [cluster.base]
  rw [hlength] at hbase
  rw [Cluster.callbacks, Cluster.text, List.map_cons, List.foldl_cons, Paper.perform, Piece.row,
    hbase, hmarks]
  rfl

/-- A wide character that does not fit begins the next row. -/
theorem Paper.type_next (hcols : 2 ≤ cols) {paper : Paper} {cluster : Cluster width}
    (hwide : cluster.columns = 2) (hcol : paper.col = cols - 1) :
    cluster.callbacks.foldl (Paper.perform width cols) paper =
      cluster.callbacks.foldl (Paper.perform width cols) ((paper.moveTo 0).feedLine cols) := by
  have hbase : charWidth width cluster.base = 2 := hwide
  have hfirst : ¬ ((paper.moveTo 0).feedLine cols).col = cols - 1 := by
    change ¬ 0 = cols - 1
    omega
  have hput : paper.putChar width cols cluster.base =
      ((paper.moveTo 0).feedLine cols).putChar width cols cluster.base := by
    rw [Paper.putChar, Paper.putChar, if_neg (by omega), if_neg (by omega), Paper.makeRoom,
      Paper.makeRoom, if_pos ⟨hbase, hcol⟩, if_neg fun hlast => hfirst hlast.2]
  rw [Cluster.callbacks, Cluster.text, List.map_cons, List.foldl_cons, List.foldl_cons,
    Paper.perform, Paper.perform, hput]

/-- One more character on a line. -/
theorem Paper.onLine_cluster (hspace : width ' ' = some 1) (hcols : 2 ≤ cols) (above : List Row)
    {line current : Piece width} {pieces : List (Piece width)} (cluster : Cluster width)
    (h : Wraps cols line (pieces ++ [current])) :
    ∃ pieces' current', Wraps cols (line ++ [cluster]) (pieces' ++ [current']) ∧
      cluster.callbacks.foldl (Paper.perform width cols) (onLine cols style above pieces current) =
        onLine cols style above pieces' current' := by
  have hlt := h.columns_lt
  have hle : cluster.columns ≤ 2 := charWidth_le width cluster.base
  by_cases hroom : cluster.columns = 2 ∧ current.columns + 1 = cols
  · have hcol : (onLine cols style above pieces current).col = cols - 1 := by
      change current.columns = cols - 1
      omega
    have hnext : ((onLine cols style above pieces current).moveTo 0).feedLine cols =
        ⟨above ++ (pieces ++ [current]).map (Piece.row cols style),
          Piece.row cols style ([] : Piece width), Piece.columns ([] : Piece width), style⟩ := by
      simp [onLine, moveTo, feedLine, rows, Piece.row, Piece.cells, blankRow]
    have hroomy : current.Full cols [cluster] := .inr ⟨hroom.2, cluster, [], rfl, hroom.1⟩
    have hfits : Piece.columns ([] : Piece width) + cluster.columns ≤ cols := by
      rw [Piece.columns_nil]
      omega
    rw [type_next hcols hroom.1 hcol, hnext, type_cluster hspace hfits, printed_eq hfits,
      Piece.columns_nil, Nat.zero_add]
    by_cases hfull : cluster.columns = cols
    · refine ⟨pieces ++ [current, [cluster]], [], ?_, ?_⟩
      · have hlast : Wraps cols ([cluster] ++ []) [[cluster], []] :=
          .row (.inl (by simpa [Piece.columns] using hfull))
            (.last (by rw [Piece.columns_nil]; omega))
        rw [List.append_assoc]
        exact h.concat (.row hroomy hlast)
      · simp [onLine, hfull]
    · refine ⟨pieces ++ [current], [cluster], ?_, ?_⟩
      · have hlast : Wraps cols [cluster] [[cluster]] := .last (by simp [Piece.columns]; omega)
        rw [List.append_assoc]
        exact h.concat (.row hroomy hlast)
      · simp [onLine, hfull, Piece.columns]
  · have hfits : current.columns + cluster.columns ≤ cols := by omega
    rw [onLine, type_cluster hspace hfits, printed_eq hfits]
    by_cases hfull : current.columns + cluster.columns = cols
    · refine ⟨pieces ++ [current ++ [cluster]], [], ?_, ?_⟩
      · have hcurrent : (current ++ [cluster]).Full cols [] := .inl (by
          rw [Piece.columns_concat]
          exact hfull)
        have hlast : Wraps cols (current ++ [cluster] ++ []) [current ++ [cluster], []] :=
          .row hcurrent (.last (by rw [Piece.columns_nil]; omega))
        rw [List.append_nil] at hlast
        rw [List.append_assoc]
        exact h.concat hlast
      · simp [onLine, hfull]
    · refine ⟨pieces, current ++ [cluster], h.concat (.last ?_), ?_⟩
      · rw [Piece.columns_concat]
        omega
      · simp [onLine, hfull]

/-- A whole line, from the beginning of a row on. -/
theorem Paper.onLine_line (hspace : width ' ' = some 1) (hcols : 2 ≤ cols) (above : List Row)
    (line : Piece width) :
    ∃ pieces current, Wraps cols line (pieces ++ [current]) ∧
      (line.flatMap Cluster.callbacks).foldl (Paper.perform width cols)
        ⟨above, blankRow cols, 0, style⟩ = onLine cols style above pieces current := by
  induction line using List.reverseRecOn with
  | nil =>
    refine ⟨[], [], .last (by rw [Piece.columns_nil]; omega), ?_⟩
    simp [onLine, Piece.row, Piece.cells, blankRow]
  | append_singleton line cluster ih =>
    obtain ⟨pieces, current, hwraps, hline⟩ := ih
    obtain ⟨pieces', current', hwraps', hcluster⟩ :=
      @onLine_cluster width cols style hspace hcols above line current pieces cluster hwraps
    refine ⟨pieces', current', hwraps', ?_⟩
    rw [List.flatMap_append, List.foldl_append, hline, List.flatMap_singleton, hcluster]

/-- The lines of a text, from the beginning of a row on. -/
theorem Paper.text_lines (hspace : width ' ' = some 1) (hcols : 2 ≤ cols) (above : List Row)
    (lines : List (Piece width)) (last : Piece width) :
    ∃ layouts pieces current, List.Forall₂ (Wraps cols) lines layouts ∧
      Wraps cols last (pieces ++ [current]) ∧
      (textCallbacks lines last).foldl (Paper.perform width cols) ⟨above, blankRow cols, 0, style⟩ =
        onLine cols style (above ++ layouts.flatten.map (Piece.row cols style)) pieces current := by
  induction lines generalizing above with
  | nil =>
    obtain ⟨pieces, current, hwraps, hlast⟩ := @onLine_line width cols style hspace hcols above last
    refine ⟨[], pieces, current, .nil, hwraps, ?_⟩
    rw [textCallbacks, List.flatMap_nil, List.nil_append, hlast]
    simp [onLine]
  | cons line lines ih =>
    obtain ⟨pieces, current, hwraps, hline⟩ := @onLine_line width cols style hspace hcols above line
    obtain ⟨layouts, pieces', current', hwraps', hlast, hrest⟩ :=
      ih (above ++ (pieces ++ [current]).map (Piece.row cols style))
    refine ⟨(pieces ++ [current]) :: layouts, pieces', current', .cons hwraps hwraps', hlast, ?_⟩
    have hnext : [Callback.execute 0x0d, .execute 0x0a].foldl (Paper.perform width cols)
        (onLine cols style above pieces current) =
        ⟨above ++ (pieces ++ [current]).map (Piece.row cols style), blankRow cols, 0, style⟩ := by
      simp [onLine, Paper.perform, Paper.execute, moveTo, feedLine, rows]
    have htext : textCallbacks (line :: lines) last = line.flatMap Cluster.callbacks ++
        ([.execute 0x0d, .execute 0x0a] ++ textCallbacks lines last) := by
      simp [textCallbacks]
    rw [htext, List.foldl_append, hline, List.foldl_append, hnext, hrest]
    simp

end Lines

/-! ## The screen -/

theorem stayOnLine_text (lines : List (Piece width)) (last : Piece width) :
    ∀ callback ∈ textCallbacks lines last, callback.stayOnLine = true := by
  intro callback hcallback
  simp only [textCallbacks, Cluster.callbacks, List.mem_append, List.mem_flatMap, List.mem_map,
    List.mem_cons, List.not_mem_nil, or_false] at hcallback
  rcases hcallback with ⟨line, -, ⟨cluster, -, c, -, rfl⟩ | rfl | rfl⟩ | ⟨cluster, -, c, -, rfl⟩
  all_goals rfl

/-- What is drawn of a row. -/
theorem Piece.text_row (cols : ℕ) (style : Style) (piece : Piece width) :
    (Line.ofRow (piece.row cols style)).text = piece.rowText cols := by
  have hcells : (piece.cells style).flatMap Cell.drawn = piece.text := by
    induction piece with
    | nil => rfl
    | cons cluster piece ih =>
      have hfirst : (cellsOf style cluster.columns cluster.text).flatMap Cell.drawn =
          cluster.text := by
        unfold cellsOf
        split_ifs <;> simp [Cell.drawn, Cell.continuation]
      have hrest : (piece.flatMap fun cluster => cellsOf style cluster.columns cluster.text).flatMap
          Cell.drawn = Piece.text piece := ih
      rw [Piece.cells, List.flatMap_cons, List.flatMap_append, hfirst, hrest]
      simp [Piece.text]
  have hblanks : ∀ n, (List.replicate n Cell.blank).flatMap Cell.drawn = List.replicate n ' ' := by
    intro n
    induction n with
    | zero => rfl
    | succ n ih =>
      rw [List.replicate_succ, List.flatMap_cons, ih]
      rfl
  rw [Line.text_ofRow, Piece.row, List.flatMap_append, hcells, hblanks, Piece.rowText]

/-- There is one way to cut the lines of a text. -/
theorem Wraps.forall₂_unique {cols : ℕ} {lines : List (Piece width)}
    {layouts layouts' : List (List (Piece width))} (h : List.Forall₂ (Wraps cols) lines layouts)
    (h' : List.Forall₂ (Wraps cols) lines layouts') : layouts' = layouts := by
  induction h generalizing layouts' with
  | nil =>
    cases h' with
    | nil => rfl
  | cons hfirst _ ih =>
    cases h' with
    | cons hfirst' hrest' => rw [hfirst'.unique hfirst, ih hrest']

/-- On every screen of at least two columns, a text stands as its lines, each cut into rows in the
only way there is; the screen shows the last of them, and the cursor is behind the last
character. -/
theorem text_on_screen (width : UnicodeWidth) (hspace : width ' ' = some 1) {cols : ℕ}
    (hcols : 2 ≤ cols) (lines : List (Piece width)) (last : Piece width) :
    ∃ layouts : List (List (Piece width)),
      (∀ layouts', List.Forall₂ (Wraps cols) (lines ++ [last]) layouts' ↔ layouts' = layouts) ∧
      ∀ rows, 0 < rows → ∃ this,
        (Terminal.new cols rows).feed width (textCallbacks lines last) = some this ∧
        this.lines.map Line.text =
          bottomOf (List.replicate cols ' ') rows (layouts.flatten.map (Piece.rowText cols)) ∧
        this.cursorRow = min (layouts.flatten.length - 1) (rows - 1) ∧
        layouts.flatten.getLast?.map Piece.columns = some this.cursorCol := by
  obtain ⟨layouts, pieces, current, hlines, hlast, htyped⟩ :=
    @Paper.text_lines width cols Style.default hspace hcols [] lines last
  rw [List.nil_append] at htyped
  have hall : List.Forall₂ (Wraps cols) (lines ++ [last]) (layouts ++ [pieces ++ [current]]) :=
    List.rel_append hlines (.cons hlast .nil)
  have hflatten : (layouts ++ [pieces ++ [current]]).flatten =
      layouts.flatten ++ pieces ++ [current] := by simp
  refine ⟨layouts ++ [pieces ++ [current]], ?_, ?_⟩
  · intro layouts'
    constructor
    · exact Wraps.forall₂_unique hall
    · rintro rfl
      exact hall
  · intro rows hrows
    obtain ⟨this, hfeed, hshows⟩ :=
      (screen_shows_paper width hspace hcols (stayOnLine_text lines last)).1 rows hrows
    have hpaper : Paper.typed width cols (textCallbacks lines last) =
        Paper.onLine cols Style.default (layouts.flatten.map (Piece.row cols Style.default)) pieces
          current := htyped
    rw [hpaper] at hshows
    have hblank : (Line.ofRow (blankRow cols)).text = List.replicate cols ' ' :=
      Piece.text_row cols Style.default ([] : Piece width)
    refine ⟨this, hfeed, ?_, ?_, ?_⟩
    · have hrow : (Line.text ∘ Line.ofRow) ∘ Piece.row cols Style.default =
          @Piece.rowText width cols := by
        funext piece
        exact Piece.text_row cols Style.default piece
      have hrows' : (Paper.onLine cols Style.default
          (layouts.flatten.map (Piece.row cols Style.default)) pieces current).rows =
          (layouts.flatten ++ pieces ++ [current]).map (Piece.row cols Style.default) := by
        rw [Paper.onLine, Paper.rows, List.map_append, List.map_append, List.map_singleton]
      rw [Terminal.lines, hshows.buffer, map_bottomOf, map_bottomOf, hblank, hflatten, hrows',
        List.map_map, List.map_map, hrow]
    · rw [hshows.row, hflatten, Paper.onLine, List.length_append, List.length_map, List.length_map,
        List.length_append, List.length_append, List.length_singleton, Nat.add_sub_cancel]
    · rw [hflatten, hshows.col]
      simp [Paper.onLine]

def exampleCluster : Cluster exampleWidth :=
  ⟨'世', ['\u0301'], by decide, List.forall_mem_singleton.mpr rfl⟩

/-- Two wide characters on three columns, the first with a combining one. -/
theorem text_on_screen_wide : ∃ this,
    (Terminal.new 3 1).feed exampleWidth (textCallbacks [] [exampleCluster, exampleCluster]) =
      some this ∧ this.lines.map Line.text = [['世', '\u0301', ' ']] := by
  obtain ⟨layouts, hunique, hscreen⟩ := text_on_screen exampleWidth (by decide)
    (by decide : 2 ≤ 3) [] [exampleCluster, exampleCluster]
  have hfull : Piece.Full 3 [exampleCluster] [exampleCluster] :=
    .inr ⟨by decide, exampleCluster, [], rfl, by decide⟩
  have hlast : Wraps 3 [exampleCluster] [[exampleCluster]] := .last (by decide)
  have hwraps : Wraps 3 [exampleCluster, exampleCluster] [[exampleCluster], [exampleCluster]] :=
    .row hfull hlast
  obtain rfl := (hunique _).mp (.cons hwraps .nil)
  obtain ⟨this, hfeed, hlines, -⟩ := hscreen 1 (by decide)
  exact ⟨this, hfeed, hlines.trans (by decide)⟩

end ManInTheBox.Emulator
