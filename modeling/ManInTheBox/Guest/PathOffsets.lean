import ManInTheBox.Library.ByteOffset
import ManInTheBox.Guest.Paths

/-! # The directories on a path, by byte offsets

The source scans a path with an absolute and a relative offset, and slices it at both. The
offsets fall on slashes, so that the scan yields the texts in front of the slashes.
-/

namespace ManInTheBox.Guest.ByteOffsets

open Library

theorem offset_lt_byteLength {text rest : Text} {p : Char → Bool} {n i : ℕ}
    (hrest : sliceFrom n text = some rest) (hi : findChar p rest = some i) :
    n + i < byteLength text := by
  obtain ⟨⟨front, back⟩, hsplit, rfl⟩ := Option.map_eq_some_iff.mp hrest
  obtain ⟨rfl, rfl⟩ := splitAtByte_eq_some_iff.mp hsplit
  obtain ⟨before, c, after, rfl, -, -, rfl⟩ := findChar_eq_some_iff.mp hi
  have hpos := c.utf8Size_pos
  rw [byteLength_append, byteLength_append, byteLength_cons]
  omega

/-- The loop over `search_from`; there is no list where a slice would panic. -/
def scanPrefixes (directoryPath : Text) (searchFrom : ℕ) : Option (List Text) :=
  match _hrest : sliceFrom searchFrom directoryPath with
  | none => none
  | some rest =>
    match _hi : findChar (· = '/') rest with
    | none => some []
    | some relativeIndex => do
      let slashIndex := searchFrom + relativeIndex
      let directory ← sliceTo slashIndex directoryPath
      let prefixes ← scanPrefixes directoryPath (slashIndex + 1)
      return directory :: prefixes
termination_by byteLength directoryPath - searchFrom
decreasing_by
  have := offset_lt_byteLength _hrest _hi
  omega

def directoryPrefixes (path : Text) (isDir : Bool) : Option (List Text) := do
  let stop := if isDir then byteLength path else (rfindChar (· = '/') path).getD 0
  if stop = 0 then
    return []
  let directoryPath ← sliceTo stop path
  let prefixes ← scanPrefixes directoryPath 0
  return prefixes ++ [directoryPath]

/-! ## The scan -/

theorem scanPrefixes_of_sliceFrom {text rest : Text} {n : ℕ} (h : sliceFrom n text = some rest) :
    scanPrefixes text n =
      match findChar (· = '/') rest with
      | none => some []
      | some i => do
        let directory ← sliceTo (n + i) text
        let prefixes ← scanPrefixes text (n + i + 1)
        return directory :: prefixes := by
  rw [scanPrefixes]
  split
  case h_1 hnone =>
    rw [h] at hnone
    cases hnone
  case h_2 rest' hrest =>
    obtain rfl := Option.some.inj (h.symm.trans hrest)
    split
    case h_1 hi => rw [hi]
    case h_2 i hi => rw [hi]

theorem scanPrefixes_of_no_slash (front : Text) {rest : Text} (h : '/' ∉ rest) :
    scanPrefixes (front ++ rest) (byteLength front) = some [] := by
  have hnone : findChar (· = '/') rest = none := by
    rw [findChar_eq_none_iff]
    intro c hc
    exact decide_eq_false fun hslash => h (hslash ▸ hc)
  rw [scanPrefixes_of_sliceFrom (sliceFrom_append front rest), hnone]

/-- The offset behind a slash is where the scan goes on. -/
theorem scanPrefixes_slash (front : Text) {before : Text} (h : '/' ∉ before) (after : Text) :
    scanPrefixes (front ++ (before ++ '/' :: after)) (byteLength front) =
      (scanPrefixes ((front ++ before ++ ['/']) ++ after)
        (byteLength (front ++ before ++ ['/']))).map ((front ++ before) :: ·) := by
  have hfind : findChar (· = '/') (before ++ '/' :: after) = some (byteLength before) := by
    apply findChar_append
    · intro c hc
      exact decide_eq_false fun hslash => h (hslash ▸ hc)
    · rfl
  have hslice : sliceTo (byteLength front + byteLength before)
      (front ++ (before ++ '/' :: after)) = some (front ++ before) := by
    rw [← byteLength_append, ← List.append_assoc, sliceTo_append]
  have hnext : byteLength front + byteLength before + 1 =
      byteLength (front ++ before ++ ['/']) := by
    rw [byteLength_append, byteLength_append]
    rfl
  have htext : front ++ (before ++ '/' :: after) = (front ++ before ++ ['/']) ++ after := by
    simp
  rw [scanPrefixes_of_sliceFrom (sliceFrom_append front _), hfind]
  simp only [hslice, hnext]
  rw [htext]
  cases scanPrefixes ((front ++ before ++ ['/']) ++ after)
    (byteLength (front ++ before ++ ['/'])) with
  | none => rfl
  | some prefixes => rfl

/-- From an offset on, the scan yields what stands before the slashes. -/
theorem scanPrefixes_append (front rest : Text) :
    scanPrefixes (front ++ rest) (byteLength front) = some (beforeSlashes front rest) := by
  induction hn : rest.length using Nat.strong_induction_on generalizing front rest with
  | _ n ih =>
    by_cases h : '/' ∈ rest
    · obtain ⟨before, after, rfl, hbefore⟩ := List.eq_append_cons_of_mem h
      have hshort : after.length < n := by
        rw [← hn, List.length_append, List.length_cons]
        omega
      rw [scanPrefixes_slash front hbefore, ih after.length hshort _ after rfl,
        beforeSlashes_append, beforeSlashes_of_no_slash front hbefore, beforeSlashes, if_pos rfl]
      rfl
    · rw [scanPrefixes_of_no_slash front h, beforeSlashes_of_no_slash front h]

/-! ## The directory of an entry -/

theorem exists_last_slash {path : Text} (h : '/' ∈ path) :
    ∃ before after, path = before ++ '/' :: after ∧ '/' ∉ after := by
  obtain ⟨front, back, hparts, hfront⟩ := List.eq_append_cons_of_mem (List.mem_reverse.mpr h)
  refine ⟨back.reverse, front.reverse, ?_, mt List.mem_reverse.mp hfront⟩
  rw [← List.reverse_reverse path, hparts]
  simp

/-- The offset of the last slash cuts off the last name. -/
theorem sliceTo_rfindChar (path : Text) :
    sliceTo ((rfindChar (· = '/') path).getD 0) path = some (beforeLastSlash path) := by
  have hother : ∀ {text : Text}, '/' ∉ text → ∀ c ∈ text, decide (c = '/') = false := by
    intro text htext c hc
    exact decide_eq_false fun hslash => htext (hslash ▸ hc)
  by_cases h : '/' ∈ path
  · obtain ⟨before, after, rfl, hafter⟩ := exists_last_slash h
    rw [rfindChar_append before rfl (hother hafter), beforeLastSlash_append before hafter]
    exact sliceTo_append before ('/' :: after)
  · rw [rfindChar_eq_none_iff.mpr (hother h), beforeLastSlash_of_no_slash h]
    exact sliceTo_append [] path

/-- No slice of the scan panics, and on every text it is the list of the texts in front of the
slashes of the directory, with the directory at its end. -/
theorem directoryPrefixes_eq (path : Text) (isDir : Bool) :
    directoryPrefixes path isDir = some (Guest.directoryPrefixes path isDir) := by
  obtain ⟨directoryPath, hslice, hguest⟩ : ∃ directoryPath,
      sliceTo (if isDir then byteLength path else (rfindChar (· = '/') path).getD 0) path =
        some directoryPath ∧ (if isDir then path else beforeLastSlash path) = directoryPath := by
    cases isDir with
    | true => exact ⟨path, sliceTo_eq_some_iff.mpr ⟨List.prefix_refl path, rfl⟩, rfl⟩
    | false => exact ⟨_, sliceTo_rfindChar path, rfl⟩
  obtain ⟨-, hlength⟩ := sliceTo_eq_some_iff.mp hslice
  have hempty : byteLength directoryPath = 0 ↔ directoryPath = [] := by
    constructor
    · intro hzero
      by_contra hne
      exact (byteLength_pos hne).ne' hzero
    · rintro rfl
      rfl
  rw [directoryPrefixes, Guest.directoryPrefixes, hguest]
  simp only [← hlength, hempty]
  by_cases hnil : directoryPath = []
  · rw [if_pos hnil, if_pos hnil]
    rfl
  · rw [if_neg hnil, if_neg hnil, hlength, hslice]
    have hscan := scanPrefixes_append [] directoryPath
    rw [List.nil_append, byteLength_nil] at hscan
    simp [hscan]

/-! ## The list -/

/-- The text of a path has a slash between its names. -/
theorem pathText_cons (name : Name) (names : List Name) :
    pathText (name :: names) =
      ['/'].intercalate (name.text :: names.map Name.text) := by
  induction names generalizing name with
  | nil => simp
  | cons next names ih =>
    rw [← List.singleton_append, pathText_append (by simp) (by simp), pathText_singleton, ih,
      List.map_cons, List.intercalate_cons_cons, List.append_assoc]
    rfl

theorem beforeSlashes_pathText (name : Name) (names : List Name) :
    beforeSlashes [] (pathText (name :: names)) =
      (List.range names.length).map fun k => pathText ((name :: names).take (k + 1)) := by
  induction names using List.reverseRecOn with
  | nil => exact beforeSlashes_of_no_slash [] name.no_slash
  | append_singleton names last ih =>
    have hearlier :
        (List.range names.length).map (fun k => pathText ((name :: names).take (k + 1))) =
          (List.range names.length).map
            fun k => pathText ((name :: (names ++ [last])).take (k + 1)) := by
      apply List.map_congr_left
      intro k hk
      have hlt := List.mem_range.mp hk
      rw [List.take_succ_cons, List.take_succ_cons, List.take_append_of_le_length hlt.le]
    rw [← List.cons_append, beforeSlashes_concat (List.cons_ne_nil name names), ih,
      List.length_append, List.length_singleton, List.range_succ, List.map_append, hearlier]
    simp

/-- Different levels of a path have different texts. -/
theorem nodup_levels (path : List Name) :
    ((List.range path.length).map fun k => pathText (path.take (k + 1))).Nodup := by
  apply List.Nodup.map_on _ List.nodup_range
  intro k hk l hl h
  have hlength := congrArg List.length (pathText_injective h)
  have hk := List.mem_range.mp hk
  have hl := List.mem_range.mp hl
  rw [List.length_take, List.length_take] at hlength
  omega

theorem levels_concat (name : Name) (names : List Name) :
    (List.range (name :: names).length).map (fun k => pathText ((name :: names).take (k + 1))) =
      (List.range names.length).map (fun k => pathText ((name :: names).take (k + 1))) ++
        [pathText (name :: names)] := by
  rw [List.length_cons, List.range_succ, List.map_append]
  simp

/-- The scan lists the levels above an entry from the top down, and below them the entry itself
if it is a directory. -/
theorem directoryPrefixes_levels (name : Name) (names : List Name) :
    let text (names : List Name) := ['/'].intercalate (names.map Name.text)
    let above := (List.range names.length).map fun k => text ((name :: names).take (k + 1))
    directoryPrefixes (text (name :: names)) false = some above ∧
      directoryPrefixes (text (name :: names)) true = some (above ++ [text (name :: names)]) ∧
      (above ++ [text (name :: names)]).Nodup := by
  intro text above
  have htext : text (name :: names) = pathText (name :: names) := (pathText_cons name names).symm
  have habove : above = (List.range names.length).map
      fun k => pathText ((name :: names).take (k + 1)) := by
    apply List.map_congr_left
    intro k _
    rw [List.take_succ_cons, pathText_cons]
    rfl
  rw [htext, habove, directoryPrefixes_eq, directoryPrefixes_eq, ← levels_concat]
  refine ⟨?_, ?_, nodup_levels (name :: names)⟩
  · rw [directoryPrefixes_pathText_false, beforeSlashes_pathText]
  · rw [Guest.directoryPrefixes, if_pos rfl, if_neg (mt (pathText_eq_nil_iff _).mp (by simp)),
      beforeSlashes_pathText, levels_concat]

end ManInTheBox.Guest.ByteOffsets
