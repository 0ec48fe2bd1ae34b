import Mathlib.Tactic

/-! # Shifts within a list

A part of a list is shifted towards one of its ends: what goes over the edge is lost,
and fresh entries come in behind. A loop that copies entry by entry in place does the
same if it goes through the part in the direction in which it never reads an entry it
has written before.
-/

namespace ManInTheBox.Library

variable {α : Type*}

/-- The entries from `top` to `bottom` move to the front. -/
def shiftUp (fresh : α) (top bottom count : ℕ) (l : List α) : List α :=
  l.mapIdx fun i a =>
    if top ≤ i ∧ i ≤ bottom then
      if i + count ≤ bottom then l.getD (i + count) fresh else fresh
    else a

/-- The entries from `top` to `bottom` move to the back. -/
def shiftDown (fresh : α) (top bottom count : ℕ) (l : List α) : List α :=
  l.mapIdx fun i a =>
    if top ≤ i ∧ i ≤ bottom then
      if top + count ≤ i then l.getD (i - count) fresh else fresh
    else a

section Entries

variable {fresh : α} {top bottom count : ℕ} {l : List α}

@[simp] theorem length_shiftUp : (shiftUp fresh top bottom count l).length = l.length := by
  simp [shiftUp]

@[simp] theorem length_shiftDown : (shiftDown fresh top bottom count l).length = l.length := by
  simp [shiftDown]

theorem getElem?_shiftUp (h : bottom < l.length) (i : ℕ) :
    (shiftUp fresh top bottom count l)[i]? =
      if top ≤ i ∧ i ≤ bottom then if i + count ≤ bottom then l[i + count]? else some fresh
      else l[i]? := by
  by_cases hi : i < l.length
  · by_cases hmoved : i + count ≤ bottom
    · have hsource : i + count < l.length := by omega
      simp only [shiftUp, List.getElem?_mapIdx, List.getElem?_eq_getElem hi, Option.map_some,
        hmoved, if_true, List.getD_eq_getElem?_getD, List.getElem?_eq_getElem hsource,
        Option.getD_some]
      split <;> rfl
    · simp only [shiftUp, List.getElem?_mapIdx, List.getElem?_eq_getElem hi, Option.map_some,
        hmoved, if_false]
      split <;> rfl
  · rw [if_neg (by omega), List.getElem?_eq_none (by simpa using hi),
      List.getElem?_eq_none (by simpa using hi)]

theorem getElem?_shiftDown (h : bottom < l.length) (i : ℕ) :
    (shiftDown fresh top bottom count l)[i]? =
      if top ≤ i ∧ i ≤ bottom then if top + count ≤ i then l[i - count]? else some fresh
      else l[i]? := by
  by_cases hi : i < l.length
  · have hsource : i - count < l.length := by omega
    simp only [shiftDown, List.getElem?_mapIdx, List.getElem?_eq_getElem hi, Option.map_some,
      List.getD_eq_getElem?_getD, List.getElem?_eq_getElem hsource, Option.getD_some]
    split
    · split <;> rfl
    · rfl
  · rw [if_neg (by omega), List.getElem?_eq_none (by simpa using hi),
      List.getElem?_eq_none (by simpa using hi)]

theorem shiftUp_zero (h : bottom < l.length) : shiftUp fresh top bottom 0 l = l := by
  apply List.ext_getElem?
  intro i
  rw [getElem?_shiftUp h]
  split
  · rw [if_pos (by omega), Nat.add_zero]
  · rfl

theorem shiftDown_zero (h : bottom < l.length) : shiftDown fresh top bottom 0 l = l := by
  apply List.ext_getElem?
  intro i
  rw [getElem?_shiftDown h]
  split
  · rw [if_pos (by omega), Nat.sub_zero]
  · rfl

/-- Two shifts are one by the sum. -/
theorem shiftUp_shiftUp (h : bottom < l.length) (m n : ℕ) :
    shiftUp fresh top bottom n (shiftUp fresh top bottom m l) =
      shiftUp fresh top bottom (m + n) l := by
  apply List.ext_getElem?
  intro i
  rw [getElem?_shiftUp (by simpa using h), getElem?_shiftUp h, getElem?_shiftUp h,
    getElem?_shiftUp h]
  by_cases hin : top ≤ i ∧ i ≤ bottom
  · rw [if_pos hin, if_pos hin]
    by_cases hmoved : i + n ≤ bottom
    · rw [if_pos hmoved, if_pos (by omega), show i + n + m = i + (m + n) by omega]
    · rw [if_neg hmoved, if_neg (by omega)]
  · rw [if_neg hin, if_neg hin, if_neg hin]

theorem shiftDown_shiftDown (h : bottom < l.length) (m n : ℕ) :
    shiftDown fresh top bottom n (shiftDown fresh top bottom m l) =
      shiftDown fresh top bottom (m + n) l := by
  apply List.ext_getElem?
  intro i
  rw [getElem?_shiftDown (by simpa using h), getElem?_shiftDown h, getElem?_shiftDown h,
    getElem?_shiftDown h]
  by_cases hin : top ≤ i ∧ i ≤ bottom
  · rw [if_pos hin, if_pos hin]
    by_cases hmoved : top + n ≤ i
    · rw [if_pos hmoved, if_pos (by omega), show i - n - m = i - (m + n) by omega]
      by_cases hfurther : top + m ≤ i - n
      · rw [if_pos hfurther, if_pos (by omega)]
      · rw [if_neg hfurther, if_neg (by omega)]
    · rw [if_neg hmoved, if_neg (by omega)]
  · rw [if_neg hin, if_neg hin, if_neg hin]

/-- A shift by more than the length of the part leaves nothing of it. -/
theorem shiftUp_min (h : bottom < l.length) :
    shiftUp fresh top bottom (min count (bottom - top + 1)) l =
      shiftUp fresh top bottom count l := by
  apply List.ext_getElem?
  intro i
  rw [getElem?_shiftUp h, getElem?_shiftUp h]
  by_cases hin : top ≤ i ∧ i ≤ bottom
  · by_cases hmoved : i + count ≤ bottom
    · rw [min_eq_left (by omega)]
    · rw [if_pos hin, if_pos hin, if_neg hmoved, if_neg (by omega)]
  · rw [if_neg hin, if_neg hin]

theorem shiftDown_min (h : bottom < l.length) :
    shiftDown fresh top bottom (min count (bottom - top + 1)) l =
      shiftDown fresh top bottom count l := by
  apply List.ext_getElem?
  intro i
  rw [getElem?_shiftDown h, getElem?_shiftDown h]
  by_cases hin : top ≤ i ∧ i ≤ bottom
  · by_cases hmoved : top + count ≤ i
    · rw [min_eq_left (by omega)]
    · rw [if_pos hin, if_pos hin, if_neg hmoved, if_neg (by omega)]
  · rw [if_neg hin, if_neg hin]

end Entries

/-! ## Loops in place -/

/-- `l[i] = a`, in range. -/
def setEntry (i : ℕ) (a : α) (l : List α) : Option (List α) :=
  if i < l.length then some (l.set i a) else none

/-- `l[target] = l[source]`, in range. -/
def copyEntry (source target : ℕ) (l : List α) : Option (List α) := do
  let a ← l[source]?
  setEntry target a l

/-- In ascending order, each of `n` entries takes what is `count` entries behind it. -/
def copyUp (start n count : ℕ) (l : List α) : Option (List α) :=
  (List.range' start n).foldlM (fun l i => copyEntry (i + count) i l) l

/-- In descending order, each of `n` entries is copied `count` entries further. -/
def copyDown (start n count : ℕ) (l : List α) : Option (List α) :=
  (List.range' start n).reverse.foldlM (fun l i => copyEntry i (i + count) l) l

def fillEntries (start n : ℕ) (a : α) (l : List α) : Option (List α) :=
  (List.range' start n).foldlM (fun l i => setEntry i a l) l

section Loops

variable {start n count : ℕ} {l : List α}

theorem setEntry_eq {i : ℕ} (h : i < l.length) (a : α) : setEntry i a l = some (l.set i a) :=
  if_pos h

theorem copyEntry_eq {source target : ℕ} {a : α} (hsource : l[source]? = some a)
    (htarget : target < l.length) : copyEntry source target l = some (l.set target a) := by
  rw [copyEntry, hsource, Option.bind_eq_bind, Option.bind_some, setEntry_eq htarget]

/-- What is read has not been written: it is behind all that has been written. -/
theorem copyUp_eq (h : start + n + count ≤ l.length) :
    ∃ l', copyUp start n count l = some l' ∧ l'.length = l.length ∧
      ∀ i : ℕ, l'[i]? = if start ≤ i ∧ i < start + n then l[i + count]? else l[i]? := by
  induction n with
  | zero =>
    refine ⟨l, rfl, rfl, fun i => ?_⟩
    rw [if_neg (by omega)]
  | succ n ih =>
    obtain ⟨l', hloop, hlength, hentries⟩ := ih (by omega)
    have hsource : l'[start + n + count]? = some l[start + n + count] := by
      rw [hentries, if_neg (by omega), List.getElem?_eq_getElem]
    have hlt : start + n < l'.length := by omega
    refine ⟨l'.set (start + n) l[start + n + count], ?_, by simpa using hlength, fun i => ?_⟩
    · rw [copyUp, List.range'_1_concat, List.foldlM_append, ← copyUp, hloop]
      simpa using copyEntry_eq hsource hlt
    · by_cases hi : start + n = i
      · subst hi
        rw [List.getElem?_set_self hlt, if_pos (by omega), List.getElem?_eq_getElem]
      · rw [List.getElem?_set_ne hi, hentries]
        by_cases hcopied : start ≤ i ∧ i < start + n
        · rw [if_pos hcopied, if_pos (by omega)]
        · rw [if_neg hcopied, if_neg (by omega)]

/-- What is read has not been written: it is before all that has been written. -/
theorem copyDown_eq (hcount : 0 < count) (h : start + n + count ≤ l.length) :
    ∃ l', copyDown start n count l = some l' ∧ l'.length = l.length ∧
      ∀ i : ℕ, l'[i]? =
        if start + count ≤ i ∧ i < start + n + count then l[i - count]? else l[i]? := by
  induction n generalizing l with
  | zero =>
    refine ⟨l, rfl, rfl, fun i => ?_⟩
    rw [if_neg (by omega)]
  | succ n ih =>
    have hsource : l[start + n]? = some l[start + n] := List.getElem?_eq_getElem _
    have hlt : start + n + count < l.length := by omega
    have hfirst := copyEntry_eq hsource hlt
    obtain ⟨l', hloop, hlength, hentries⟩ :=
      @ih (l.set (start + n + count) l[start + n]) (by simp; omega)
    refine ⟨l', ?_, by simpa using hlength, fun i => ?_⟩
    · rw [copyDown, List.range'_1_concat, List.reverse_append, List.reverse_singleton,
        List.singleton_append, List.foldlM_cons, hfirst, Option.bind_eq_bind, Option.bind_some,
        ← copyDown, hloop]
    · rw [hentries]
      by_cases hi : start + n + count = i
      · subst hi
        rw [if_neg (by omega), if_pos (by omega), List.getElem?_set_self hlt, Nat.add_sub_cancel,
          hsource]
      · by_cases hcopied : start + count ≤ i ∧ i < start + n + count
        · rw [if_pos hcopied, if_pos (by omega), List.getElem?_set_ne (by omega)]
        · rw [if_neg hcopied, if_neg (by omega), List.getElem?_set_ne hi]

theorem fillEntries_eq (h : start + n ≤ l.length) (a : α) :
    ∃ l', fillEntries start n a l = some l' ∧ l'.length = l.length ∧
      ∀ i : ℕ, l'[i]? = if start ≤ i ∧ i < start + n then some a else l[i]? := by
  induction n with
  | zero =>
    refine ⟨l, rfl, rfl, fun i => ?_⟩
    rw [if_neg (by omega)]
  | succ n ih =>
    obtain ⟨l', hloop, hlength, hentries⟩ := ih (by omega)
    have hlt : start + n < l'.length := by omega
    refine ⟨l'.set (start + n) a, ?_, by simpa using hlength, fun i => ?_⟩
    · rw [fillEntries, List.range'_1_concat, List.foldlM_append, ← fillEntries, hloop]
      simpa using setEntry_eq hlt a
    · by_cases hi : start + n = i
      · subst hi
        rw [List.getElem?_set_self hlt, if_pos (by omega)]
      · rw [List.getElem?_set_ne hi, hentries]
        by_cases hfilled : start ≤ i ∧ i < start + n
        · rw [if_pos hfilled, if_pos (by omega)]
        · rw [if_neg hfilled, if_neg (by omega)]

end Loops

/-! ## The loops shift -/

section Shift

variable {fresh : α} {top bottom count : ℕ} {l : List α}

theorem copyUp_fillEntries (htop : top ≤ bottom) (hcount : count ≤ bottom + 1 - top)
    (hbottom : bottom < l.length) :
    (copyUp top (bottom + 1 - count - top) count l).bind
        (fillEntries (bottom + 1 - count) count fresh) =
      some (shiftUp fresh top bottom count l) := by
  obtain ⟨l', hcopied, hlength, hentries⟩ :=
    @copyUp_eq _ top (bottom + 1 - count - top) count l (by omega)
  obtain ⟨l'', hfilled, -, hentries'⟩ :=
    @fillEntries_eq _ (bottom + 1 - count) count l' (by omega) fresh
  have hshift : l'' = shiftUp fresh top bottom count l := by
    apply List.ext_getElem?
    intro i
    rw [hentries', hentries, getElem?_shiftUp hbottom]
    grind
  rw [hcopied, Option.bind_some, hfilled, hshift]

theorem copyDown_fillEntries (hpos : 0 < count) (hcount : count ≤ bottom + 1 - top)
    (hbottom : bottom < l.length) :
    (copyDown top (bottom + 1 - count - top) count l).bind (fillEntries top count fresh) =
      some (shiftDown fresh top bottom count l) := by
  obtain ⟨l', hcopied, hlength, hentries⟩ :=
    @copyDown_eq _ top (bottom + 1 - count - top) count l hpos (by omega)
  obtain ⟨l'', hfilled, -, hentries'⟩ := @fillEntries_eq _ top count l' (by omega) fresh
  have hshift : l'' = shiftDown fresh top bottom count l := by
    apply List.ext_getElem?
    intro i
    rw [hentries', hentries, getElem?_shiftDown hbottom]
    grind
  rw [hcopied, Option.bind_some, hfilled, hshift]

end Shift

end ManInTheBox.Library
