import Mathlib.Tactic
import ManInTheBox.Library.Shift

/-! # The bottom of a growing list

A screen of fixed height shows the last entries of a list that only grows at its end; as
long as the list is shorter, fresh entries stand below it. To add an entry scrolls the
screen if it is full and changes nothing otherwise.
-/

namespace ManInTheBox.Library

variable {α : Type*}

/-- The last `n` entries, with fresh ones behind them if there are fewer. -/
def bottomOf (fresh : α) (n : ℕ) (l : List α) : List α :=
  l.drop (l.length - n) ++ List.replicate (n - l.length) fresh

section Bottom

variable {fresh a b : α} {n : ℕ} {l : List α}

@[simp] theorem length_bottomOf : (bottomOf fresh n l).length = n := by
  simp only [bottomOf, List.length_append, List.length_drop, List.length_replicate]
  omega

theorem getElem?_bottomOf (i : ℕ) : (bottomOf fresh n l)[i]? =
    if i < n then if l.length - n + i < l.length then l[l.length - n + i]? else some fresh
    else none := by
  rw [bottomOf, List.getElem?_append, List.length_drop, List.getElem?_drop,
    List.getElem?_replicate]
  by_cases hi : i < n
  · rw [if_pos hi]
    by_cases hshown : l.length - n + i < l.length
    · rw [if_pos hshown, if_pos (by omega)]
    · rw [if_neg hshown, if_neg (by omega), if_pos (by omega)]
  · rw [if_neg hi, if_neg (by omega), if_neg (by omega)]

/-- A list that is not longer than the screen is shown as a whole. -/
theorem bottomOf_of_le (h : l.length ≤ n) :
    bottomOf fresh n l = l ++ List.replicate (n - l.length) fresh := by
  rw [bottomOf, Nat.sub_eq_zero_of_le h, List.drop_zero]

theorem getElem?_bottomOf_last (hn : 0 < n) :
    (bottomOf fresh n (l ++ [a]))[min l.length (n - 1)]? = some a := by
  rw [getElem?_bottomOf, if_pos (by omega), List.length_append, List.length_singleton,
    if_pos (by omega), List.getElem?_append_right (by omega)]
  have hlast : l.length + 1 - n + min l.length (n - 1) - l.length = 0 := by omega
  rw [hlast]
  rfl

/-- The entry before the last one is shown above it, if there are two rows. -/
theorem getElem?_bottomOf_previous (hn : 2 ≤ n) :
    (bottomOf fresh n (l ++ [a, b]))[min (l.length + 1) (n - 1) - 1]? = some a := by
  rw [getElem?_bottomOf, if_pos (by omega), List.length_append, List.length_cons,
    List.length_singleton, if_pos (by omega), List.getElem?_append_right (by omega)]
  have hprevious :
      l.length + (1 + 1) - n + (min (l.length + 1) (n - 1) - 1) - l.length = 0 := by omega
  rw [hprevious]
  rfl

theorem bottomOf_set {i : ℕ} (hi : l.length - n ≤ i) (c : α) :
    bottomOf fresh n (l.set i c) =
      if i < l.length then (bottomOf fresh n l).set (i - (l.length - n)) c
      else bottomOf fresh n l := by
  by_cases hlt : i < l.length
  · rw [if_pos hlt, bottomOf, bottomOf, List.length_set, List.drop_set,
      if_neg (not_lt.mpr hi), List.set_append, if_pos (by rw [List.length_drop]; omega)]
  · rw [if_neg hlt, List.set_eq_of_length_le (not_lt.mp hlt)]

theorem bottomOf_set_last (hn : 0 < n) :
    (bottomOf fresh n (l ++ [a])).set (min l.length (n - 1)) b = bottomOf fresh n (l ++ [b]) := by
  have hset : (l ++ [a]).set l.length b = l ++ [b] := by simp
  have hscreen := @bottomOf_set _ fresh n (l ++ [a]) l.length (by simp; omega) b
  rw [hset, if_pos (by simp)] at hscreen
  rw [hscreen, List.length_append, List.length_singleton]
  congr 1
  omega

/-- To add a fresh entry scrolls a full screen. -/
theorem bottomOf_concat_of_le (hn : 0 < n) (h : n ≤ l.length) :
    bottomOf fresh n (l ++ [fresh]) = shiftUp fresh 0 (n - 1) 1 (bottomOf fresh n l) := by
  apply List.ext_getElem?
  intro i
  rw [getElem?_shiftUp (by simp; omega), getElem?_bottomOf, getElem?_bottomOf, getElem?_bottomOf,
    List.length_append, List.length_singleton]
  by_cases hi : i < n
  · rw [if_pos hi, if_pos (by omega), if_pos (by omega)]
    by_cases hlast : i + 1 = n
    · rw [if_neg (by omega), List.getElem?_append_right (by omega)]
      have hzero : l.length + 1 - n + i - l.length = 0 := by omega
      rw [hzero]
      rfl
    · rw [if_pos (by omega), if_pos (by omega), if_pos (by omega),
        List.getElem?_append_left (by omega)]
      congr 1
      omega
  · rw [if_neg hi, if_neg (by omega), if_neg hi]

/-- Below the list there is room for a fresh entry. -/
theorem bottomOf_concat_of_lt (h : l.length < n) :
    bottomOf fresh n (l ++ [fresh]) = bottomOf fresh n l := by
  rw [bottomOf_of_le (by simp; omega), bottomOf_of_le h.le, List.append_assoc,
    List.singleton_append, ← List.replicate_succ, List.length_append, List.length_singleton]
  congr 2
  omega

theorem map_bottomOf {β : Type*} (f : α → β) :
    (bottomOf fresh n l).map f = bottomOf (f fresh) n (l.map f) := by
  simp [bottomOf]

/-- A smaller screen shows the end of what a larger one shows. -/
theorem bottomOf_bottomOf {m : ℕ} (hle : m ≤ n) (h : n ≤ l.length) :
    bottomOf fresh m (bottomOf fresh n l) = bottomOf fresh m l := by
  rw [bottomOf, bottomOf, bottomOf, List.length_append, List.length_drop, List.length_replicate,
    Nat.sub_eq_zero_of_le h, List.replicate_zero, List.append_nil, List.drop_drop]
  congr 2
  · omega
  · omega

end Bottom

end ManInTheBox.Library
