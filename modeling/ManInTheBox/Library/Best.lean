import Mathlib.Order.Defs.LinearOrder
import Mathlib.Tactic

/-! # The best member of a list

Members are compared by score, and those with one score by key: the best one has the
greatest score and, among the members with that score, the least key. A scan that
keeps the best member so far finds it; which order it goes in makes no difference.
-/

namespace ManInTheBox.Library

variable {α σ κ : Type*} [LinearOrder σ] [LinearOrder κ] {score : α → σ} {key : α → κ}
  {l l' : List α} {a b : α}

structure Best (score : α → σ) (key : α → κ) (l : List α) (a : α) : Prop where
  mem : a ∈ l
  score_le : ∀ b ∈ l, score b ≤ score a
  key_le : ∀ b ∈ l, score b = score a → key a ≤ key b

namespace Best

theorem singleton (score : α → σ) (key : α → κ) (a : α) : Best score key [a] a where
  mem := List.mem_singleton_self a
  score_le := by simp
  key_le := by simp

/-- A member that is added does not displace the best if it is no better. -/
theorem keep (h : Best score key l a) (hscore : score b ≤ score a)
    (hkey : score b = score a → key a ≤ key b) : Best score key (l ++ [b]) a where
  mem := List.mem_append_left [b] h.mem
  score_le := by
    intro c hc
    rcases List.mem_append.mp hc with hold | hnew
    · exact h.score_le c hold
    · rwa [List.mem_singleton.mp hnew]
  key_le := by
    intro c hc heq
    rcases List.mem_append.mp hc with hold | hnew
    · exact h.key_le c hold heq
    · obtain rfl := List.mem_singleton.mp hnew
      exact hkey heq

/-- One that has a higher score becomes the best, whatever its key. -/
theorem higher (h : Best score key l a) (hscore : score a < score b) :
    Best score key (l ++ [b]) b where
  mem := by simp
  score_le := by
    intro c hc
    rcases List.mem_append.mp hc with hold | hnew
    · exact (h.score_le c hold).trans hscore.le
    · rw [List.mem_singleton.mp hnew]
  key_le := by
    intro c hc heq
    rcases List.mem_append.mp hc with hold | hnew
    · exact absurd heq ((h.score_le c hold).trans_lt hscore).ne
    · rw [List.mem_singleton.mp hnew]

/-- One with the same score and a smaller key becomes the best as well. -/
theorem tied (h : Best score key l a) (hscore : score b = score a) (hkey : key b < key a) :
    Best score key (l ++ [b]) b where
  mem := by simp
  score_le := by
    intro c hc
    rcases List.mem_append.mp hc with hold | hnew
    · exact (h.score_le c hold).trans_eq hscore.symm
    · rw [List.mem_singleton.mp hnew]
  key_le := by
    intro c hc heq
    rcases List.mem_append.mp hc with hold | hnew
    · exact hkey.le.trans (h.key_le c hold (heq.trans hscore))
    · rw [List.mem_singleton.mp hnew]

theorem perm (h : Best score key l a) (hperm : l'.Perm l) : Best score key l' a where
  mem := hperm.mem_iff.mpr h.mem
  score_le b hb := h.score_le b (hperm.mem_iff.mp hb)
  key_le b hb := h.key_le b (hperm.mem_iff.mp hb)

/-- Two members that are both best have one key. -/
theorem key_eq (h : Best score key l a) (h' : Best score key l b) : key a = key b := by
  have hscore : score a = score b :=
    le_antisymm (h'.score_le a h.mem) (h.score_le b h'.mem)
  exact le_antisymm (h.key_le b h'.mem hscore.symm) (h'.key_le a h.mem hscore)

end Best

end ManInTheBox.Library
