import Mathlib.Data.List.Basic
import Mathlib.Data.List.Induction

/-! # A set maintained from notices

A replica learns of a set by a full copy, by additions and by removals. Its view
is the fold of the notices in the order in which they arrive.
-/

namespace ManInTheBox.Library

inductive Notice (α : Type*)
  | reset (members : List α)
  | add (a : α)
  | remove (a : α)
  | ignore
  deriving DecidableEq

variable {α : Type*} [DecidableEq α]

/-- One notice applied to a view. -/
def Notice.apply (view : List α) : Notice α → List α
  | .reset members => members
  | .add a => view.insert a
  | .remove a => view.filter (· ≠ a)
  | .ignore => view

/-- The view after all notices. -/
def viewOf (notices : List (Notice α)) : List α := notices.foldl Notice.apply []

@[simp] theorem viewOf_concat (notices : List (Notice α)) (notice : Notice α) :
    viewOf (notices ++ [notice]) = notice.apply (viewOf notices) := by
  simp [viewOf]

theorem mem_viewOf_add {notices : List (Notice α)} {a b : α} :
    b ∈ viewOf (notices ++ [.add a]) ↔ b = a ∨ b ∈ viewOf notices := by
  simp [Notice.apply]

theorem mem_viewOf_remove {notices : List (Notice α)} {a b : α} :
    b ∈ viewOf (notices ++ [.remove a]) ↔ b ≠ a ∧ b ∈ viewOf notices := by
  simp [Notice.apply, and_comm]

theorem viewOf_reset (notices : List (Notice α)) (members : List α) :
    viewOf (notices ++ [.reset members]) = members := by
  simp [Notice.apply]

/-- A notice that says nothing can be taken out anywhere. -/
theorem viewOf_ignore (before after : List (Notice α)) :
    viewOf (before ++ [.ignore] ++ after) = viewOf (before ++ after) := by
  simp [viewOf, Notice.apply]

/-! ## Coming into view -/

/-- Whether the notice brings an element into a view without it. -/
def Notice.appears (a : α) (view : List α) (notice : Notice α) : ℕ :=
  if a ∉ view ∧ a ∈ notice.apply view then 1 else 0

/-- How often an element comes into the view. -/
def appearances (a : α) (notices : List (Notice α)) : ℕ :=
  (notices.foldl (fun r notice => (notice.apply r.1, r.2 + notice.appears a r.1))
    (([] : List α), 0)).2

@[simp] theorem appearances_nil (a : α) : appearances a ([] : List (Notice α)) = 0 := rfl

@[simp] theorem appearances_concat (a : α) (notices : List (Notice α)) (notice : Notice α) :
    appearances a (notices ++ [notice]) =
      appearances a notices + notice.appears a (viewOf notices) := by
  have hview (notices : List (Notice α)) (view : List α) (n : ℕ) :
      (notices.foldl (fun r notice => (notice.apply r.1, r.2 + notice.appears a r.1))
        (view, n)).1 = notices.foldl Notice.apply view := by
    induction notices generalizing view n with
    | nil => rfl
    | cons notice notices ih => exact ih _ _
  simp only [appearances, List.foldl_append, List.foldl_cons, List.foldl_nil, hview, viewOf]

/-- An element that has come into the view since a moment was added after it, unless the view was
replaced. -/
theorem add_mem_of_appears {a : α} {before after : List (Notice α)}
    (hreset : ∀ members, .reset members ∉ after) (hbefore : a ∉ viewOf before)
    (hafter : a ∈ viewOf (before ++ after)) : .add a ∈ after := by
  induction after using List.reverseRecOn with
  | nil => simp [hbefore] at hafter
  | append_singleton after notice ih =>
    by_contra hnot
    simp only [List.mem_append, List.mem_singleton, not_or] at hnot hreset
    refine hnot.1 (ih (fun members => (hreset members).1) ?_)
    rw [← List.append_assoc, viewOf_concat] at hafter
    cases notice with
    | reset members => exact absurd rfl (hreset members).2
    | add b =>
      have hne : a ≠ b := fun h => hnot.2 (by rw [h])
      simpa [Notice.apply, hne] using hafter
    | remove b => simpa [Notice.apply] using (List.mem_filter.mp hafter).1
    | ignore => exact hafter

theorem remove_mem_of_disappears {a : α} {before after : List (Notice α)}
    (hreset : ∀ members, .reset members ∉ after) (hbefore : a ∈ viewOf before)
    (hafter : a ∉ viewOf (before ++ after)) : .remove a ∈ after := by
  induction after using List.reverseRecOn with
  | nil => simp [hbefore] at hafter
  | append_singleton after notice ih =>
    by_contra hnot
    simp only [List.mem_append, List.mem_singleton, not_or] at hnot hreset
    refine hnot.1 (ih (fun members => (hreset members).1) fun hmem => hafter ?_)
    rw [← List.append_assoc, viewOf_concat]
    cases notice with
    | reset members => exact absurd rfl (hreset members).2
    | add b => simp [Notice.apply, hmem]
    | remove b =>
      have hne : a ≠ b := fun h => hnot.2 (by rw [h])
      simpa [Notice.apply, hne] using hmem
    | ignore => exact hmem

end ManInTheBox.Library
