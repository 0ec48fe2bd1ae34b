import ManInTheBox.Library.Run
import Mathlib.Tactic.Common

/-! # Internal steps that come to an end

Some steps of a machine are its own, the others are those of its environment. When every
step of its own lowers a weight, the machine makes so many steps of its own at most, and is
then stuck until the environment makes one.
-/

namespace ManInTheBox.Library

variable {σ α ω : Type*} {step : σ → α → Option (σ × ω)} {internal : α → Prop} {weight : σ → ℕ}

/-- No step of this kind is enabled. -/
def Stuck (step : σ → α → Option (σ × ω)) (internal : α → Prop) (s : σ) : Prop :=
  ∀ label, internal label → step s label = none

/-- Every step of this kind lowers the weight. -/
def Lowers (step : σ → α → Option (σ × ω)) (internal : α → Prop) (weight : σ → ℕ) : Prop :=
  ∀ s label t output, internal label → step s label = some (t, output) → weight t < weight s

theorem Lowers.length_le (h : Lowers step internal weight) {s t : σ}
    {history : List (Transition σ α ω)} (run : Run step s history t)
    (hinternal : ∀ u ∈ history, internal u.label) : history.length + weight t ≤ weight s := by
  induction run with
  | start => simp
  | step past taken ih =>
    have hpast := ih fun u hu => hinternal u (List.mem_append_left _ hu)
    have hlower := h _ _ _ _ (hinternal _ List.mem_concat_self) taken
    rw [List.length_append, List.length_singleton]
    omega

end ManInTheBox.Library
