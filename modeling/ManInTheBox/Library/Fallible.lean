import Mathlib.Data.List.Basic
import Mathlib.Tactic.Common

/-! # Computations that may fail

A computation in `Except` that succeeded has been through its steps one by one. A
computation in `Option` that is shown to yield a result with some property neither
fails nor returns anything else; the rules follow the program text, and a loop
needs an invariant that every round yields.
-/

namespace ManInTheBox.Library

universe u v

variable {ε : Type u} {α β : Type v}

@[simp] theorem ok_bind (a : α) (f : α → Except ε β) : (Except.ok a >>= f) = f a := rfl

@[simp] theorem error_bind (e : ε) (f : α → Except ε β) : (Except.error e >>= f) = .error e := rfl

/-- Both parts of a successful sequence have succeeded. -/
theorem bind_eq_ok {x : Except ε α} {f : α → Except ε β} {b : β} :
    (x >>= f) = .ok b ↔ ∃ a, x = .ok a ∧ f a = .ok b := by
  cases x with
  | error e =>
    constructor
    · intro h
      cases h
    · rintro ⟨a, ha, -⟩
      cases ha
  | ok a =>
    constructor
    · intro h
      exact ⟨a, rfl, h⟩
    · rintro ⟨a', ha, h⟩
      obtain rfl := Except.ok.inj ha
      exact h

/-- A loop that never fails, with an invariant that may mention what has been gone through. -/
theorem foldlM_eq_ok {f : β → α → Except ε β} (I : List α → β → Prop) {l : List α} {b : β}
    (hb : I [] b) (hstep : ∀ done, ∀ a ∈ l, ∀ b, I done b → ∃ b', f b a = .ok b' ∧ I (done ++ [a]) b') :
    ∃ b', l.foldlM f b = .ok b' ∧ I l b' := by
  have hrest : ∀ rest done b, (∀ a ∈ rest, a ∈ l) → I done b →
      ∃ b', rest.foldlM f b = .ok b' ∧ I (done ++ rest) b' := by
    intro rest
    induction rest with
    | nil => exact fun done b _ hdone => ⟨b, rfl, by simpa using hdone⟩
    | cons a rest ih =>
      intro done b hmem hdone
      obtain ⟨c, hc, hinvariant⟩ := hstep done a (hmem a (List.mem_cons_self ..)) b hdone
      obtain ⟨b', hb', hlast⟩ := ih (done ++ [a]) c
        (fun a' ha' => hmem a' (List.mem_cons_of_mem _ ha')) hinvariant
      refine ⟨b', ?_, by simpa using hlast⟩
      rw [List.foldlM_cons, bind_eq_ok]
      exact ⟨c, hc, hb'⟩
  simpa using hrest l [] b (fun _ ha => ha) hb

/-- A loop over states that are seen through `g`. -/
theorem foldlM_map {σ : Type v} (g : β → σ) {f : σ → α → Option σ} {f' : β → α → Option β}
    (h : ∀ b a, f (g b) a = (f' b a).map g) (l : List α) (b : β) :
    l.foldlM f (g b) = (l.foldlM f' b).map g := by
  induction l generalizing b with
  | nil => rfl
  | cons a l ih =>
    rw [List.foldlM_cons, List.foldlM_cons, h]
    cases f' b a with
    | none => rfl
    | some c => exact ih c

/-! ## Results with a property -/

/-- The computation returns a result, and the result has the property. -/
def Yields {α : Type v} (x : Option α) (P : α → Prop) : Prop := ∃ a, x = some a ∧ P a

namespace Yields

variable {x : Option α} {P Q : α → Prop}

theorem pure {a : α} (h : P a) : Yields (some a) P := ⟨a, rfl, h⟩

theorem mono (h : Yields x P) (himp : ∀ a, P a → Q a) : Yields x Q := by
  obtain ⟨a, ha, hp⟩ := h
  exact ⟨a, ha, himp a hp⟩

theorem bind {f : α → Option β} {R : β → Prop} (h : Yields x P)
    (hf : ∀ a, P a → Yields (f a) R) : Yields (x >>= f) R := by
  obtain ⟨a, rfl, hp⟩ := h
  exact hf a hp

/-- A loop: every round yields what the next one needs. -/
theorem foldlM {f : β → α → Option β} (I : β → Prop) {l : List α} {b : β} (hb : I b)
    (hstep : ∀ b, ∀ a ∈ l, I b → Yields (f b a) I) : Yields (l.foldlM f b) I := by
  induction l generalizing b with
  | nil => exact .pure hb
  | cons a l ih =>
    rw [List.foldlM_cons]
    apply (hstep b a (List.mem_cons_self ..) hb).bind
    intro c hc
    exact ih hc fun b' a' ha' => hstep b' a' (List.mem_cons_of_mem _ ha')

/-- A loop over the first numbers, with an invariant that may mention the round. -/
theorem foldlM_range {f : α → ℕ → Option α} (I : ℕ → α → Prop) (n : ℕ) {a : α} (ha : I 0 a)
    (hstep : ∀ a, ∀ k < n, I k a → Yields (f a k) (I (k + 1))) :
    Yields ((List.range n).foldlM f a) (I n) := by
  induction n with
  | zero => exact .pure ha
  | succ n ih =>
    rw [List.range_succ, List.foldlM_append]
    apply (ih fun a k hk => hstep a k (by omega)).bind
    intro b hb
    simpa using hstep b n (by omega) hb

end Yields

end ManInTheBox.Library
