import Mathlib.Control.Monad.Basic
import Mathlib.Tactic.Common

/-! # Commands that may fail

A command changes a state and then returns or fails; what it has changed before it failed
stays. What holds after a command, however it ends, is found by going through its text: a
sequence goes on from where its first part has returned, and has failed where this has.
-/

namespace ManInTheBox.Library

universe u v

variable {σ τ ε : Type u} {α β : Type u}

abbrev Command (σ ε α : Type u) := ExceptT ε (StateM σ) α

namespace Command

/-- How the command ends when it is started in this state. -/
def outcome (m : Command σ ε α) (s : σ) : Except ε α × σ := m.run.run s

/-- Started in `s`, the command ends as `Q` says if it returns, and as `E` says if it fails. -/
def After (m : Command σ ε α) (s : σ) (Q : α → σ → Prop) (E : ε → σ → Prop) : Prop :=
  match m.outcome s with
  | (.ok a, t) => Q a t
  | (.error e, t) => E e t

variable {m : Command σ ε α} {s : σ} {Q Q' : α → σ → Prop} {E E' : ε → σ → Prop}

@[simp] theorem after_pure {a : α} : After (pure a) s Q E ↔ Q a s := Iff.rfl

@[simp] theorem after_throw {e : ε} : After (throw e) s Q E ↔ E e s := Iff.rfl

@[simp] theorem after_get {Q : σ → σ → Prop} : After (get : Command σ ε σ) s Q E ↔ Q s s := Iff.rfl

@[simp] theorem after_set {t : σ} {Q : PUnit → σ → Prop} :
    After (set t : Command σ ε PUnit) s Q E ↔ Q ⟨⟩ t := Iff.rfl

@[simp] theorem after_modify {f : σ → σ} {Q : PUnit → σ → Prop} :
    After (modify f : Command σ ε PUnit) s Q E ↔ Q ⟨⟩ (f s) := Iff.rfl

@[simp] theorem after_liftExcept {result : Except ε α} :
    After (liftExcept result) s Q E ↔
      (∀ a, result = .ok a → Q a s) ∧ ∀ e, result = .error e → E e s := by
  cases result with
  | ok a => simp [liftExcept]
  | error e => simp [liftExcept]

theorem outcome_bind (m : Command σ ε α) (f : α → Command σ ε β) (s : σ) :
    (m >>= f).outcome s =
      match m.outcome s with
      | (.ok a, t) => (f a).outcome t
      | (.error e, t) => (.error e, t) := by
  have hrun : (m >>= f).outcome s =
      (match m.outcome s with
        | (result, t) => (ExceptT.bindCont f result).run t) := rfl
  rw [hrun]
  rcases m.outcome s with ⟨_ | _, t⟩ <;> rfl

theorem after_bind {f : α → Command σ ε β} {R : β → σ → Prop} :
    After (m >>= f) s R E ↔ After m s (fun a t => After (f a) t R E) E := by
  rw [After, outcome_bind, After]
  rcases m.outcome s with ⟨_ | _, t⟩ <;> rfl

theorem After.mono (h : After m s Q E) (hQ : ∀ a t, Q a t → Q' a t) (hE : ∀ e t, E e t → E' e t) :
    After m s Q' E' := by
  unfold After at h ⊢
  split at h
  · exact hQ _ _ h
  · exact hE _ _ h

/-- A command on a part of the state, with its errors taken over. -/
def focus {ε' : Type u} (part : τ → σ) (put : σ → τ → τ) (convert : ε → ε') (m : Command σ ε α) :
    Command τ ε' α := do
  let t ← get
  let (result, s) := m.outcome (part t)
  set (put s t)
  match result with
  | .ok a => return a
  | .error e => throw (convert e)

theorem after_focus {ε' : Type u} {part : τ → σ} {put : σ → τ → τ} {convert : ε → ε'} {t : τ}
    {Q : α → τ → Prop} {E : ε' → τ → Prop} :
    After (focus part put convert m) t Q E ↔
      After m (part t) (fun a s => Q a (put s t)) fun e s => E (convert e) (put s t) := by
  have hrun : (focus part put convert m).outcome t =
      match m.outcome (part t) with
      | (.ok a, s) => (.ok a, put s t)
      | (.error e, s) => (.error (convert e), put s t) := by
    unfold focus
    rw [outcome_bind]
    change (match m.outcome (part t) with
      | (result, s) => Command.outcome _ _) = _
    rcases m.outcome (part t) with ⟨_ | _, s⟩ <;> rfl
  rw [After, hrun, After]
  rcases m.outcome (part t) with ⟨_ | _, s⟩ <;> rfl

theorem After.bind {f : α → Command σ ε β} {R : β → σ → Prop} (h : After m s Q E)
    (hf : ∀ a t, Q a t → After (f a) t R E') (hE : ∀ e t, E e t → E' e t) :
    After (m >>= f) s R E' :=
  after_bind.mpr (h.mono hf hE)

end Command

end ManInTheBox.Library
