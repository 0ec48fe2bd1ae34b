import Mathlib.Data.List.Basic
import Mathlib.Order.Basic
import Mathlib.Data.List.TakeWhile
import Mathlib.Data.List.Induction

/-! # Sliding windows over a queue of time stamps

A queue keeps the oldest stamp in front, and expired stamps are dropped from the
front only. Dropping at several moments, in any order with other operations,
leaves the same live stamps as dropping once; on an ordered queue these are
exactly the stamps that have not expired.
-/

namespace ManInTheBox.Library

variable {τ : Type*} [Preorder τ]

/-- When a stamp counts as expired: once expired it stays so, and with a stamp every earlier
one is expired. -/
structure Window (τ : Type*) [Preorder τ] where
  expired : (now stamp : τ) → Bool
  expired_mono : ∀ {now now' stamp}, now ≤ now' → expired now stamp → expired now' stamp
  expired_anti : ∀ {now stamp stamp'}, stamp ≤ stamp' → expired now stamp' → expired now stamp

namespace Window

variable (w : Window τ)

/-- The queue after its expired front has been dropped. -/
def live (now : τ) (events : List τ) : List τ := events.dropWhile (w.expired now)

theorem live_live {now now' : τ} (h : now ≤ now') (events : List τ) :
    w.live now' (w.live now events) = w.live now' events := by
  induction events with
  | nil => rfl
  | cons stamp events ih =>
    by_cases hnow : w.expired now stamp = true
    · have hnow' := w.expired_mono h hnow
      simpa only [live, List.dropWhile_cons_of_pos hnow, List.dropWhile_cons_of_pos hnow'] using ih
    · simp only [live, List.dropWhile_cons_of_neg hnow]

theorem live_append (now : τ) (events later : List τ) :
    w.live now (events ++ later) =
      if (w.live now events).isEmpty then w.live now later else w.live now events ++ later :=
  List.dropWhile_append

/-- On an ordered queue dropping from the front is filtering. -/
theorem live_eq_filter {events : List τ} (ordered : events.Pairwise (· ≤ ·)) (now : τ) :
    w.live now events = events.filter fun stamp => !w.expired now stamp := by
  induction events with
  | nil => rfl
  | cons stamp events ih =>
    have hrest := List.pairwise_cons.mp ordered
    by_cases hstamp : w.expired now stamp = true
    · simpa [live, hstamp] using ih hrest.2
    · have hall : ∀ stamp' ∈ stamp :: events, (!w.expired now stamp') = true := by
        intro stamp' hmem
        rcases List.mem_cons.mp hmem with rfl | hmem
        · simpa using hstamp
        · have hle := hrest.1 stamp' hmem
          simpa using fun h => hstamp (w.expired_anti hle h)
      rw [List.filter_eq_self.mpr hall, live, List.dropWhile_cons_of_neg hstamp]

/-- From `clock` on, the queue and the full list of events have the same live stamps. -/
def Agrees (clock : τ) (queue events : List τ) : Prop :=
  ∀ now, clock ≤ now → w.live now queue = w.live now events

variable {w} {clock : τ} {queue events : List τ}

theorem Agrees.refl (w : Window τ) (clock : τ) (events : List τ) : w.Agrees clock events events :=
  fun _ _ => rfl

theorem Agrees.mono {clock' : τ} (h : w.Agrees clock queue events) (hle : clock ≤ clock') :
    w.Agrees clock' queue events :=
  fun now hnow => h now (hle.trans hnow)

theorem Agrees.drop {now : τ} (h : w.Agrees clock queue events) (hle : clock ≤ now) :
    w.Agrees now (w.live now queue) events := by
  intro now' hnow'
  rw [w.live_live hnow', h now' (hle.trans hnow')]

theorem Agrees.push (h : w.Agrees clock queue events) (stamp : τ) :
    w.Agrees clock (queue ++ [stamp]) (events ++ [stamp]) := by
  intro now hnow
  rw [live_append, live_append, h now hnow]

/-- Where the queue agrees with an ordered list of events, its live length counts the events
that have not expired. -/
theorem Agrees.length_live (h : w.Agrees clock queue events) {now : τ} (hle : clock ≤ now)
    (ordered : events.Pairwise (· ≤ ·)) :
    (w.live now queue).length = events.countP fun stamp => !w.expired now stamp := by
  rw [h now hle, w.live_eq_filter ordered, List.countP_eq_length_filter]

/-- Every event of the list came when fewer than `limit` of the earlier ones were live. -/
def Limited (w : Window τ) (limit : ℕ) (events : List τ) : Prop :=
  ∀ before stamp after, events = before ++ stamp :: after →
    (before.countP fun stamp' => !w.expired stamp stamp') < limit

theorem Limited.nil (w : Window τ) (limit : ℕ) : w.Limited limit [] := by
  intro before stamp after h
  simp at h

theorem Limited.concat {limit : ℕ} (h : w.Limited limit events) {stamp : τ}
    (hstamp : (events.countP fun stamp' => !w.expired stamp stamp') < limit) :
    w.Limited limit (events ++ [stamp]) := by
  intro before stamp' after heq
  rcases List.eq_nil_or_concat after with rfl | ⟨after', last, rfl⟩
  · obtain ⟨rfl, hlast⟩ := List.append_inj' heq rfl
    obtain rfl := List.singleton_inj.mp hlast
    exact hstamp
  · rw [List.concat_eq_append, ← List.cons_append, ← List.append_assoc] at heq
    exact h before stamp' after' (List.append_inj' heq rfl).1

/-- A stretch of time in which nothing expires holds at most `limit` events. -/
theorem Limited.countP_le {limit : ℕ} (h : w.Limited limit events) (stretch : τ → Bool)
    (hstretch : ∀ now stamp, stretch now → stretch stamp → w.expired now stamp = false) :
    events.countP stretch ≤ limit := by
  induction events using List.reverseRecOn with
  | nil => exact Nat.zero_le _
  | append_singleton events stamp ih =>
    have hevents : w.Limited limit events := by
      intro before stamp' after heq
      exact h before stamp' (after ++ [stamp]) (by rw [heq]; simp)
    rw [List.countP_append, List.countP_singleton]
    split_ifs with hlast
    · have hsub : events.countP stretch ≤
          events.countP fun stamp' => !w.expired stamp stamp' := by
        apply List.countP_mono_left
        intro stamp' _ hin
        simp [hstretch stamp stamp' hlast hin]
      have hlt := h events stamp [] rfl
      omega
    · simpa using ih hevents

end Window
end ManInTheBox.Library
