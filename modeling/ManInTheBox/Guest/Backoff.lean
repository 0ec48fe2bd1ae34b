import ManInTheBox.Library.Duration

/-! # Waiting longer and longer

The helper for retry loops keeps one interval and multiplies it on every call. It clamps
the interval three times, and none of the clamps loses anything below the maximum.
-/

namespace ManInTheBox.Guest

open Library

structure ExponentialBackoff where
  initialInterval : Duration
  currentInterval : Duration
  maxInterval : Duration
  multiplier : UInt32

namespace ExponentialBackoff

def new (initialInterval maxInterval : Duration) : ExponentialBackoff where
  initialInterval := initialInterval
  currentInterval := initialInterval
  maxInterval := maxInterval
  multiplier := 2

def withMultiplier (backoff : ExponentialBackoff) (multiplier : UInt32) : ExponentialBackoff :=
  { backoff with multiplier := max multiplier 1 }

def nextBackoff (state : ExponentialBackoff) : Duration × ExponentialBackoff :=
  let backoff := state.currentInterval.min state.maxInterval
  let factor := (max state.multiplier 1).toUInt64
  let product := (backoff.checkedMul factor.toUInt32).getD state.maxInterval
  (backoff, { state with currentInterval := product.min state.maxInterval })

def reset (state : ExponentialBackoff) : ExponentialBackoff :=
  { state with currentInterval := state.initialInterval }

/-! ## Calls -/

inductive Call
  | nextBackoff
  | reset

def perform (state : ExponentialBackoff) : Call → ExponentialBackoff
  | .nextBackoff => state.nextBackoff.2
  | .reset => state.reset

/-- A construction, with the multipliers that are set before the first call. -/
def build (initial maximum : Duration) (multipliers : List UInt32) : ExponentialBackoff :=
  multipliers.foldl withMultiplier (new initial maximum)

/-- What the next call of `next_backoff` returns. -/
def backoffAfter (initial maximum : Duration) (multipliers : List UInt32) (calls : List Call) :
    Duration :=
  (calls.foldl perform (build initial maximum multipliers)).nextBackoff.1

/-- The last multiplier counts, and at least 1; without one it is 2. -/
def factor (multipliers : List UInt32) : ℕ :=
  match multipliers.getLast? with
  | none => 2
  | some multiplier => max multiplier.toNat 1

/-- The number of intervals that were returned since the start or the last reset. -/
def sinceReset (calls : List Call) : ℕ :=
  calls.foldl (fun k call => match call with | .nextBackoff => k + 1 | .reset => 0) 0

/-! ## The interval in unbounded arithmetic -/

/-- The state in front of call number `k`: below the maximum, the interval is exact. -/
structure Stands (initial maximum : Duration) (m k : ℕ) (state : ExponentialBackoff) : Prop where
  initialInterval_eq : state.initialInterval = initial
  maxInterval_eq : state.maxInterval = maximum
  factor_eq : (max state.multiplier 1).toNat = m
  exact_below : min state.currentInterval.toNanos maximum.toNanos =
    min (initial.toNanos * m ^ k) maximum.toNanos

@[simp] theorem toNat_max_one (multiplier : UInt32) :
    (max multiplier 1).toNat = max multiplier.toNat 1 := by
  change (if multiplier ≤ 1 then 1 else multiplier).toNat = max multiplier.toNat 1
  have hle : multiplier ≤ 1 ↔ multiplier.toNat ≤ 1 := UInt32.le_iff_toNat_le
  split_ifs with h
  · exact (Nat.max_eq_right (hle.mp h)).symm
  · exact (Nat.max_eq_left (not_le.mp (mt hle.mpr h)).le).symm

/-- A clamp in front of a multiplication is not seen behind a clamp after it. -/
theorem min_mul_min (a limit : ℕ) {m : ℕ} (hm : 0 < m) :
    min (min a limit * m) limit = min (a * m) limit := by
  have hle : limit ≤ limit * m := Nat.le_mul_of_pos_right limit hm
  rw [← Nat.mul_min_mul_right, Nat.min_assoc, Nat.min_eq_right hle]

variable {initial maximum : Duration} {m k : ℕ} {state : ExponentialBackoff}

theorem Stands.factor_pos (h : Stands initial maximum m k state) : 0 < m := by
  rw [← h.factor_eq, toNat_max_one]
  exact Nat.lt_of_lt_of_le Nat.zero_lt_one (Nat.le_max_right _ _)

theorem Stands.toNanos_nextBackoff (h : Stands initial maximum m k state) :
    state.nextBackoff.1.toNanos = min (initial.toNanos * m ^ k) maximum.toNanos := by
  rw [nextBackoff, Duration.toNanos_min, h.maxInterval_eq]
  exact h.exact_below

theorem Stands.nextBackoff (h : Stands initial maximum m k state) :
    Stands initial maximum m (k + 1) state.nextBackoff.2 := by
  constructor
  · exact h.initialInterval_eq
  · exact h.maxInterval_eq
  · exact h.factor_eq
  · have hproduct := Duration.toNanos_saturatingMul
      (state.currentInterval.min state.maxInterval) state.maxInterval (max state.multiplier 1)
    simp only [Duration.toNanos_min, h.factor_eq, h.maxInterval_eq, h.exact_below] at hproduct
    rw [min_mul_min _ _ h.factor_pos, Nat.mul_assoc, ← Nat.pow_succ] at hproduct
    simp only [ExponentialBackoff.nextBackoff, UInt32.toUInt32_toUInt64, h.maxInterval_eq,
      Duration.toNanos_min, hproduct, Nat.min_assoc, Nat.min_self]

theorem Stands.reset (h : Stands initial maximum m k state) :
    Stands initial maximum m 0 state.reset := by
  constructor
  · exact h.initialInterval_eq
  · exact h.maxInterval_eq
  · exact h.factor_eq
  · rw [ExponentialBackoff.reset, h.initialInterval_eq, Nat.pow_zero, Nat.mul_one]

theorem stands_build (initial maximum : Duration) (multipliers : List UInt32) :
    Stands initial maximum (factor multipliers) 0 (build initial maximum multipliers) := by
  induction multipliers using List.reverseRecOn with
  | nil => exact ⟨rfl, rfl, rfl, by simp [build, new]⟩
  | append_singleton multipliers multiplier ih =>
    have hbuild : build initial maximum (multipliers ++ [multiplier]) =
        (build initial maximum multipliers).withMultiplier multiplier := by
      rw [build, List.foldl_append]
      rfl
    rw [hbuild, factor, List.getLast?_concat]
    constructor
    · exact ih.initialInterval_eq
    · exact ih.maxInterval_eq
    · simp [withMultiplier]
    · exact ih.exact_below

theorem sinceReset_concat (calls : List Call) (call : Call) :
    sinceReset (calls ++ [call]) =
      match call with
      | .nextBackoff => sinceReset calls + 1
      | .reset => 0 := by
  rw [sinceReset, List.foldl_append]
  rfl

theorem stands_calls (initial maximum : Duration) (multipliers : List UInt32)
    (calls : List Call) :
    Stands initial maximum (factor multipliers) (sinceReset calls)
      (calls.foldl perform (build initial maximum multipliers)) := by
  induction calls using List.reverseRecOn with
  | nil => exact stands_build initial maximum multipliers
  | append_singleton calls call ih =>
    rw [List.foldl_append, sinceReset_concat]
    cases call with
    | nextBackoff => exact ih.nextBackoff
    | reset => exact ih.reset

theorem toNanos_backoffAfter (initial maximum : Duration) (multipliers : List UInt32)
    (calls : List Call) :
    (backoffAfter initial maximum multipliers calls).toNanos =
      min (initial.toNanos * factor multipliers ^ sinceReset calls) maximum.toNanos :=
  (stands_calls initial maximum multipliers calls).toNanos_nextBackoff

theorem factor_pos (multipliers : List UInt32) : 0 < factor multipliers :=
  (stands_build ⟨0, 0, by decide, by decide⟩ ⟨0, 0, by decide, by decide⟩ multipliers).factor_pos

/-- After any calls, the next interval is the initial one multiplied as often as intervals were
returned since the last reset, up to the maximum; so it never decreases between resets, and
counts anew after each of them. -/
theorem backoffAfter_closed_form (initial maximum : Duration) (multipliers : List UInt32)
    (calls : List Call) :
    let backoff := backoffAfter initial maximum multipliers
    (backoff calls).toNanos =
        min (initial.toNanos * factor multipliers ^ sinceReset calls) maximum.toNanos ∧
      (backoff calls).toNanos ≤ (backoff (calls ++ [.nextBackoff])).toNanos ∧
      (backoff calls).toNanos ≤ maximum.toNanos ∧
      ∀ calls', sinceReset calls' = sinceReset calls → backoff calls' = backoff calls := by
  intro backoff
  have hform := toNanos_backoffAfter initial maximum multipliers
  refine ⟨hform calls, ?_, ?_, ?_⟩
  · rw [hform, hform, sinceReset_concat]
    apply min_le_min_right
    exact Nat.mul_le_mul_left _ (Nat.pow_le_pow_right (factor_pos multipliers) (Nat.le_succ _))
  · rw [hform]
    exact Nat.min_le_right _ _
  · intro calls' hsince
    apply Duration.toNanos_injective
    rw [hform, hform, hsince]

end ExponentialBackoff

end ManInTheBox.Guest
