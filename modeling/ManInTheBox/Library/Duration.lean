import Mathlib.Tactic

/-! # Durations

A duration is a number of seconds and of nanoseconds below one second. The order and the
multiplication are those of the number of nanoseconds, as far as the seconds have room.
-/

namespace ManInTheBox.Library

def nanosPerSec : ℕ := 1000000000

@[ext] structure Duration where
  secs : ℕ
  nanos : ℕ
  secs_lt : secs < 2 ^ 64
  nanos_lt : nanos < nanosPerSec
  deriving DecidableEq

namespace Duration

def toNanos (d : Duration) : ℕ := d.secs * nanosPerSec + d.nanos

/-- The seconds are compared first. -/
def lt (d e : Duration) : Prop := d.secs < e.secs ∨ d.secs = e.secs ∧ d.nanos < e.nanos

instance (d e : Duration) : Decidable (d.lt e) :=
  inferInstanceAs (Decidable (d.secs < e.secs ∨ d.secs = e.secs ∧ d.nanos < e.nanos))

def min (d e : Duration) : Duration := if e.lt d then e else d

/-- The nanoseconds cannot overflow 64 bits; the seconds are checked twice. -/
def checkedMul (d : Duration) (rhs : UInt32) : Option Duration :=
  let totalNanos := d.nanos * rhs.toNat
  let extraSecs := totalNanos / nanosPerSec
  let nanos := totalNanos % nanosPerSec
  if d.secs * rhs.toNat < 2 ^ 64 then
    if h : d.secs * rhs.toNat + extraSecs < 2 ^ 64 then
      some ⟨d.secs * rhs.toNat + extraSecs, nanos, h, Nat.mod_lt _ (by decide)⟩
    else none
  else none

variable {d e : Duration}

theorem toNanos_lt (d : Duration) : d.toNanos < 2 ^ 64 * nanosPerSec := by
  have hsecs := d.secs_lt
  have hnanos := d.nanos_lt
  rw [toNanos]
  unfold nanosPerSec at *
  omega

theorem toNanos_injective : Function.Injective toNanos := by
  intro d e h
  have hd := d.nanos_lt
  have he := e.nanos_lt
  unfold toNanos nanosPerSec at *
  ext <;> omega

theorem lt_iff : d.lt e ↔ d.toNanos < e.toNanos := by
  have hd := d.nanos_lt
  have he := e.nanos_lt
  unfold lt toNanos nanosPerSec at *
  omega

@[simp] theorem toNanos_min (d e : Duration) : (d.min e).toNanos = Min.min d.toNanos e.toNanos := by
  unfold Duration.min
  split_ifs with h
  · rw [Nat.min_eq_right (lt_iff.mp h).le]
  · rw [Nat.min_eq_left (not_lt.mp (mt lt_iff.mpr h))]

/-- Both checks together say whether the product has room. -/
theorem toNanos_checkedMul (d : Duration) (rhs : UInt32) :
    (d.checkedMul rhs).map toNanos =
      if d.toNanos * rhs.toNat < 2 ^ 64 * nanosPerSec then some (d.toNanos * rhs.toNat)
      else none := by
  have hproduct : d.toNanos * rhs.toNat =
      d.secs * rhs.toNat * nanosPerSec + d.nanos * rhs.toNat := by
    rw [toNanos]
    ring
  rw [hproduct, checkedMul]
  unfold nanosPerSec
  by_cases hroom : d.secs * rhs.toNat + d.nanos * rhs.toNat / 1000000000 < 2 ^ 64
  · rw [if_pos (by omega), dif_pos hroom, if_pos (by omega), Option.map_some]
    simp only [toNanos, nanosPerSec, Option.some.injEq]
    omega
  · rw [dif_neg hroom, ite_self, if_neg (by omega), Option.map_none]

/-- A product that has no room is above every limit. -/
theorem toNanos_saturatingMul (d limit : Duration) (rhs : UInt32) :
    (((d.checkedMul rhs).getD limit).min limit).toNanos =
      Min.min (d.toNanos * rhs.toNat) limit.toNanos := by
  have hproduct := toNanos_checkedMul d rhs
  have hlimit := limit.toNanos_lt
  rw [toNanos_min]
  cases h : d.checkedMul rhs with
  | none =>
    rw [h, Option.map_none] at hproduct
    split_ifs at hproduct with hroom
    rw [Option.getD_none, Nat.min_self, Nat.min_eq_right (by omega)]
  | some product =>
    rw [h, Option.map_some] at hproduct
    split_ifs at hproduct with hroom
    rw [Option.getD_some, Option.some.inj hproduct]

end Duration

end ManInTheBox.Library
