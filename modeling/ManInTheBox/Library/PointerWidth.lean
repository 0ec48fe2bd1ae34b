import Mathlib.Tactic

/-! # Sizes and indices

Sizes and indices are words of 32 or of 64 bits. Arithmetic on them is checked, and a cast
drops what has no room.
-/

namespace ManInTheBox.Library

inductive PointerWidth
  | bits32
  | bits64
  deriving DecidableEq

namespace PointerWidth

/-- The number of words. -/
def size : PointerWidth → ℕ
  | bits32 => 2 ^ 32
  | bits64 => 2 ^ 64

/-- `as usize` -/
def cast (width : PointerWidth) (n : ℕ) : ℕ := n % width.size

/-- `try_from` -/
def tryFrom (width : PointerWidth) (n : ℕ) : Option ℕ := if n < width.size then some n else none

def checkedAdd (width : PointerWidth) (a b : ℕ) : Option ℕ := width.tryFrom (a + b)

def checkedMul (width : PointerWidth) (a b : ℕ) : Option ℕ := width.tryFrom (a * b)

theorem le_size (width : PointerWidth) : 2 ^ 32 ≤ width.size := by
  cases width <;> decide

theorem cast_of_lt {width : PointerWidth} {n : ℕ} (h : n < width.size) : width.cast n = n :=
  Nat.mod_eq_of_lt h

theorem tryFrom_of_lt {width : PointerWidth} {n : ℕ} (h : n < width.size) :
    width.tryFrom n = some n := if_pos h

theorem checkedAdd_of_lt {width : PointerWidth} {a b : ℕ} (h : a + b < width.size) :
    width.checkedAdd a b = some (a + b) := if_pos h

theorem checkedMul_of_lt {width : PointerWidth} {a b : ℕ} (h : a * b < width.size) :
    width.checkedMul a b = some (a * b) := if_pos h

end PointerWidth

end ManInTheBox.Library
