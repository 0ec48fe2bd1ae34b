import Mathlib.Data.List.FinRange
import ManInTheBox.Library.PointerWidth

/-! # The shuffle

A generator of 64 bits picks the indices. The items are moved by their positions only, so
that a shuffle is a permutation of positions that the seed and the length determine.
-/

namespace ManInTheBox.Guest

open Library

universe u

/-- The next state of the generator, with wrapping arithmetic. -/
def nextState (state : UInt64) : UInt64 := state * 6364136223846793005 + 1442695040888963407

/-- `((state >> 33) as usize) % (i + 1)` -/
def pickIndex (width : PointerWidth) (state : UInt64) (i : ℕ) : ℕ :=
  width.cast (state >>> 33).toNat % (i + 1)

/-- `items.swap(i, j)`, which panics behind the end. -/
def swapAt {α : Type u} (items : List α) (i j : ℕ) : Option (List α) := do
  let x ← items[i]?
  let y ← items[j]?
  return (items.set i y).set j x

/-- The loop, from an index down to 1. -/
def shuffleFrom {α : Type u} (width : PointerWidth) : ℕ → UInt64 → List α → Option (List α)
  | 0, _, items => some items
  | i + 1, state, items => do
    let state := nextState state
    let j := pickIndex width state (i + 1)
    let items ← swapAt items (i + 1) j
    shuffleFrom width i state items

def pseudoShuffle {α : Type u} (width : PointerWidth) (items : List α) (seed : UInt64) :
    Option (List α) :=
  if items.length ≤ 1 then some items
  else shuffleFrom width (items.length - 1) seed items

/-! ## Positions -/

/-- The index does not depend on the width of the words: it comes from 31 bits. -/
theorem pickIndex_eq (width : PointerWidth) (state : UInt64) (i : ℕ) :
    pickIndex width state i = (state >>> 33).toNat % (i + 1) := by
  have hbits : (state >>> 33).toNat < 2 ^ 32 := by
    have hstate := state.toNat_lt
    rw [UInt64.toNat_shiftRight, Nat.shiftRight_eq_div_pow]
    simp only [UInt64.reduceToNat, Nat.reduceMod]
    omega
  rw [pickIndex, PointerWidth.cast_of_lt (Nat.lt_of_lt_of_le hbits width.le_size)]

/-- The positions that the loop moves the items of a list to, each swap after the earlier ones. -/
def positionsFrom (n : ℕ) : (i : ℕ) → i < n → UInt64 → Equiv.Perm (Fin n)
  | 0, _, _ => 1
  | i + 1, h, state =>
    let state := nextState state
    let j : Fin n := ⟨(state >>> 33).toNat % (i + 2),
      Nat.lt_of_lt_of_le (Nat.mod_lt _ (Nat.succ_pos _)) h⟩
    Equiv.swap ⟨i + 1, h⟩ j * positionsFrom n i (Nat.lt_of_succ_lt h) state

/-- Where the item at each position of a shuffled list of `n` items comes from. -/
def shuffledPositions (seed : UInt64) (n : ℕ) : Equiv.Perm (Fin n) :=
  if h : n ≤ 1 then 1
  else positionsFrom n (n - 1) (Nat.sub_lt (by omega) Nat.one_pos) seed

variable {α : Type u} {n : ℕ}

theorem swapAt_ofFn (items : Fin n → α) (i j : Fin n) :
    swapAt (List.ofFn items) i j = some (List.ofFn (items ∘ Equiv.swap i j)) := by
  have hi : (List.ofFn items)[(i : ℕ)]? = some (items i) := by simp
  have hj : (List.ofFn items)[(j : ℕ)]? = some (items j) := by simp
  have hset : ((List.ofFn items).set i (items j)).set j (items i) =
      List.ofFn (items ∘ Equiv.swap i j) := by
    apply List.ext_getElem
    · simp
    · intro k hk _
      have hk : k < n := by simpa using hk
      rw [List.getElem_set, List.getElem_set, List.getElem_ofFn, List.getElem_ofFn,
        Function.comp_apply]
      by_cases hkj : (j : ℕ) = k
      · obtain rfl : j = ⟨k, hk⟩ := Fin.ext hkj
        rw [if_pos rfl, Equiv.swap_apply_right]
      · rw [if_neg hkj]
        by_cases hki : (i : ℕ) = k
        · obtain rfl : i = ⟨k, hk⟩ := Fin.ext hki
          rw [if_pos rfl, Equiv.swap_apply_left]
        · rw [if_neg hki, Equiv.swap_apply_of_ne_of_ne]
          · exact fun h => hki (congrArg Fin.val h).symm
          · exact fun h => hkj (congrArg Fin.val h).symm
  rw [swapAt, hi, hj, ← hset]
  rfl

theorem shuffleFrom_ofFn (width : PointerWidth) (items : Fin n → α) (i : ℕ) (h : i < n)
    (state : UInt64) :
    shuffleFrom width i state (List.ofFn items) =
      some (List.ofFn (items ∘ positionsFrom n i h state)) := by
  induction i generalizing items state with
  | zero => rfl
  | succ i ih =>
    have hj : (nextState state >>> 33).toNat % (i + 2) < n :=
      Nat.lt_of_lt_of_le (Nat.mod_lt _ (Nat.succ_pos _)) h
    have hswap := swapAt_ofFn items ⟨i + 1, h⟩ ⟨(nextState state >>> 33).toNat % (i + 2), hj⟩
    have hrest := ih (items ∘ Equiv.swap ⟨i + 1, h⟩ ⟨(nextState state >>> 33).toNat % (i + 2), hj⟩)
      (Nat.lt_of_succ_lt h) (nextState state)
    rw [shuffleFrom, positionsFrom, pickIndex_eq]
    simp only [hswap, hrest, Option.bind_eq_bind, Option.bind_some]
    rfl

theorem pseudoShuffle_ofFn (width : PointerWidth) (items : Fin n → α) (seed : UInt64) :
    pseudoShuffle width (List.ofFn items) seed =
      some (List.ofFn (items ∘ shuffledPositions seed n)) := by
  rw [pseudoShuffle, shuffledPositions, List.length_ofFn]
  by_cases h : n ≤ 1
  · rw [if_pos h, dif_pos h]
    rfl
  · rw [if_neg h, dif_neg h]
    exact shuffleFrom_ofFn width items (n - 1) _ seed

/-- The swaps are in range, and the items are moved by a permutation that depends on the seed
and their number; so none is lost, and the shuffle does not see what the items are. -/
theorem pseudoShuffle_permutes (seed : UInt64) (items : List α) :
    ∃ shuffled, (∀ width, pseudoShuffle width items seed = some shuffled) ∧
      shuffled = List.ofFn (items.get ∘ shuffledPositions seed items.length) ∧
      shuffled.Perm items ∧
      ∀ (β : Type u) (f : α → β) (width : PointerWidth),
        pseudoShuffle width (items.map f) seed = some (shuffled.map f) := by
  refine ⟨_, ?_, rfl, ?_, ?_⟩
  · intro width
    have h := pseudoShuffle_ofFn width items.get seed
    rwa [List.ofFn_get] at h
  · have h := (shuffledPositions seed items.length).ofFn_comp_perm items.get
    rwa [List.ofFn_get] at h
  · intro β f width
    have h := pseudoShuffle_ofFn width (f ∘ items.get) seed
    rw [← List.map_ofFn, List.ofFn_get] at h
    rw [h, List.map_ofFn]
    rfl

end ManInTheBox.Guest
