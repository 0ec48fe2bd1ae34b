import Mathlib.Data.Nat.Find
import ManInTheBox.Library.ByteOffset
import ManInTheBox.Guest.Paths

/-! # Texts cut off at a number of bytes

A limit in bytes can fall inside a character. The helper for policies goes back from there
to the next place where the text can be taken apart.
-/

namespace ManInTheBox.Guest

open Library

/-- The loop over `end`, which ends at the start of the text at the latest. -/
def boundaryBefore (text : Text) : ℕ → ℕ
  | 0 => 0
  | n + 1 => if isCharBoundary text (n + 1) then n + 1 else boundaryBefore text n

/-- There is no text where the slice would panic. -/
def truncate (text : Text) (maxLen : ℕ) : Option Text := do
  if byteLength text ≤ maxLen then
    return text
  let kept ← sliceTo (boundaryBefore text maxLen) text
  return kept ++ ['.', '.', '.']

/-- A prefix of whole characters within a number of bytes, such that none is longer. -/
structure LongestWithin (maxLen : ℕ) (text kept : Text) : Prop where
  isFront : kept <+: text
  fits : byteLength kept ≤ maxLen
  longest : ∀ front, front <+: text → byteLength front ≤ maxLen → front <+: kept

theorem LongestWithin.whole {maxLen : ℕ} {text : Text} (h : byteLength text ≤ maxLen) :
    LongestWithin maxLen text text where
  isFront := List.prefix_refl text
  fits := h
  longest _ hfront _ := hfront

theorem boundaryBefore_eq (text : Text) (maxLen : ℕ) :
    boundaryBefore text maxLen = Nat.findGreatest (isCharBoundary text ·) maxLen := by
  induction maxLen with
  | zero => rfl
  | succ n ih => rw [boundaryBefore, Nat.findGreatest_succ, ih]

theorem isCharBoundary_boundaryBefore (text : Text) (maxLen : ℕ) :
    isCharBoundary text (boundaryBefore text maxLen) = true := by
  rw [boundaryBefore_eq]
  exact Nat.findGreatest_spec (P := (isCharBoundary text ·)) (Nat.zero_le maxLen) rfl

/-- Of two prefixes with as many bytes at most, the first is a prefix of the second. -/
theorem prefix_of_byteLength_le {text front kept : Text} (hfront : front <+: text)
    (hkept : kept <+: text) (hle : byteLength front ≤ byteLength kept) : front <+: kept := by
  rcases List.prefix_or_prefix_of_prefix hfront hkept with h | ⟨rest, rfl⟩
  · exact h
  · have hrest : rest = [] := by
      by_contra hne
      have := byteLength_pos hne
      rw [byteLength_append] at hle
      omega
    rw [hrest, List.append_nil]

/-- What is left of the text up to where the loop stops. -/
theorem sliceTo_boundaryBefore (text : Text) (maxLen : ℕ) :
    ∃ kept, sliceTo (boundaryBefore text maxLen) text = some kept ∧
      LongestWithin maxLen text kept := by
  obtain ⟨kept, hkept, hlength⟩ := isCharBoundary_iff.mp (isCharBoundary_boundaryBefore text maxLen)
  have hle : boundaryBefore text maxLen ≤ maxLen := by
    rw [boundaryBefore_eq]
    exact Nat.findGreatest_le maxLen
  refine ⟨kept, sliceTo_eq_some_iff.mpr ⟨hkept, hlength⟩, hkept, hlength ▸ hle, ?_⟩
  intro front hfront hfits
  have hboundary : isCharBoundary text (byteLength front) = true :=
    isCharBoundary_iff.mpr ⟨front, hfront, rfl⟩
  have hgreatest : byteLength front ≤ boundaryBefore text maxLen := by
    rw [boundaryBefore_eq]
    exact Nat.le_findGreatest hfits hboundary
  exact prefix_of_byteLength_le hfront hkept (hlength ▸ hgreatest)

/-- The slice stands between two characters, and the whole text or its longest prefix within
the limit is kept. -/
theorem truncate_keeps_longest (text : Text) (maxLen : ℕ) :
    ∃ kept, LongestWithin maxLen text kept ∧
      truncate text maxLen =
        some (if byteLength text ≤ maxLen then text else kept ++ ['.', '.', '.']) := by
  by_cases h : byteLength text ≤ maxLen
  · refine ⟨text, LongestWithin.whole h, ?_⟩
    rw [if_pos h, truncate, if_pos h]
    rfl
  · obtain ⟨kept, hslice, hkept⟩ := sliceTo_boundaryBefore text maxLen
    refine ⟨kept, hkept, ?_⟩
    rw [if_neg h, truncate, if_neg h, hslice]
    rfl

example : truncate "héllo".toList 2 = some "h...".toList := by decide

end ManInTheBox.Guest
