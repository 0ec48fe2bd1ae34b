import Mathlib.Tactic

/-! # Run-length grouping

A list of keyed entries is written as runs: neighbours of one key together. If no run is
empty and neighbouring runs differ in their keys, the runs are determined by the list,
and no other way to write it has fewer of them.
-/

namespace ManInTheBox.Library

variable {α κ : Type*}

/-- The entries of some runs, each with its key. -/
def expand (runs : List (List α × κ)) : List (α × κ) :=
  runs.flatMap fun run => run.1.map fun a => (a, run.2)

/-- No run is empty, and no two neighbours can be joined. -/
structure Reduced (runs : List (List α × κ)) : Prop where
  ne_nil : ∀ run ∈ runs, run.1 ≠ []
  chain : runs.IsChain fun run next => run.2 ≠ next.2

@[simp] theorem expand_nil : expand ([] : List (List α × κ)) = [] := rfl

@[simp] theorem expand_cons (run : List α × κ) (runs : List (List α × κ)) :
    expand (run :: runs) = (run.1.map fun a => (a, run.2)) ++ expand runs := rfl

@[simp] theorem expand_append (runs runs' : List (List α × κ)) :
    expand (runs ++ runs') = expand runs ++ expand runs' :=
  List.flatMap_append

section Compress

variable [DecidableEq κ]

/-- Put an entry before some runs. -/
def pushRun (entry : α × κ) : List (List α × κ) → List (List α × κ)
  | [] => [([entry.1], entry.2)]
  | run :: runs =>
    if entry.2 = run.2 then (entry.1 :: run.1, run.2) :: runs
    else ([entry.1], entry.2) :: run :: runs

def compress (entries : List (α × κ)) : List (List α × κ) := entries.foldr pushRun []

/-- The entries of one run, put before runs with another key. -/
theorem foldr_pushRun (first : α) (as : List α) (key : κ) {runs : List (List α × κ)}
    (h : ∀ run ∈ runs.head?, key ≠ run.2) :
    ((first :: as).map fun a => (a, key)).foldr pushRun runs = (first :: as, key) :: runs := by
  induction as generalizing first with
  | nil =>
    cases runs with
    | nil => rfl
    | cons run runs =>
      have hne : key ≠ run.2 := h run rfl
      simp [pushRun, hne]
  | cons second as ih => rw [List.map_cons, List.foldr_cons, ih second, pushRun, if_pos rfl]

/-- Reduced runs are what their entries are compressed to. -/
theorem Reduced.compress_expand {runs : List (List α × κ)} (h : Reduced runs) :
    compress (expand runs) = runs := by
  induction runs with
  | nil => rfl
  | cons run runs ih =>
    have hrest : Reduced runs :=
      ⟨fun other hother => h.ne_nil other (List.mem_cons_of_mem _ hother), h.chain.tail⟩
    obtain ⟨as, key⟩ := run
    obtain ⟨first, as, rfl⟩ := List.exists_cons_of_ne_nil (h.ne_nil _ (List.mem_cons_self ..))
    have hhead : ∀ next ∈ runs.head?, key ≠ next.2 := by
      cases runs with
      | nil => simp
      | cons next runs =>
        have hchain := (List.isChain_cons_cons.mp h.chain).1
        simpa using hchain
    have hruns : (expand runs).foldr pushRun [] = runs := ih hrest
    rw [compress, expand_cons, List.foldr_append, hruns, foldr_pushRun first as key hhead]

/-- Entries with the key of the first run become a part of it. -/
theorem foldr_pushRun_same (as : List α) (run : List α × κ) (runs : List (List α × κ)) :
    (as.map fun a => (a, run.2)).foldr pushRun (run :: runs) = (as ++ run.1, run.2) :: runs := by
  induction as with
  | nil => rfl
  | cons a as ih => rw [List.map_cons, List.foldr_cons, ih, pushRun, if_pos rfl, List.cons_append]

/-- All entries of one key add one run at most. -/
theorem length_foldr_pushRun_le (as : List α) (key : κ) (runs : List (List α × κ)) :
    ((as.map fun a => (a, key)).foldr pushRun runs).length ≤ runs.length + 1 := by
  cases as with
  | nil => simp
  | cons first as =>
    cases runs with
    | nil =>
      have hruns := @foldr_pushRun α κ _ first as key [] (by simp)
      rw [hruns]
      simp
    | cons run runs =>
      by_cases hkey : key = run.2
      · rw [hkey, foldr_pushRun_same]
        simp
      · have hruns := @foldr_pushRun α κ _ first as key (run :: runs) (by simpa using hkey)
        rw [hruns]
        simp

theorem length_compress_expand_le (runs : List (List α × κ)) :
    (compress (expand runs)).length ≤ runs.length := by
  induction runs with
  | nil => simp [compress]
  | cons run runs ih =>
    have hfirst := length_foldr_pushRun_le run.1 run.2 (compress (expand runs))
    rw [compress, expand_cons, List.foldr_append, ← compress, List.length_cons]
    omega

end Compress

namespace Reduced

variable {runs runs' : List (List α × κ)}

theorem nil : Reduced ([] : List (List α × κ)) := ⟨by simp, by simp⟩

/-- There is one way to write a list as reduced runs. -/
theorem eq_of_expand_eq (h : Reduced runs) (h' : Reduced runs') (heq : expand runs = expand runs') :
    runs = runs' := by
  classical
  rw [← h.compress_expand, heq, h'.compress_expand]

/-- It is the shortest way. -/
theorem length_le (h : Reduced runs) (heq : expand runs = expand runs') :
    runs.length ≤ runs'.length := by
  classical
  have hle := length_compress_expand_le runs'
  rwa [← heq, h.compress_expand] at hle

/-- The last run grows. -/
theorem grow {run : List α × κ} (h : Reduced (runs ++ [run])) (as : List α) :
    Reduced (runs ++ [(run.1 ++ as, run.2)]) where
  ne_nil other hother := by
    rcases List.mem_append.mp hother with hold | hnew
    · exact h.ne_nil other (List.mem_append_left _ hold)
    · have hne := h.ne_nil run (by simp)
      rw [List.mem_singleton.mp hnew]
      simp [hne]
  chain := by
    have hchain := h.chain
    rw [List.isChain_append] at hchain ⊢
    exact ⟨hchain.1, by simp, by simpa using hchain.2.2⟩

/-- A run of another key comes after the last one. -/
theorem concat (h : Reduced runs) {run : List α × κ} (hne : run.1 ≠ [])
    (hlast : ∀ last ∈ runs.getLast?, last.2 ≠ run.2) : Reduced (runs ++ [run]) where
  ne_nil other hother := by
    rcases List.mem_append.mp hother with hold | hnew
    · exact h.ne_nil other hold
    · exact List.mem_singleton.mp hnew ▸ hne
  chain := by
    rw [List.isChain_append]
    exact ⟨h.chain, by simp, by simpa using hlast⟩

end Reduced

end ManInTheBox.Library
