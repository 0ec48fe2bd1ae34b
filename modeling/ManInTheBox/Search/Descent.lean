import ManInTheBox.Search.Built
import ManInTheBox.Search.Statistics

/-! # Selection ends

The depth that a caller allows may be without bound, and a tree that was read back
may hold cycles. Below the root it holds none: a selection goes down a chain of
parents, so it ends by itself after at most as many rounds as there are nodes.
-/

namespace ManInTheBox.Search

open Library

variable {ρ : Type} {t : Mcts ρ}

namespace Mcts

/-- The second key belongs to a child of the node with the first. -/
def ChildKey (t : Mcts ρ) (parentKey key : String) : Prop :=
  ∃ p i, t.keyOf p = some parentKey ∧ t.keyOf i = some key ∧ i ∈ t.childrenOf p

theorem IsPath.head? {path : List String} (h : t.IsPath path) : path.head? = t.keyOf t.root := by
  obtain ⟨last, indices, hchain, hkeys⟩ := h
  have heq := congrArg List.head? hkeys
  rw [List.head?_map, List.head?_map, hchain.head?, Option.map_some] at heq
  cases hhead : path.head? with
  | none =>
    rw [hhead] at heq
    cases heq
  | some key =>
    rw [hhead] at heq
    exact (Option.some.inj heq).symm

theorem IsPath.isChain {path : List String} (h : t.IsPath path) (hlinked : Linked t) :
    path.IsChain t.ChildKey := by
  obtain ⟨last, indices, hchain, hkeys⟩ := h
  have hoptions : (path.map some).IsChain fun parentKey key =>
      ∃ p i, t.keyOf p = parentKey ∧ t.keyOf i = key ∧ i ∈ t.childrenOf p := by
    rw [← hkeys, List.isChain_map]
    apply hchain.isChain.imp
    intro p i hlink
    exact ⟨p, i, rfl, rfl, (hlinked.links i p).mpr hlink⟩
  exact (List.isChain_map some).mp hoptions

/-- A path has no room for more keys than there are nodes. -/
theorem PathTo.length_le {last : ℕ} {path : List String} (h : t.PathTo last path)
    (hlinked : Linked t) : path.length ≤ t.nodes.length := by
  obtain ⟨indices, hchain, hkeys⟩ := h
  have hsubset : indices ⊆ List.range t.nodes.length := by
    intro i hi
    obtain ⟨key, -, hkey⟩ := List.mem_map.mp (hkeys ▸ List.mem_map_of_mem hi)
    exact List.mem_range.mpr (lt_of_keyOf hkey.symm)
  have hle := ((hchain.nodup hlinked.root).subperm hsubset).length_le
  have hlength := congrArg List.length hkeys
  rw [List.length_map, List.length_map] at hlength
  rwa [List.length_range, hlength] at hle

variable [F64 ρ] [FloatMath ρ]

/-- A path through all nodes has reached a node without children. -/
theorem PathTo.expands {cursor : ℕ} {selected : List String} (h : t.PathTo cursor selected)
    (hlinked : Linked t) (hall : t.nodes.length ≤ selected.length) :
    t.shouldExpandHere cursor = .ok true := by
  have hlt := h.lt
  have hcursor := List.getElem?_eq_getElem hlt
  have hnone : t.nodes[cursor].children = [] := by
    rw [List.eq_nil_iff_forall_not_mem]
    intro child hchild
    rw [← childrenOf_of_getElem? hcursor, hlinked.links] at hchild
    have hlt := lt_of_parentOf hchild
    have hle := (h.child hchild (List.getElem?_eq_getElem hlt)).length_le hlinked
    rw [List.length_append, List.length_singleton] at hle
    omega
  simp only [shouldExpandHere, node_eq_ok hcursor, ok_bind, hnone]
  rfl

theorem PathTo.selectFrom_eq {cursor : ℕ} {selected : List String} (h : t.PathTo cursor selected)
    (hlinked : Linked t) (hall : t.nodes.length ≤ selected.length) (n : ℕ) :
    t.selectFrom n cursor selected = .ok selected := by
  cases n with
  | zero => rfl
  | succ n =>
    rcases selectFrom_succ hlinked h with ⟨-, hround⟩ | ⟨hexpand, -⟩
    · exact hround n
    · rw [h.expands hlinked hall] at hexpand
      cases hexpand

/-- With room for all nodes, more room makes no difference. -/
theorem selectFrom_congr (hlinked : Linked t) {remaining remaining' cursor : ℕ}
    {selected : List String} (hselected : t.PathTo cursor selected)
    (hroom : t.nodes.length ≤ selected.length + remaining)
    (hroom' : t.nodes.length ≤ selected.length + remaining') :
    t.selectFrom remaining cursor selected = t.selectFrom remaining' cursor selected := by
  induction remaining generalizing remaining' cursor selected with
  | zero => rw [hselected.selectFrom_eq hlinked hroom, hselected.selectFrom_eq hlinked hroom]
  | succ remaining ih =>
    cases remaining' with
    | zero => rw [hselected.selectFrom_eq hlinked hroom', hselected.selectFrom_eq hlinked hroom']
    | succ remaining' =>
      rcases selectFrom_succ hlinked hselected with
        ⟨-, hround⟩ | ⟨-, ⟨-, message, hround⟩ | ⟨nextChild, key, -, hnext, hround⟩⟩
      · rw [hround, hround]
      · rw [hround, hround]
      · rw [hround, hround]
        apply ih hnext
        · rw [List.length_append, List.length_singleton]
          omega
        · rw [List.length_append, List.length_singleton]
          omega

theorem selectPath_congr (hlinked : Linked t) {maxDepth : ℕ} (h : t.nodes.length ≤ maxDepth) :
    t.selectPath maxDepth = t.selectPath t.nodes.length := by
  have hlt := hlinked.root_lt
  have hroot := List.getElem?_eq_getElem hlt
  rw [selectPath, selectPath, if_neg (by omega), if_neg (by omega), node_eq_ok hroot, ok_bind,
    ok_bind]
  apply selectFrom_congr hlinked (pathTo_root hroot)
  · rw [List.length_singleton]
    omega
  · rw [List.length_singleton]
    omega

/-- A path of the tree, from the root down, that goes on below every node that is not expandable and
stops at the first that is, unless the depth is used up. -/
structure ValidSelection (t : Mcts ρ) (maxDepth : ℕ) (path : List String) : Prop where
  root : path.head? = t.keyOf t.root
  children : path.IsChain t.ChildKey
  nodup : path.Nodup
  length_le : path.length ≤ min maxDepth t.nodes.length
  passed : ∀ key ∈ path.dropLast, t.Expands key false
  stopped : path.length = maxDepth ∨ ∃ key, path.getLast? = some key ∧ t.Expands key true

theorem Selected.valid {maxDepth : ℕ} {path : List String} (h : t.Selected maxDepth path)
    (hlinked : Linked t) : t.ValidSelection maxDepth path where
  root := h.isPath.head?
  children := h.isPath.isChain hlinked
  nodup := h.isPath.nodup hlinked
  length_le := by
    obtain ⟨last, hlast⟩ := h.isPath
    exact le_min h.length_le (hlast.length_le hlinked)
  passed := h.passed
  stopped := h.stopped

end Mcts

/-- In every tree there can be and for every depth, a selection ends and does not panic: beyond the
number of nodes the depth makes no difference, and what is selected is valid. -/
theorem selection_ends [F64 ρ] [FloatMath ρ] (h : Built t) (maxDepth : ℕ) :
    t.selectPath maxDepth ≠ .error .panic ∧
    (t.nodes.length ≤ maxDepth → t.selectPath maxDepth = t.selectPath t.nodes.length) ∧
    ∀ path, t.selectPath maxDepth = .ok path → t.ValidSelection maxDepth path := by
  refine ⟨?_, fun hdepth => Mcts.selectPath_congr h.linked hdepth, ?_⟩
  · rcases Mcts.selectPath_spec h.linked maxDepth with ⟨message, herror⟩ | ⟨path, hok, -⟩
    · rw [herror]
      simp
    · rw [hok]
      simp
  · intro path hpath
    rcases Mcts.selectPath_spec h.linked maxDepth with ⟨message, herror⟩ | ⟨path', hok, hselected⟩
    · rw [hpath] at herror
      cases herror
    · obtain rfl := Except.ok.inj (hpath.symm.trans hok)
      exact hselected.valid h.linked

/-- A root with one child, and two nodes beside them that are each other's parent. -/
def besideCycle : PersistedMcts ExactF64 where
  config := ⟨1, 1, 1⟩
  root := 0
  nodes := [⟨"root", none, [1], 1, 1, some 1⟩, ⟨"a", some 0, [], 1, 1, some 1⟩,
    ⟨"b", some 3, [3], 0, 0, none⟩, ⟨"c", some 2, [2], 0, 0, none⟩]

theorem selection_ends_beside_cycle :
    ∃ t, fromPersisted besideCycle none = .ok t ∧ t.selectPath (2 ^ 64 - 1) = .ok ["root", "a"] ∧
      t.ValidSelection (2 ^ 64 - 1) ["root", "a"] := by
  obtain ⟨t, ht⟩ : ∃ t, fromPersisted besideCycle none = .ok t := ⟨_, rfl⟩
  have hends := selection_ends (.loaded ht t.config) (2 ^ 64 - 1)
  have hselected : t.selectPath (2 ^ 64 - 1) = .ok ["root", "a"] := by
    have hlength : t.nodes.length = 4 := by
      rw [(fromPersisted_cases ht).2.1]
      rfl
    rw [hends.2.1 (by rw [hlength]; norm_num), hlength]
    have hcomputed : (match fromPersisted besideCycle none with
        | .ok t => t.selectPath 4
        | .error _ => .ok []) = .ok ["root", "a"] := by decide +kernel
    rwa [ht] at hcomputed
  exact ⟨t, ht, hselected, hends.2.2 _ hselected⟩

end ManInTheBox.Search
