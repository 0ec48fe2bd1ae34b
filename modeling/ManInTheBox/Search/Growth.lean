import ManInTheBox.Search.Atomicity

/-! # How a search grows

A `backpropagate_and_select` adds at most one node, under the end of the pending path or, when
nothing is pending, under the root. The pending path is replaced exactly when it succeeds.
-/

namespace ManInTheBox.Search

open Library

variable {ρ : Type}

/-- There is a node with this key. -/
def Mcts.HasKey (t : Mcts ρ) (key : String) : Prop := ∃ i, t.keyOf i = some key

/-- The node with the one key is the parent of the node with the other. -/
def Mcts.Edge (t : Mcts ρ) (parentKey childKey : String) : Prop :=
  ∃ p i, t.keyOf p = some parentKey ∧ t.keyOf i = some childKey ∧ t.parentOf i = some p

/-- Nothing but a node for `key`, under the end of the base path, has been added. -/
structure Grown (s : PendingTreeSearch ρ) (key : String) (t : Mcts ρ) : Prop where
  stays : Extends s.tree t
  keys : ∀ key', t.HasKey key' → s.tree.HasKey key' ∨ key' = key
  edges : ∀ parentKey childKey, t.Edge parentKey childKey →
    s.tree.Edge parentKey childKey ∨ childKey = key ∧ s.basePath.getLast? = some parentKey

variable {s s' : PendingTreeSearch ρ} {t t' : Mcts ρ} {key : String}

theorem Grown.refl (s : PendingTreeSearch ρ) (key : String) : Grown s key s.tree :=
  ⟨⟨rfl, fun _ _ h => h, fun _ _ h => h⟩, fun _ => .inl, fun _ _ => .inl⟩

theorem Grown.congr (h : Grown s key t) (hsame : SameShape t t') : Grown s key t' where
  stays :=
    ⟨hsame.root.trans h.stays.root,
      fun i key' hkey => (hsame.keyOf i).trans (h.stays.keyOf i key' hkey),
      fun p i hlink => (hsame.parentOf i).trans (h.stays.parentOf p i hlink)⟩
  keys := by
    rintro key' ⟨i, hkey⟩
    exact h.keys key' ⟨i, (hsame.keyOf i).symm.trans hkey⟩
  edges := by
    rintro parentKey childKey ⟨p, i, hp, hi, hlink⟩
    exact h.edges parentKey childKey ⟨p, i, (hsame.keyOf p).symm.trans hp,
      (hsame.keyOf i).symm.trans hi, (hsame.parentOf i).symm.trans hlink⟩

variable [F64 ρ]

theorem grown_treeWithKey (hlinked : Linked s.tree) (key : String) :
    Grown s key (s.treeWithKey key) := by
  cases h : s.newParent key with
  | none =>
    rw [PendingTreeSearch.treeWithKey_of_none h]
    exact .refl s key
  | some parent =>
    rw [(PendingTreeSearch.treeWithKey_of_some hlinked h).1]
    rw [PendingTreeSearch.newParent] at h
    split_ifs at h
    obtain ⟨parentKey, hlast, hlookup⟩ := Option.bind_eq_some_iff.mp h
    have hparent := (hlinked.index parentKey parent).mp hlookup
    have hlt := Mcts.lt_of_keyOf hparent
    refine ⟨extends_grow hlt, ?_, ?_⟩
    · rintro key' ⟨i, hkey⟩
      rw [keyOf_grow hlt] at hkey
      split_ifs at hkey
      · exact .inr (Option.some.inj hkey).symm
      · exact .inl ⟨i, hkey⟩
    · rintro parentKey' childKey ⟨p, i, hp, hi, hlink⟩
      rw [keyOf_grow hlt] at hp hi
      rw [parentOf_grow hlt] at hlink
      split_ifs at hi hlink
      · obtain rfl := Option.some.inj hlink
        rw [if_neg hlt.ne, hparent] at hp
        exact .inr ⟨(Option.some.inj hi).symm, (Option.some.inj hp) ▸ hlast⟩
      · have hbefore : p ≠ s.tree.nodes.length := by
          rintro rfl
          -- A node that was there has a parent that was there.
          have hmem := (hlinked.links i s.tree.nodes.length).mpr hlink
          simp [Mcts.childrenOf] at hmem
        rw [if_neg hbefore] at hp
        exact .inl ⟨p, i, hp, hi, hlink⟩

variable [FloatMath ρ]

/-- A call that fails leaves the pending path, and one that succeeds returns the new one. -/
theorem backpropagateAndSelect_grows (hlinked : Linked s.tree) {reward : ρ} {maxDepth : ℕ}
    {result : Except Failure SelectionStep}
    (hcall : s.backpropagateAndSelect key reward maxDepth = (s', result)) :
    Grown s key s'.tree ∧
    ((∃ failure, result = .error failure) ∧ s'.pendingSelectionPath = s.pendingSelectionPath ∨
      ∃ step, result = .ok step ∧ s'.pendingSelectionPath = some step.selectedPath ∧
        step.selectedPath.getLast? = some step.selectedKey) := by
  rw [PendingTreeSearch.backpropagateAndSelect] at hcall
  rcases PendingTreeSearch.backpropagationPath_spec hlinked key with
    ⟨-, message, hfirst⟩ | ⟨-, hfirst⟩
  · simp only [hfirst] at hcall
    obtain ⟨rfl, rfl⟩ := Prod.mk.inj hcall
    exact ⟨.refl s key, .inl ⟨⟨_, rfl⟩, rfl⟩⟩
  · have hgrown := grown_treeWithKey hlinked key
    have hkey := PendingTreeSearch.linked_treeWithKey hlinked key
    simp only [hfirst] at hcall
    rcases hsecond : (s.treeWithKey key).backpropagatePath (s.evaluatedPath key) reward with
      ⟨tree, failure | _⟩
    · simp only [hsecond] at hcall
      obtain ⟨rfl, rfl⟩ := Prod.mk.inj hcall
      exact ⟨hgrown.congr (backpropagatePath_spec hkey hsecond).1, .inl ⟨⟨_, rfl⟩, rfl⟩⟩
    · have hrecorded := hgrown.congr (backpropagatePath_spec hkey hsecond).1
      simp only [hsecond] at hcall
      rw [PendingTreeSearch.select] at hcall
      split at hcall
      · obtain ⟨rfl, rfl⟩ := Prod.mk.inj hcall
        exact ⟨hrecorded, .inl ⟨⟨_, rfl⟩, rfl⟩⟩
      · split at hcall
        · obtain ⟨rfl, rfl⟩ := Prod.mk.inj hcall
          exact ⟨hrecorded, .inl ⟨⟨_, rfl⟩, rfl⟩⟩
        · rename_i selectedKey hlast
          obtain ⟨rfl, rfl⟩ := Prod.mk.inj hcall
          exact ⟨hrecorded, .inr ⟨_, rfl, rfl, hlast⟩⟩

end ManInTheBox.Search
