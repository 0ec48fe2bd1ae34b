import ManInTheBox.Library.Best
import ManInTheBox.Search.Built
import ManInTheBox.Search.Statistics

/-! # The best child

Where scores have a linear order, the loop of `select_best_child_by_ucb` ends with the
child of the greatest score and, among those that share it, of the smallest key.
-/

namespace ManInTheBox.Search

open Library

/-- Scores without NaN and without rounding, in the order of the comparisons. -/
class ExactScores (ρ : Type) [F64 ρ] [FloatMath ρ] [LinearOrder ρ] : Prop where
  lt_iff (a b : ρ) : F64.lt a b = true ↔ a < b
  eq_iff (a b : ρ) : F64.eq a b = true ↔ a = b
  negInfinity_lt_infinity : (F64.negInfinity : ρ) < FloatMath.infinity

instance : ExactScores ExactF64 where
  lt_iff _ _ := decide_eq_true_iff
  eq_iff _ _ := decide_eq_true_iff
  negInfinity_lt_infinity := WithBot.bot_lt_coe _

variable {ρ : Type} [F64 ρ] [FloatMath ρ] {t : Mcts ρ} {parentIndex : ℕ} {parent : Node ρ}

namespace Mcts

/-- The score that a child has among the children of its parent. -/
def childScore (t : Mcts ρ) (parent : Node ρ) (i : ℕ) : ρ :=
  match t.nodes[i]? with
  | none => F64.negInfinity
  | some child => t.score (FloatMath.ln (FloatMath.ofU64 (max parent.visits 1))) child

def childKey (t : Mcts ρ) (i : ℕ) : String := (t.keyOf i).getD ""

/-- The tree with the children of a node in another order. -/
def withChildren (t : Mcts ρ) (parentIndex : ℕ) (children : List ℕ) : Mcts ρ :=
  { t with nodes := t.nodes.modify parentIndex fun node => { node with children } }

theorem childScore_of_getElem? (parent : Node ρ) {i : ℕ} {child : Node ρ}
    (h : t.nodes[i]? = some child) :
    t.childScore parent i = t.score (FloatMath.ln (FloatMath.ofU64 (max parent.visits 1))) child := by
  rw [childScore, h]

omit [F64 ρ] [FloatMath ρ] in
theorem childKey_of_getElem? {i : ℕ} {child : Node ρ} (h : t.nodes[i]? = some child) :
    t.childKey i = child.key := by
  rw [childKey, keyOf_of_getElem? h, Option.getD_some]

theorem childScore_of_unvisited {i : ℕ} (hi : i < t.nodes.length) (h : t.visitsOf i = 0) :
    t.childScore parent i = FloatMath.infinity := by
  have hget := List.getElem?_eq_getElem hi
  rw [visitsOf, hget, Option.map_some, Option.getD_some] at h
  rw [childScore_of_getElem? parent hget, score, if_pos h]

omit [F64 ρ] [FloatMath ρ] in
theorem getElem?_withChildren (t : Mcts ρ) (parentIndex : ℕ) (children : List ℕ) (i : ℕ) :
    (t.withChildren parentIndex children).nodes[i]? =
      t.nodes[i]?.map fun node => if parentIndex = i then { node with children } else node := by
  rw [withChildren, List.getElem?_modify]
  cases t.nodes[i]? with
  | none => rfl
  | some node =>
    by_cases h : parentIndex = i
    · simp [h]
    · simp [h]

theorem childScore_withChildren (children : List ℕ) :
    (t.withChildren parentIndex children).childScore { parent with children } =
      t.childScore parent := by
  funext i
  rw [childScore, childScore, getElem?_withChildren]
  cases t.nodes[i]? with
  | none => rfl
  | some child =>
    rw [Option.map_some]
    split_ifs
    · rfl
    · rfl

omit [F64 ρ] [FloatMath ρ] in
theorem childKey_withChildren (children : List ℕ) :
    (t.withChildren parentIndex children).childKey = t.childKey := by
  funext i
  rw [childKey, childKey, keyOf, keyOf, getElem?_withChildren]
  cases t.nodes[i]? with
  | none => rfl
  | some child =>
    rw [Option.map_some]
    split_ifs
    · rfl
    · rfl

section Exact

variable [LinearOrder ρ] [ExactScores ρ]

/-- The loop has found no child before the first round, and then the best of those gone through. -/
def FoundBest (t : Mcts ρ) (parent : Node ρ) (done : List ℕ) (best : Option ℕ × ρ) : Prop :=
  (done = [] ∧ best = (none, F64.negInfinity)) ∨
    ∃ c, best = (some c, t.childScore parent c) ∧ Best (t.childScore parent) t.childKey done c

omit [ExactScores ρ] in
theorem FoundBest.mem {done : List ℕ} {best : Option ℕ × ρ} (h : t.FoundBest parent done best)
    {c : ℕ} (hc : best.1 = some c) : c ∈ done := by
  rcases h with ⟨-, rfl⟩ | ⟨c', rfl, hbest⟩
  · cases hc
  · exact Option.some.inj hc ▸ hbest.mem

/-- One round, with a child whose score is above the one that the loop starts from. -/
theorem FoundBest.step {best best' : Option ℕ × ρ} {done : List ℕ} {i : ℕ} {child : Node ρ}
    (h : t.FoundBest parent done best) (hchild : t.nodes[i]? = some child)
    (habove : F64.negInfinity < t.childScore parent i)
    (hround : t.Compared (FloatMath.ln (FloatMath.ofU64 (max parent.visits 1))) best i child best') :
    t.FoundBest parent (done ++ [i]) best' := by
  have hscore := childScore_of_getElem? parent hchild
  right
  rcases h with ⟨rfl, rfl⟩ | ⟨c, rfl, hbest⟩
  · have hfirst : best' = (some i, t.childScore parent i) := by
      rw [hscore, ← ExactScores.lt_iff] at habove
      cases hround with
      | higher _ => rw [hscore]
      | tied hlt => simp [habove] at hlt
      | lower hlt => simp [habove] at hlt
    exact ⟨i, hfirst, .singleton _ _ i⟩
  · cases hround with
    | higher hlt =>
      rw [← hscore] at hlt ⊢
      exact ⟨i, rfl, hbest.higher ((ExactScores.lt_iff _ _).mp hlt)⟩
    | tied hlt heq hexisting hnode =>
      obtain rfl := Option.some.inj hexisting
      rw [← hscore, ExactScores.eq_iff] at heq
      rw [← childKey_of_getElem? hchild, ← childKey_of_getElem? hnode]
      split_ifs with hkey
      · exact ⟨i, by rw [heq], hbest.tied heq hkey⟩
      · exact ⟨c, rfl, hbest.keep heq.le fun _ => not_lt.mp hkey⟩
    | lower hlt heq =>
      rw [← hscore, ← Bool.not_eq_true, ExactScores.lt_iff, not_lt] at hlt
      rw [← hscore, ExactScores.eq_iff] at heq
      refine ⟨c, rfl, hbest.keep hlt fun h => ?_⟩
      cases heq h

/-- The loop ends with the best child. -/
theorem selectBestChildByUcb_eq (hparent : t.nodes[parentIndex]? = some parent)
    (hin : ∀ c ∈ parent.children, c < t.nodes.length) (hne : parent.children ≠ [])
    (habove : ∀ c ∈ parent.children, F64.negInfinity < t.childScore parent c) :
    ∃ c, t.selectBestChildByUcb parentIndex = .ok (some c) ∧
      Best (t.childScore parent) t.childKey parent.children c := by
  have hloop : ∃ best, parent.children.foldlM
      (t.compareChild (FloatMath.ln (FloatMath.ofU64 (max parent.visits 1))))
      (none, F64.negInfinity) = .ok best ∧
      (∀ c ∈ parent.children, c ∈ parent.children) ∧ t.FoundBest parent parent.children best := by
    apply foldlM_eq_ok fun done best =>
      (∀ c ∈ done, c ∈ parent.children) ∧ t.FoundBest parent done best
    · exact ⟨by simp, .inl ⟨rfl, rfl⟩⟩
    · rintro done i hi best ⟨hdone, hfound⟩
      have hchild := List.getElem?_eq_getElem (hin i hi)
      obtain ⟨best', hround, hcompared⟩ := t.compareChild_spec _ hchild fun c hc =>
        hin c (hdone c (hfound.mem hc))
      refine ⟨best', hround, ?_, hfound.step hchild (habove i hi) hcompared⟩
      simpa [or_imp, forall_and] using ⟨hdone, hi⟩
  obtain ⟨best, hloop, -, hfound⟩ := hloop
  rcases hfound with ⟨hnone, -⟩ | ⟨c, rfl, hbest⟩
  · exact absurd hnone hne
  · refine ⟨c, ?_, hbest⟩
    simp only [selectBestChildByUcb, node_eq_ok hparent, ok_bind, List.isEmpty_iff, hne, if_false,
      hloop]
    rfl

end Exact

omit [F64 ρ] [FloatMath ρ] in
/-- The keys of the nodes are different. -/
theorem childKey_inj (h : Linked t) {i j : ℕ} (hi : i < t.nodes.length) (hj : j < t.nodes.length)
    (heq : t.childKey i = t.childKey j) : i = j := by
  have hgeti := List.getElem?_eq_getElem hi
  have hgetj := List.getElem?_eq_getElem hj
  rw [childKey_of_getElem? hgeti, childKey_of_getElem? hgetj] at heq
  have hkeyi := (h.index _ i).mpr (keyOf_of_getElem? hgeti)
  have hkeyj := (h.index _ j).mpr (keyOf_of_getElem? hgetj)
  rw [heq, hkeyj] at hkeyi
  exact (Option.some.inj hkeyi).symm

end Mcts

/-- The child with the greatest score and, of those, the smallest key is selected: one that has not
been visited if there is one, and the same in whatever order the children stand. -/
theorem selectBestChildByUcb_best [LinearOrder ρ] [ExactScores ρ] (h : Built t)
    (hparent : t.nodes[parentIndex]? = some parent) (hne : parent.children ≠ [])
    (hexact : ∀ c ∈ parent.children, t.visitsOf c ≠ 0 →
      F64.negInfinity < t.childScore parent c ∧ t.childScore parent c < FloatMath.infinity) :
    ∃ c, t.selectBestChildByUcb parentIndex = .ok (some c) ∧
      Best (t.childScore parent) t.childKey parent.children c ∧
      ((∃ d ∈ parent.children, t.visitsOf d = 0) → t.visitsOf c = 0) ∧
      ∀ children, children.Perm parent.children →
        (t.withChildren parentIndex children).selectBestChildByUcb parentIndex = .ok (some c) := by
  have hin : ∀ c ∈ parent.children, c < t.nodes.length := by
    intro c hc
    rw [← Mcts.childrenOf_of_getElem? hparent, h.linked.links] at hc
    exact Mcts.lt_of_parentOf hc
  have habove : ∀ c ∈ parent.children, F64.negInfinity < t.childScore parent c := by
    intro c hc
    by_cases hvisits : t.visitsOf c = 0
    · rw [Mcts.childScore_of_unvisited (hin c hc) hvisits]
      exact ExactScores.negInfinity_lt_infinity
    · exact (hexact c hc hvisits).1
  obtain ⟨c, hselect, hbest⟩ := Mcts.selectBestChildByUcb_eq hparent hin hne habove
  refine ⟨c, hselect, hbest, ?_, ?_⟩
  · rintro ⟨d, hd, hunvisited⟩
    by_contra hvisited
    have hle := hbest.score_le d hd
    rw [Mcts.childScore_of_unvisited (hin d hd) hunvisited] at hle
    exact absurd (hexact c hbest.mem hvisited).2 (not_lt.mpr hle)
  · intro children hperm
    have hparent' : (t.withChildren parentIndex children).nodes[parentIndex]? =
        some { parent with children } := by
      rw [Mcts.getElem?_withChildren, hparent, Option.map_some, if_pos rfl]
    have hlength : (t.withChildren parentIndex children).nodes.length = t.nodes.length :=
      List.length_modify ..
    obtain ⟨c', hselect', hbest'⟩ := Mcts.selectBestChildByUcb_eq hparent'
      (fun d hd => hlength ▸ hin d (hperm.mem_iff.mp hd)) (by
        rintro rfl
        exact hne hperm.symm.eq_nil) (by
        intro d hd
        rw [Mcts.childScore_withChildren]
        exact habove d (hperm.mem_iff.mp hd))
    rw [Mcts.childScore_withChildren, Mcts.childKey_withChildren] at hbest'
    have hbest'' := hbest'.perm hperm.symm
    rw [hselect', Mcts.childKey_inj h.linked (hin _ hbest''.mem) (hin _ hbest.mem)
      (hbest''.key_eq hbest)]

/-- Three children with the visited one first and the two others in the wrong order. -/
def tiedTree : Mcts ExactF64 :=
  [.ensureChild "root" "c", .backpropagatePath ["root", "c"] 1, .ensureChild "root" "b",
    .ensureChild "root" "a"].foldl (fun t call => (t.call call).1)
    (Mcts.fresh "root" ⟨1, 1, 1⟩ none)

theorem selectBestChildByUcb_best_tied :
    ∃ c, tiedTree.selectBestChildByUcb 0 = .ok (some c) ∧ tiedTree.visitsOf c = 0 ∧
      tiedTree.childKey c ≤ tiedTree.childKey 2 ∧
      (tiedTree.withChildren 0 [2, 3, 1]).selectBestChildByUcb 0 = .ok (some c) := by
  have built : Built tiedTree := Built.calls (.fresh "root" ⟨1, 1, 1⟩ none) _
  have hroot : tiedTree.nodes[0]? = some ⟨"root", none, [1, 2, 3], 1, 1, 1⟩ := by decide +kernel
  obtain ⟨c, hselect, hbest, hunvisited, hperm⟩ := selectBestChildByUcb_best built
    hroot (by decide) (by decide +kernel)
  have hvisits : tiedTree.visitsOf c = 0 := hunvisited ⟨2, by decide, by decide +kernel⟩
  refine ⟨c, hselect, hvisits, hbest.key_le 2 (by decide) ?_, hperm _ (by decide)⟩
  have hlt : ∀ d ∈ [1, 2, 3], d < tiedTree.nodes.length := by decide +kernel
  rw [Mcts.childScore_of_unvisited (hlt c hbest.mem) hvisits,
    Mcts.childScore_of_unvisited (hlt 2 (by decide)) (by decide +kernel)]

end ManInTheBox.Search
