import ManInTheBox.Library.Fallible
import ManInTheBox.Search.TreeInvariant

/-! # Selecting the next node

`select_path` walks down from the root by upper confidence bounds, and
`PendingTreeSearch` remembers the path it returned until the reward of the node
evaluated there comes in.
-/

namespace ManInTheBox.Search

open Library

/-- The operations on `f64` that a score needs besides. -/
class FloatMath (ρ : Type) [F64 ρ] where
  infinity : ρ
  ofU64 : ℕ → ρ
  mul : ρ → ρ → ρ
  div : ρ → ρ → ρ
  powf : ρ → ρ → ρ
  ln : ρ → ρ
  sqrt : ρ → ρ

variable {ρ : Type} [F64 ρ] [FloatMath ρ]

def Node.meanReward (node : Node ρ) : ρ :=
  if node.visits = 0 then F64.zero else FloatMath.div node.rewardSum (FloatMath.ofU64 node.visits)

namespace Mcts

/-- `nodes[index]`, which panics out of bounds. -/
def node (t : Mcts ρ) (index : ℕ) : Except Failure (Node ρ) :=
  match t.nodes[index]? with
  | none => .error .panic
  | some node => .ok node

def rootKey (t : Mcts ρ) : Except Failure String := do
  let root ← t.node t.root
  return root.key

def shouldExpandHere (t : Mcts ρ) (nodeIndex : ℕ) : Except Failure Bool := do
  let node ← t.node nodeIndex
  if node.children.isEmpty then
    return true
  let visits : ρ := FloatMath.ofU64 (max node.visits 1)
  let wideningLimit := FloatMath.mul t.config.progressiveWideningK
    (FloatMath.powf visits t.config.progressiveWideningAlpha)
  return F64.lt (FloatMath.ofU64 node.children.length) wideningLimit

/-- The score of a child; one that has not been visited comes first. -/
def score (t : Mcts ρ) (lnParentVisits : ρ) (child : Node ρ) : ρ :=
  if child.visits = 0 then FloatMath.infinity
  else
    F64.add child.meanReward (FloatMath.mul t.config.explorationConstant
      (FloatMath.sqrt (FloatMath.div lnParentVisits (FloatMath.ofU64 child.visits))))

/-- One round of the loop of `select_best_child_by_ucb`: the best child so far and its score. -/
def compareChild (t : Mcts ρ) (lnParentVisits : ρ) (best : Option ℕ × ρ) (childIndex : ℕ) :
    Except Failure (Option ℕ × ρ) := do
  let child ← t.node childIndex
  let score := t.score lnParentVisits child
  if F64.lt best.2 score then
    return (some childIndex, score)
  else if F64.eq score best.2 then
    match best.1 with
    | none => return best
    | some existing =>
      let existingNode ← t.node existing
      if child.key < existingNode.key then
        return (some childIndex, best.2)
      else
        return best
  else
    return best

def selectBestChildByUcb (t : Mcts ρ) (parentIndex : ℕ) : Except Failure (Option ℕ) := do
  let parent ← t.node parentIndex
  if parent.children.isEmpty then
    return none
  let lnParentVisits : ρ := FloatMath.ln (FloatMath.ofU64 (max parent.visits 1))
  let best ← parent.children.foldlM (t.compareChild lnParentVisits) (none, F64.negInfinity)
  return best.1

/-- The loop of `select_path`, with the number of keys that may still be selected. -/
def selectFrom (t : Mcts ρ) : (remaining : ℕ) → (cursor : ℕ) → (selected : List String) →
    Except Failure (List String)
  | 0, _, selected => .ok selected
  | remaining + 1, cursor, selected => do
    if ← t.shouldExpandHere cursor then
      return selected
    let cursorNode ← t.node cursor
    match ← t.selectBestChildByUcb cursor with
    | none =>
      .error (.error ("node `" ++ cursorNode.key ++ "` had no selectable children"))
    | some nextChild =>
      let next ← t.node nextChild
      t.selectFrom remaining nextChild (selected ++ [next.key])

def selectPath (t : Mcts ρ) (maxDepth : ℕ) : Except Failure (List String) :=
  if maxDepth = 0 then .error (.error "max_depth must be at least 1")
  else do
    let root ← t.node t.root
    t.selectFrom (maxDepth - 1) t.root [root.key]

end Mcts

/-! ## The search with a pending path -/

structure SelectionStep where
  selectedKey : String
  selectedPath : List String
  backpropagationPath : List String
  deriving DecidableEq

structure PendingTreeSearch (ρ : Type) where
  tree : Mcts ρ
  pendingSelectionPath : Option (List String)

namespace PendingTreeSearch

def withTree (tree : Mcts ρ) : PendingTreeSearch ρ where
  tree := tree
  pendingSelectionPath := none

/-- Both calls end with a selection, which becomes the pending path. -/
def select (s : PendingTreeSearch ρ) (maxDepth : ℕ) (backpropagationPath : List String) :
    PendingTreeSearch ρ × Except Failure SelectionStep :=
  match s.tree.selectPath maxDepth with
  | .error failure => (s, .error failure)
  | .ok selectedPath =>
    match selectedPath.getLast? with
    | none => (s, .error (.error "mcts returned an empty selection path"))
    | some selectedKey =>
      ({ s with pendingSelectionPath := some selectedPath },
        .ok ⟨selectedKey, selectedPath, backpropagationPath⟩)

def selectNext (s : PendingTreeSearch ρ) (maxDepth : ℕ) :
    PendingTreeSearch ρ × Except Failure SelectionStep :=
  s.select maxDepth []

/-- The path to the node that was evaluated. It hangs under the end of `path`, unless it is this
end; a node that is new is created. -/
def extendPath (s : PendingTreeSearch ρ) (path : List String) (parent currentKey : String) :
    PendingTreeSearch ρ × Except Failure (List String) :=
  if parent = currentKey then (s, .ok path)
  else
    match s.tree.ensureChild parent currentKey with
    | (tree, .error failure) => ({ s with tree := tree }, .error failure)
    | (tree, .ok _) => ({ s with tree := tree }, .ok (path ++ [currentKey]))

/-- The first half of `backpropagate_and_select`. -/
def backpropagationPath (s : PendingTreeSearch ρ) (currentKey : String) :
    PendingTreeSearch ρ × Except Failure (List String) :=
  match s.pendingSelectionPath with
  | some previousPath =>
    match previousPath.getLast? with
    | none => (s, .error (.error "pending selection path was unexpectedly empty"))
    | some parent => s.extendPath previousPath parent currentKey
  | none =>
    match s.tree.rootKey with
    | .error failure => (s, .error failure)
    | .ok root => s.extendPath [root] root currentKey

def backpropagateAndSelect (s : PendingTreeSearch ρ) (currentKey : String) (reward : ρ)
    (maxDepth : ℕ) : PendingTreeSearch ρ × Except Failure SelectionStep :=
  match s.backpropagationPath currentKey with
  | (s, .error failure) => (s, .error failure)
  | (s, .ok path) =>
    match s.tree.backpropagatePath path reward with
    | (tree, .error failure) => ({ s with tree := tree }, .error failure)
    | (tree, .ok _) => { s with tree := tree }.select maxDepth path

end PendingTreeSearch

/-! ## Runs -/

inductive SearchCall (ρ : Type)
  | selectNext (maxDepth : ℕ)
  | backpropagateAndSelect (currentKey : String) (reward : ρ) (maxDepth : ℕ)
  /-- `tree_mut().ensure_child`. -/
  | ensureChild (parentKey childKey : String)

inductive SearchReply
  | selection (result : Except Failure SelectionStep)
  | child (result : Except Failure Unit)

def PendingTreeSearch.call (s : PendingTreeSearch ρ) :
    SearchCall ρ → PendingTreeSearch ρ × SearchReply
  | .selectNext maxDepth =>
    let (s, result) := s.selectNext maxDepth
    (s, .selection result)
  | .backpropagateAndSelect currentKey reward maxDepth =>
    let (s, result) := s.backpropagateAndSelect currentKey reward maxDepth
    (s, .selection result)
  | .ensureChild parentKey childKey =>
    let (tree, result) := s.tree.ensureChild parentKey childKey
    ({ s with tree := tree }, .child result)

abbrev SearchTransition (ρ : Type) :=
  Transition (PendingTreeSearch ρ) (SearchCall ρ) SearchReply

/-- The calls on a search over a fresh tree, successful or not. -/
abbrev SearchRun (rootKey : String) (config : MctsConfig ρ) (persistencePath : Option String) :=
  Run (fun s call => some (PendingTreeSearch.call s call))
    (PendingTreeSearch.withTree (Mcts.fresh rootKey config persistencePath))

/-! ## What is selected -/

namespace Mcts

/-- The keys from the root down to the node at `last`, each a child of the one before it. -/
def PathTo (t : Mcts ρ) (last : ℕ) (path : List String) : Prop :=
  ∃ indices, ParentChain t.parentOf t.root last indices ∧
    indices.map t.keyOf = path.map some

def IsPath (t : Mcts ρ) (path : List String) : Prop := ∃ last, t.PathTo last path

variable {t : Mcts ρ}

section

omit [F64 ρ] [FloatMath ρ]

theorem node_ok {index : ℕ} {node : Node ρ} (h : t.node index = .ok node) :
    t.nodes[index]? = some node := by
  rw [Mcts.node] at h
  split at h
  · cases h
  · rename_i node' hnode
    rw [hnode, Except.ok.inj h]

theorem keyOf_of_getElem? {i : ℕ} {node : Node ρ} (h : t.nodes[i]? = some node) :
    t.keyOf i = some node.key := by
  simp [keyOf, h]

theorem pathTo_root {root : Node ρ} (h : t.nodes[t.root]? = some root) :
    t.PathTo t.root [root.key] :=
  ⟨[t.root], .root, by simp [keyOf_of_getElem? h]⟩

theorem PathTo.child {last child : ℕ} {path : List String} {node : Node ρ}
    (h : t.PathTo last path) (hlink : t.parentOf child = some last)
    (hnode : t.nodes[child]? = some node) : t.PathTo child (path ++ [node.key]) := by
  obtain ⟨indices, hchain, hkeys⟩ := h
  refine ⟨indices ++ [child], hchain.child hlink, ?_⟩
  simp [hkeys, keyOf_of_getElem? hnode]

end

end Mcts

section

variable {t : Mcts ρ}

omit [F64 ρ] [FloatMath ρ]

/-- The last key on a path is that of the node it leads to. -/
theorem Mcts.PathTo.getLast? {last : ℕ} {path : List String} (h : t.PathTo last path) :
    t.keyOf last = path.getLast? := by
  obtain ⟨indices, hchain, hkeys⟩ := h
  have heq := congrArg List.getLast? hkeys
  rw [List.getLast?_map, List.getLast?_map, hchain.getLast?] at heq
  cases hlast : path.getLast? with
  | none =>
    rw [hlast] at heq
    cases heq
  | some key =>
    rw [hlast] at heq
    exact Option.some.inj heq

theorem mem_path_iff {indices : List ℕ} {path : List String}
    (hkeys : indices.map t.keyOf = path.map some) (key : String) :
    key ∈ path ↔ ∃ i ∈ indices, t.keyOf i = some key := by
  have hmem : key ∈ path ↔ some key ∈ indices.map t.keyOf := by
    rw [hkeys]
    simp
  rw [hmem, List.mem_map]

/-- The node at `i` is on a path exactly if its key is. -/
theorem Linked.mem_path (h : Linked t) {indices : List ℕ} {path : List String}
    (hkeys : indices.map t.keyOf = path.map some) {i : ℕ} {key : String}
    (hkey : t.keyOf i = some key) : key ∈ path ↔ i ∈ indices := by
  rw [mem_path_iff hkeys]
  constructor
  · rintro ⟨j, hj, hother⟩
    rw [← h.index] at hkey hother
    rwa [Option.some.inj (hkey.symm.trans hother)]
  · exact fun hi => ⟨i, hi, hkey⟩

theorem Mcts.IsPath.nodup {path : List String} (h : t.IsPath path)
    (hlinked : Linked t) : path.Nodup := by
  obtain ⟨last, indices, hchain, hkeys⟩ := h
  apply List.Nodup.of_map some
  rw [← hkeys]
  apply (hchain.nodup hlinked.root).map_on
  intro i hi j hj heq
  obtain ⟨key, -, hkey⟩ := List.mem_map.mp (hkeys ▸ List.mem_map_of_mem hi)
  have hother : t.keyOf j = some key := heq ▸ hkey.symm
  rw [eq_comm, ← hlinked.index] at hkey
  rw [← hlinked.index] at hother
  exact Option.some.inj (hkey.symm.trans hother)

theorem Mcts.IsPath.ne_nil {path : List String} (h : t.IsPath path) : path ≠ [] := by
  obtain ⟨last, indices, hchain, hkeys⟩ := h
  rintro rfl
  have hroot := hchain.mem_root
  rw [List.map_nil, List.map_eq_nil_iff] at hkeys
  simp [hkeys] at hroot

theorem Mcts.PathTo.lt {last : ℕ} {path : List String} (h : t.PathTo last path) :
    last < t.nodes.length := by
  have hkey := h.getLast?
  rw [List.getLast?_eq_getLast_of_ne_nil (Mcts.IsPath.ne_nil ⟨last, h⟩)] at hkey
  exact Mcts.lt_of_keyOf hkey

end

namespace Mcts

variable {t : Mcts ρ} {parent : Node ρ}

/-- What a round of the loop over the children does: a higher score takes over, and so does an equal
one with a smaller key. -/
inductive Compared (t : Mcts ρ) (lnParentVisits : ρ) (best : Option ℕ × ρ) (childIndex : ℕ)
    (child : Node ρ) : Option ℕ × ρ → Prop
  | higher (hlt : F64.lt best.2 (t.score lnParentVisits child) = true) :
      Compared t lnParentVisits best childIndex child
        (some childIndex, t.score lnParentVisits child)
  | tied {existing : ℕ} {existingNode : Node ρ}
      (hlt : F64.lt best.2 (t.score lnParentVisits child) = false)
      (heq : F64.eq (t.score lnParentVisits child) best.2 = true)
      (hexisting : best.1 = some existing) (hnode : t.nodes[existing]? = some existingNode) :
      Compared t lnParentVisits best childIndex child
        (if child.key < existingNode.key then (some childIndex, best.2) else best)
  | lower (hlt : F64.lt best.2 (t.score lnParentVisits child) = false)
      (heq : F64.eq (t.score lnParentVisits child) best.2 = true → best.1 = none) :
      Compared t lnParentVisits best childIndex child best

omit [F64 ρ] [FloatMath ρ] in
theorem node_eq_ok {index : ℕ} {node : Node ρ} (h : t.nodes[index]? = some node) :
    t.node index = .ok node := by
  simp only [Mcts.node, h]

theorem compareChild_spec (t : Mcts ρ) (lnParentVisits : ρ) {best : Option ℕ × ρ} {childIndex : ℕ}
    {child : Node ρ} (hchild : t.nodes[childIndex]? = some child)
    (hbest : ∀ existing, best.1 = some existing → existing < t.nodes.length) :
    ∃ best', t.compareChild lnParentVisits best childIndex = .ok best' ∧
      Compared t lnParentVisits best childIndex child best' := by
  simp only [compareChild, node_eq_ok hchild, ok_bind]
  cases hlt : F64.lt best.2 (t.score lnParentVisits child) with
  | true => exact ⟨_, rfl, .higher hlt⟩
  | false =>
    cases heq : F64.eq (t.score lnParentVisits child) best.2 with
    | false => exact ⟨_, rfl, .lower hlt (by simp [heq])⟩
    | true =>
      cases hexisting : best.1 with
      | none => exact ⟨_, rfl, .lower hlt fun _ => hexisting⟩
      | some existing =>
        have hget := List.getElem?_eq_getElem (hbest existing hexisting)
        refine ⟨_, ?_, .tied hlt heq hexisting hget⟩
        simp only [node_eq_ok hget, ok_bind, Bool.false_eq_true, if_false, if_true]
        split_ifs <;> rfl

theorem Compared.mem {lnParentVisits : ρ} {best best' : Option ℕ × ρ} {childIndex : ℕ}
    {child : Node ρ} (h : t.Compared lnParentVisits best childIndex child best') :
    best'.1 = best.1 ∨ best'.1 = some childIndex := by
  cases h with
  | higher => exact .inr rfl
  | tied =>
    split_ifs
    · exact .inr rfl
    · exact .inl rfl
  | lower => exact .inl rfl

/-- The score of the child is above minus infinity, from which the loop starts. -/
def Candidate (t : Mcts ρ) (parent child : Node ρ) : Prop :=
  F64.lt F64.negInfinity
    (t.score (FloatMath.ln (FloatMath.ofU64 (max parent.visits 1))) child) = true

instance (t : Mcts ρ) (parent child : Node ρ) : Decidable (t.Candidate parent child) :=
  inferInstanceAs (Decidable (_ = true))

/-- None of the children is a candidate. -/
def NoCandidate (t : Mcts ρ) (parent : Node ρ) (children : List ℕ) : Prop :=
  ∀ c ∈ children, ∀ child, t.nodes[c]? = some child → ¬ t.Candidate parent child

/-- What the loop has found among the children that it has gone through. -/
structure Looped (t : Mcts ρ) (parent : Node ρ) (done : List ℕ) (best : Option ℕ × ρ) : Prop where
  mem : ∀ c, best.1 = some c → c ∈ parent.children
  start : best.1 = none → best.2 = F64.negInfinity
  none_iff : best.1 = none ↔ t.NoCandidate parent done

theorem NoCandidate.concat {done : List ℕ} {childIndex : ℕ} {child : Node ρ}
    (hchild : t.nodes[childIndex]? = some child) :
    t.NoCandidate parent (done ++ [childIndex]) ↔
      t.NoCandidate parent done ∧ ¬ t.Candidate parent child := by
  constructor
  · intro h
    exact ⟨fun c hc => h c (List.mem_append_left _ hc),
      h childIndex (List.mem_append_right _ (List.mem_singleton_self _)) child hchild⟩
  · rintro ⟨hdone, hnow⟩ c hc node hnode
    rcases List.mem_append.mp hc with hc | hc
    · exact hdone c hc node hnode
    · obtain rfl := List.mem_singleton.mp hc
      obtain rfl := Option.some.inj (hchild.symm.trans hnode)
      exact hnow

theorem Looped.step {best best' : Option ℕ × ρ} {done : List ℕ} {childIndex : ℕ} {child : Node ρ}
    (h : t.Looped parent done best) (hmem : childIndex ∈ parent.children)
    (hchild : t.nodes[childIndex]? = some child)
    (hround : t.Compared (FloatMath.ln (FloatMath.ofU64 (max parent.visits 1))) best childIndex
      child best') : t.Looped parent (done ++ [childIndex]) best' := by
  have hkeep (c : ℕ) (hc : best'.1 = some c) : c ∈ parent.children := by
    rcases hround.mem with hbefore | hnow
    · exact h.mem c (hbefore ▸ hc)
    · rw [hnow] at hc
      exact Option.some.inj hc ▸ hmem
  -- what the loop has found once, it has found
  have hfound (hsome : best.1 ≠ none) : ¬ t.NoCandidate parent (done ++ [childIndex]) := by
    rw [NoCandidate.concat hchild]
    exact fun hnone => hsome (h.none_iff.mpr hnone.1)
  cases hround with
  | higher hlt =>
    refine ⟨hkeep, by simp, iff_of_false (by simp) ?_⟩
    by_cases hfirst : best.1 = none
    · rw [h.start hfirst] at hlt
      rw [NoCandidate.concat hchild]
      exact fun hnone => hnone.2 hlt
    · exact hfound hfirst
  | @tied existing existingNode hlt heq hexisting =>
    have hsome : (if child.key < existingNode.key then (some childIndex, best.2) else best).1 ≠
        none := by
      split_ifs
      · simp
      · simp [hexisting]
    exact ⟨hkeep, fun hnone => absurd hnone hsome,
      iff_of_false hsome (hfound (by simp [hexisting]))⟩
  | lower hlt =>
    refine ⟨hkeep, h.start, ?_⟩
    by_cases hfirst : best.1 = none
    · have hnot : ¬ t.Candidate parent child := by
        rw [h.start hfirst] at hlt
        simp [Candidate, hlt]
      rw [NoCandidate.concat hchild, and_iff_left hnot]
      exact h.none_iff
    · exact iff_of_false hfirst (hfound hfirst)

/-- The loop goes through all children. What it returns is one of them, and it returns none exactly
if no child is a candidate. -/
theorem selectBestChildByUcb_spec {parentIndex : ℕ} {parent : Node ρ}
    (hparent : t.nodes[parentIndex]? = some parent)
    (hin : ∀ c ∈ parent.children, c < t.nodes.length) :
    ∃ best, t.selectBestChildByUcb parentIndex = .ok best ∧
      (∀ c, best = some c → c ∈ parent.children) ∧
      (best = none ↔ t.NoCandidate parent parent.children) := by
  simp only [selectBestChildByUcb, node_eq_ok hparent, ok_bind]
  split_ifs with hempty
  · have hnil : parent.children = [] := List.isEmpty_iff.mp hempty
    refine ⟨none, rfl, by simp, iff_of_true rfl ?_⟩
    rw [hnil]
    intro c hc
    cases hc
  · obtain ⟨best, hloop, hbest⟩ := foldlM_eq_ok (t.Looped parent)
      (f := t.compareChild (FloatMath.ln (FloatMath.ofU64 (max parent.visits 1))))
      (l := parent.children) (b := (none, F64.negInfinity))
      ⟨by simp, fun _ => rfl, iff_of_true rfl (by simp [NoCandidate])⟩ (by
        intro done a ha best hbest
        have hchild := List.getElem?_eq_getElem (hin a ha)
        obtain ⟨best', hround, hcompared⟩ :=
          t.compareChild_spec _ hchild fun e he => hin e (hbest.mem e he)
        exact ⟨best', hround, hbest.step ha hchild hcompared⟩)
    exact ⟨best.1, by rw [hloop]; rfl, hbest.mem, hbest.none_iff⟩

/-- The widening limit leaves room for another child. -/
def Widens (t : Mcts ρ) (node : Node ρ) : Prop :=
  F64.lt (FloatMath.ofU64 node.children.length)
    (FloatMath.mul t.config.progressiveWideningK
      (FloatMath.powf (FloatMath.ofU64 (max node.visits 1))
        t.config.progressiveWideningAlpha)) = true

/-- The node has children, and no room for another one. -/
def Full (t : Mcts ρ) (node : Node ρ) : Prop := node.children ≠ [] ∧ ¬ t.Widens node

theorem shouldExpandHere_eq_ok {nodeIndex : ℕ} (h : nodeIndex < t.nodes.length) :
    ∃ expand, t.shouldExpandHere nodeIndex = .ok expand := by
  simp only [shouldExpandHere, node_eq_ok (List.getElem?_eq_getElem h), ok_bind]
  split_ifs <;> exact ⟨_, rfl⟩

/-- The node with this key is expandable, or it is not. -/
def Expands (t : Mcts ρ) (key : String) (expand : Bool) : Prop :=
  ∃ i, t.keyOf i = some key ∧ t.shouldExpandHere i = .ok expand

/-- A selection of at most so many keys: it goes on below nodes that are not expandable, and stops at
one that is, if there is room. -/
structure Selected (t : Mcts ρ) (maxDepth : ℕ) (path : List String) : Prop where
  isPath : t.IsPath path
  passed : ∀ key ∈ path.dropLast, t.Expands key false
  length_le : path.length ≤ maxDepth
  stopped : path.length = maxDepth ∨ ∃ key, path.getLast? = some key ∧ t.Expands key true

/-- One round of the loop: it stops at an expandable node, gets stuck at a node without a selectable
child, or goes on to a child. -/
theorem selectFrom_succ (hlinked : Linked t) {cursor : ℕ} {selected : List String}
    (hselected : t.PathTo cursor selected) :
    (t.shouldExpandHere cursor = .ok true ∧
      ∀ n, t.selectFrom (n + 1) cursor selected = .ok selected) ∨
    t.shouldExpandHere cursor = .ok false ∧
      ((t.selectBestChildByUcb cursor = .ok none ∧
          ∃ message, ∀ n, t.selectFrom (n + 1) cursor selected = .error (.error message)) ∨
        ∃ nextChild key, t.selectBestChildByUcb cursor = .ok (some nextChild) ∧
          t.PathTo nextChild (selected ++ [key]) ∧
          ∀ n, t.selectFrom (n + 1) cursor selected = t.selectFrom n nextChild (selected ++ [key])) := by
  have hlt := hselected.lt
  have hcursor := List.getElem?_eq_getElem hlt
  obtain ⟨expand, hexpand⟩ := t.shouldExpandHere_eq_ok hlt
  simp only [selectFrom, hexpand, ok_bind, node_eq_ok hcursor]
  cases expand with
  | true => exact .inl ⟨rfl, fun n => rfl⟩
  | false =>
    right
    refine ⟨rfl, ?_⟩
    have hchildren : ∀ c ∈ t.nodes[cursor].children, t.parentOf c = some cursor := by
      intro c hc
      rw [← hlinked.links, childrenOf_of_getElem? hcursor]
      exact hc
    obtain ⟨best, hbest, hmem, -⟩ := t.selectBestChildByUcb_spec hcursor fun c hc =>
      lt_of_parentOf (hchildren c hc)
    simp only [hbest, ok_bind, Bool.false_eq_true, if_false]
    cases best with
    | none => exact .inl ⟨rfl, _, fun n => rfl⟩
    | some nextChild =>
      have hlink := hchildren nextChild (hmem nextChild rfl)
      have hnext := List.getElem?_eq_getElem (lt_of_parentOf hlink)
      refine .inr ⟨nextChild, _, rfl, hselected.child hlink hnext, fun n => ?_⟩
      simp only [node_eq_ok hnext, ok_bind]

/-- The loop selects, or it gets stuck at a node without a selectable child. -/
theorem selectFrom_spec (hlinked : Linked t) (remaining : ℕ) {cursor : ℕ} {selected : List String}
    (hselected : t.PathTo cursor selected)
    (hpassed : ∀ key ∈ selected.dropLast, t.Expands key false) :
    (∃ message, t.selectFrom remaining cursor selected = .error (.error message)) ∨
      ∃ path, t.selectFrom remaining cursor selected = .ok path ∧
        t.Selected (selected.length + remaining) path := by
  induction remaining generalizing cursor selected with
  | zero => exact .inr ⟨selected, rfl, ⟨cursor, hselected⟩, hpassed, le_rfl, .inl rfl⟩
  | succ remaining ih =>
    have hlt := hselected.lt
    have hcursor := List.getElem?_eq_getElem hlt
    have hlast := hselected.getLast?
    rw [keyOf_of_getElem? hcursor] at hlast
    have hexpands {expand : Bool} (h : t.shouldExpandHere cursor = .ok expand) :
        t.Expands t.nodes[cursor].key expand := ⟨cursor, keyOf_of_getElem? hcursor, h⟩
    rcases selectFrom_succ hlinked hselected with
      ⟨hexpand, hround⟩ | ⟨hexpand, ⟨-, message, hround⟩ | ⟨nextChild, key, -, hnext, hround⟩⟩
    · exact .inr ⟨selected, hround remaining, ⟨cursor, hselected⟩, hpassed, by omega,
        .inr ⟨_, hlast.symm, hexpands hexpand⟩⟩
    · exact .inl ⟨message, hround remaining⟩
    · have hnewPassed : ∀ key' ∈ (selected ++ [key]).dropLast, t.Expands key' false := by
        intro key' hkey
        rw [List.dropLast_concat, ← List.dropLast_append_getLast? _ hlast.symm] at hkey
        rcases List.mem_append.mp hkey with hbefore | hhere
        · exact hpassed key' hbefore
        · rw [List.mem_singleton.mp hhere]
          exact hexpands hexpand
      have hrest := ih hnext hnewPassed
      rwa [List.length_append, List.length_singleton, Nat.add_right_comm, Nat.add_assoc,
        ← hround remaining] at hrest

/-- A selection fails for lack of depth or of a selectable child, and never panics. -/
theorem selectPath_spec (hlinked : Linked t) (maxDepth : ℕ) :
    (∃ message, t.selectPath maxDepth = .error (.error message)) ∨
      ∃ path, t.selectPath maxDepth = .ok path ∧ t.Selected maxDepth path := by
  rw [selectPath]
  by_cases hdepth : maxDepth = 0
  · rw [if_pos hdepth]
    exact .inl ⟨_, rfl⟩
  · have hroot := List.getElem?_eq_getElem hlinked.root_lt
    rw [if_neg hdepth, node_eq_ok hroot, ok_bind]
    have hfrom := selectFrom_spec hlinked (maxDepth - 1) (pathTo_root hroot) (by simp)
    rwa [List.length_singleton, Nat.add_sub_cancel' (by omega)] at hfrom

/-- Whatever is selected is a path from the root. -/
theorem selectPath_ok (hlinked : Linked t) {maxDepth : ℕ} {path : List String}
    (h : t.selectPath maxDepth = .ok path) : t.IsPath path := by
  rcases selectPath_spec hlinked maxDepth with ⟨message, herror⟩ | ⟨path', hok, hselected⟩
  · rw [h] at herror
    cases herror
  · obtain rfl := Except.ok.inj (h.symm.trans hok)
    exact hselected.isPath

end Mcts

end ManInTheBox.Search
