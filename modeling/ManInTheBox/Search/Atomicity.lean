import ManInTheBox.Search.Built
import ManInTheBox.Search.Statistics

/-! # Calls that fail half way

A backpropagation updates each node of its path as soon as it has checked it, and a
`backpropagate_and_select` creates, updates and selects in turn. When a later part
fails, the earlier ones stay.
-/

namespace ManInTheBox.Search

open Library

variable {ρ : Type} {t t' : Mcts ρ}

namespace Mcts

/-- The nodes of the path up to its first key that is unknown or no child of the key before it. -/
def walkable (t : Mcts ρ) : (previous : Option String) → List String → List ℕ
  | _, [] => []
  | previous, key :: path =>
    match t.indexByKey.lookup key with
    | none => []
    | some nodeIndex =>
      match t.checkSegment key nodeIndex previous with
      | .error _ => []
      | .ok _ => nodeIndex :: t.walkable (some key) path

theorem checkSegment_congr (hsame : SameShape t t') (key : String) (i : ℕ)
    (previous : Option String) : t'.checkSegment key i previous = t.checkSegment key i previous := by
  cases previous with
  | none => rfl
  | some previousKey =>
    rw [checkSegment, checkSegment, hsame.index]
    cases t.indexByKey.lookup previousKey with
    | none => rfl
    | some p =>
      have hchildren := hsame.childrenOf p
      by_cases hp : p < t.nodes.length
      · have hp' : p < t'.nodes.length := hsame.length ▸ hp
        simp only [List.getElem?_eq_getElem hp, List.getElem?_eq_getElem hp']
        rw [childrenOf_of_getElem? (List.getElem?_eq_getElem hp),
          childrenOf_of_getElem? (List.getElem?_eq_getElem hp')] at hchildren
        rw [hchildren]
      · have hp' : ¬ p < t'.nodes.length := hsame.length ▸ hp
        simp [List.getElem?_eq_none (not_lt.mp hp), List.getElem?_eq_none (not_lt.mp hp')]

theorem walkable_congr (hsame : SameShape t t') (previous : Option String) (path : List String) :
    t'.walkable previous path = t.walkable previous path := by
  induction path generalizing previous with
  | nil => rfl
  | cons key path ih =>
    rw [walkable, walkable, hsame.index]
    cases t.indexByKey.lookup key with
    | none => rfl
    | some i =>
      simp only [checkSegment_congr hsame, ih]

variable [F64 ρ]

/-- The tree once these nodes have recorded the reward, in this order. -/
def recordAll (reward : ρ) (indices : List ℕ) (t : Mcts ρ) : Mcts ρ :=
  { t with nodes := indices.foldl (fun nodes i => nodes.modify i (Node.record reward)) t.nodes }

theorem getElem?_recordAll (reward : ρ) (indices : List ℕ) (t : Mcts ρ) (i : ℕ) :
    (t.recordAll reward indices).nodes[i]? =
      t.nodes[i]?.map (Node.record reward)^[indices.count i] := by
  induction indices generalizing t with
  | nil => simp [recordAll]
  | cons j indices ih =>
    have hfirst : t.recordAll reward (j :: indices) =
        recordAll reward indices { t with nodes := t.nodes.modify j (Node.record reward) } := rfl
    rw [hfirst, ih, List.getElem?_modify]
    cases t.nodes[i]? with
    | none => rfl
    | some node =>
      by_cases hj : j = i
      · simp [hj]
      · simp [hj]

/-- However the loop ends, it has recorded the reward on the walkable part of the path. -/
theorem backpropagateFrom_eq (h : Linked t) (reward : ρ) (previous : Option String)
    (path : List String) :
    ∃ result, backpropagateFrom reward previous path t =
        (t.recordAll reward (t.walkable previous path), result) ∧
      result ≠ .error .panic ∧
      (result = .ok () ↔ (t.walkable previous path).length = path.length) := by
  induction path generalizing t previous with
  | nil => exact ⟨.ok (), rfl, by simp, by simp [walkable]⟩
  | cons key path ih =>
    rw [backpropagateFrom, walkable]
    cases hlookup : t.indexByKey.lookup key with
    | none => exact ⟨_, rfl, by simp, by simp⟩
    | some i =>
      have hlt := lt_of_keyOf ((h.index key i).mp hlookup)
      cases hsegment : t.checkSegment key i previous with
      | error failure =>
        simp only [hsegment]
        exact ⟨_, rfl, hsegment ▸ checkSegment_ne_panic h key i previous, by simp⟩
      | ok _ =>
        simp only [hsegment, List.getElem?_eq_getElem hlt]
        have hsame := sameShape_record t i reward
        obtain ⟨result, hcall, hpanic, hok⟩ := ih (h.congr hsame) (some key)
        rw [walkable_congr hsame] at hcall hok
        refine ⟨result, hcall, hpanic, ?_⟩
        rw [hok, List.length_cons, List.length_cons, Nat.succ_inj]

end Mcts

/-! ## Backpropagation -/

section Backpropagation

variable [F64 ρ] {path : List String} {reward : ρ}

/-- What a node has counted. -/
def Node.statistics (node : Node ρ) : ℕ × ρ × ρ := (node.visits, node.rewardSum, node.bestReward)

/-- The statistics of every node are the same. -/
def SameStatistics (t t' : Mcts ρ) : Prop :=
  ∀ i : ℕ, t'.nodes[i]?.map Node.statistics = t.nodes[i]?.map Node.statistics

/-- An error leaves all statistics as they were. -/
def AtomicBackpropagation (t : Mcts ρ) (path : List String) (reward : ρ) : Prop :=
  ∀ t' message, t.backpropagatePath path reward = (t', .error (.error message)) →
    SameStatistics t t'

/-- Recording the reward changes none of these nodes: their visits are at the limit of `u64`, their
sum stays when the reward is added as often as they are listed, and it is their best or does not
beat it. -/
def Unmoved (t : Mcts ρ) (indices : List ℕ) (reward : ρ) : Prop :=
  ∀ i ∈ indices, ∀ node, t.nodes[i]? = some node →
    node.visits = maxVisits ∧
    (F64.add · reward)^[indices.count i] node.rewardSum = node.rewardSum ∧
    (F64.lt node.bestReward reward = false ∨ reward = node.bestReward)

/-- A node that has recorded the reward so often. -/
theorem Node.iterate_record (reward : ρ) (n : ℕ) (node : Node ρ) :
    (Node.record reward)^[n + 1] node =
      { node with
        visits := min (node.visits + (n + 1)) maxVisits
        rewardSum := (F64.add · reward)^[n + 1] node.rewardSum
        bestReward := if F64.lt node.bestReward reward then reward else node.bestReward } := by
  induction n with
  | zero => rfl
  | succ n ih =>
    have hvisits : min (min (node.visits + (n + 1)) maxVisits + 1) maxVisits =
        min (node.visits + (n + 1 + 1)) maxVisits := by omega
    have hbest : (if F64.lt (if F64.lt node.bestReward reward then reward else node.bestReward)
        reward then reward
          else if F64.lt node.bestReward reward then reward else node.bestReward) =
        if F64.lt node.bestReward reward then reward else node.bestReward := by
      split_ifs <;> rfl
    rw [Function.iterate_succ_apply', ih, Node.record]
    simp only [hvisits, hbest, Function.iterate_succ_apply' _ (n + 1)]

/-- Rewards leave the statistics of a node exactly if they leave the node. -/
theorem Node.iterate_record_eq_iff (reward : ρ) (n : ℕ) (node : Node ρ) :
    (Node.record reward)^[n] node = node ↔
      ((Node.record reward)^[n] node).statistics = node.statistics := by
  cases n with
  | zero => exact iff_of_true rfl rfl
  | succ n =>
    rw [Node.iterate_record]
    cases node
    simp [Node.statistics]

theorem Node.iterate_record_fixed_iff {n : ℕ} (hn : 0 < n) (reward : ρ) (node : Node ρ) :
    (Node.record reward)^[n] node = node ↔
      node.visits = maxVisits ∧ (F64.add · reward)^[n] node.rewardSum = node.rewardSum ∧
        (F64.lt node.bestReward reward = false ∨ reward = node.bestReward) := by
  obtain ⟨n, rfl⟩ := Nat.exists_eq_succ_of_ne_zero hn.ne'
  have hvisits : min (node.visits + (n + 1)) maxVisits = node.visits ↔
      node.visits = maxVisits := by omega
  have hbest : (if F64.lt node.bestReward reward then reward else node.bestReward) =
      node.bestReward ↔ (F64.lt node.bestReward reward = false ∨ reward = node.bestReward) := by
    cases F64.lt node.bestReward reward <;> simp
  rw [Node.iterate_record_eq_iff, Node.iterate_record]
  simp only [Node.statistics, Prod.mk.injEq, hvisits, hbest]

/-- What the nodes have recorded leaves them as they were. -/
theorem unmoved_iff (t : Mcts ρ) (indices : List ℕ) (reward : ρ) :
    Unmoved t indices reward ↔ ∀ i ∈ indices, ∀ node, t.nodes[i]? = some node →
      (Node.record reward)^[indices.count i] node = node := by
  constructor
  · intro h i hi node hnode
    exact (Node.iterate_record_fixed_iff (List.count_pos_iff.mpr hi) reward node).mpr
      (h i hi node hnode)
  · intro h i hi node hnode
    exact (Node.iterate_record_fixed_iff (List.count_pos_iff.mpr hi) reward node).mp
      (h i hi node hnode)

theorem sameStatistics_recordAll_iff (t : Mcts ρ) (indices : List ℕ) (reward : ρ) :
    SameStatistics t (t.recordAll reward indices) ↔ Unmoved t indices reward := by
  simp only [SameStatistics, unmoved_iff, Mcts.getElem?_recordAll, Node.iterate_record_eq_iff]
  constructor
  · intro h i _ node hnode
    simpa [hnode] using h i
  · intro h i
    cases hnode : t.nodes[i]? with
    | none => rfl
    | some node =>
      by_cases hi : i ∈ indices
      · simpa using h i hi node hnode
      · simp [List.count_eq_zero_of_not_mem hi]

/-- A backpropagation is refused at once, or it records the reward on the walkable part of the path,
and completes if this is the whole path. -/
theorem backpropagatePath_eq (h : Linked t) (path : List String) (reward : ρ) :
    ((F64.isFinite reward = false ∨ path = []) ∧
      ∃ message, t.backpropagatePath path reward = (t, .error (.error message))) ∨
    (F64.isFinite reward = true ∧ path ≠ [] ∧
      ∃ result, t.backpropagatePath path reward =
          (t.recordAll reward (t.walkable none path), result) ∧ result ≠ .error .panic ∧
        (result = .ok () ↔ (t.walkable none path).length = path.length)) := by
  rw [Mcts.backpropagatePath]
  by_cases hfinite : F64.isFinite reward = true
  · rw [if_neg (by simp [hfinite])]
    by_cases hempty : path = []
    · left
      rw [if_pos (by simp [hempty])]
      exact ⟨.inr hempty, _, rfl⟩
    · right
      rw [if_neg (by simp [hempty])]
      exact ⟨hfinite, hempty, Mcts.backpropagateFrom_eq h reward none path⟩
  · left
    rw [if_pos (by simp [hfinite])]
    exact ⟨.inl (by simpa using hfinite), _, rfl⟩

/-- A backpropagation that fails has changed nothing exactly if it was refused at once, or nothing
on the walkable part of the path could change. -/
theorem backpropagatePath_atomic_iff (h : Built t) (path : List String) (reward : ρ) :
    AtomicBackpropagation t path reward ↔
      F64.isFinite reward = false ∨ (t.walkable none path).length = path.length ∨
        Unmoved t (t.walkable none path) reward := by
  rw [AtomicBackpropagation]
  rcases backpropagatePath_eq h.linked path reward with
    ⟨hrefused, message, hcall⟩ | ⟨hfinite, -, result, hcall, hpanic, hok⟩
  · have hatomic : ∀ t' message', t.backpropagatePath path reward = (t', .error (.error message')) →
        SameStatistics t t' := by
      intro t' message' heq
      rw [hcall] at heq
      obtain ⟨rfl, -⟩ := Prod.mk.inj heq
      exact fun i => rfl
    refine iff_of_true hatomic ?_
    rcases hrefused with hinfinite | rfl
    · exact .inl hinfinite
    · exact .inr (.inl rfl)
  · rw [← sameStatistics_recordAll_iff, ← hok, hcall]
    simp only [hfinite, Bool.true_eq_false, false_or]
    cases result with
    | ok _ => simp
    | error failure =>
      cases failure with
      | panic => exact absurd rfl hpanic
      | error message =>
        simp only [reduceCtorEq, false_or]
        constructor
        · exact fun hatomic => hatomic _ message rfl
        · rintro hsame t' message' heq
          obtain ⟨rfl, -⟩ := Prod.mk.inj heq
          exact hsame

/-- The first key is unknown, so nothing is touched. -/
theorem backpropagatePath_atomic_iff_unknown :
    AtomicBackpropagation (Mcts.fresh "root" unitConfig none) ["a", "root"] 1 := by
  have hwalk : (Mcts.fresh "root" unitConfig none).walkable none ["a", "root"] = [] := rfl
  apply (backpropagatePath_atomic_iff (.fresh "root" unitConfig none) ["a", "root"] 1).mpr
  right
  right
  rw [hwalk]
  intro i hi
  cases hi

/-- The root is updated before the key below it turns out to be unknown. -/
theorem not_backpropagatePath_atomic :
    ¬ ∀ (t : Mcts (WithBot ℚ)) path reward, Built t → AtomicBackpropagation t path reward := by
  intro hall
  have hcall : (Mcts.fresh "root" unitConfig none).backpropagatePath ["root", "a"] 1 =
      ((Mcts.fresh "root" unitConfig none).recordAll 1 [0],
        .error (.error "unknown node `a` in backpropagation path")) := rfl
  have hsame := hall _ _ _ (.fresh "root" unitConfig none) _ _ hcall 0
  exact absurd hsame (by decide)

end Backpropagation

/-! ## Backpropagation and selection -/

section Search

namespace PendingTreeSearch

variable [F64 ρ] {s : PendingTreeSearch ρ} {currentKey : String} {reward : ρ}

/-- The pending path, or the root alone. -/
def basePath (s : PendingTreeSearch ρ) : List String :=
  s.pendingSelectionPath.getD (s.tree.keyOf s.tree.root).toList

/-- The path along which the reward is to be recorded. -/
def evaluatedPath (s : PendingTreeSearch ρ) (currentKey : String) : List String :=
  if s.basePath.getLast? = some currentKey then s.basePath else s.basePath ++ [currentKey]

/-- There is no end of the base path under which the key could be, or create, a child. -/
def Refused (s : PendingTreeSearch ρ) (currentKey : String) : Prop :=
  ∀ parentKey, s.basePath.getLast? = some parentKey → parentKey ≠ currentKey ∧
    ∀ parent, s.tree.keyOf parent = some parentKey →
      ∃ i, s.tree.keyOf i = some currentKey ∧ s.tree.parentOf i ≠ some parent

/-- The node under which a node for the key has to be created. -/
def newParent (s : PendingTreeSearch ρ) (currentKey : String) : Option ℕ :=
  if s.basePath.getLast? = some currentKey ∨ currentKey ∈ s.tree.indexByKey then none
  else s.basePath.getLast?.bind s.tree.indexByKey.lookup

/-- The tree with a node for the key. -/
def treeWithKey (s : PendingTreeSearch ρ) (currentKey : String) : Mcts ρ :=
  match s.newParent currentKey with
  | none => s.tree
  | some parent => s.tree.grow parent currentKey

/-- The path is extended exactly if the key is not refused. -/
theorem extendPath_spec (hlinked : Linked s.tree) {parentKey : String}
    (hlast : s.basePath.getLast? = some parentKey) (currentKey : String) :
    (s.Refused currentKey ∧ ∃ message,
      s.extendPath s.basePath parentKey currentKey = (s, .error (.error message))) ∨
    (¬ s.Refused currentKey ∧ s.extendPath s.basePath parentKey currentKey =
      ({ s with tree := s.treeWithKey currentKey }, .ok (s.evaluatedPath currentKey))) := by
  by_cases hsame : parentKey = currentKey
  · subst hsame
    right
    constructor
    · exact fun hrefused => (hrefused _ hlast).1 rfl
    · simp [extendPath, treeWithKey, newParent, evaluatedPath, hlast]
  · have hpath : s.evaluatedPath currentKey = s.basePath ++ [currentKey] := by
      simp [evaluatedPath, hlast, hsame]
    have hparentKey (parent : ℕ) : s.tree.keyOf parent = some parentKey ↔
        s.tree.indexByKey.lookup parentKey = some parent := (hlinked.index parentKey parent).symm
    rw [extendPath, if_neg hsame, hpath]
    cases hparent : s.tree.indexByKey.lookup parentKey with
    | none =>
      left
      constructor
      · intro parentKey' hlast'
        obtain rfl := Option.some.inj (hlast.symm.trans hlast')
        refine ⟨hsame, fun parent hkey => ?_⟩
        rw [hparentKey, hparent] at hkey
        cases hkey
      · simp [Mcts.ensureChild, hparent]
    | some parent =>
      have hkey := (hparentKey parent).mpr hparent
      have hparentLt := Mcts.lt_of_keyOf hkey
      cases hchild : s.tree.indexByKey.lookup currentKey with
      | some i =>
        have hchildKey := (hlinked.index currentKey i).mp hchild
        have hchildLt := Mcts.lt_of_keyOf hchildKey
        have hlink := Mcts.parentOf_of_getElem? (List.getElem?_eq_getElem hchildLt)
        have hmem : currentKey ∈ s.tree.indexByKey := by
          rw [← AList.lookup_isSome, hchild]
          rfl
        by_cases hunder : s.tree.nodes[i].parent = some parent
        · right
          constructor
          · intro hrefused
            obtain ⟨i', hi', hne⟩ := (hrefused _ hlast).2 parent hkey
            rw [← hlinked.index, hchild] at hi'
            obtain rfl := Option.some.inj hi'
            exact hne (hlink.trans hunder)
          · have hlisted : i ∈ s.tree.nodes[parent].children := by
              rw [← Mcts.childrenOf_of_getElem? (List.getElem?_eq_getElem hparentLt),
                hlinked.links, hlink, hunder]
            simp [Mcts.ensureChild, hparent, hchild, hunder, hlisted, hchildLt, hparentLt,
              treeWithKey, newParent, hmem]
        · left
          constructor
          · intro parentKey' hlast'
            obtain rfl := Option.some.inj (hlast.symm.trans hlast')
            refine ⟨hsame, fun parent' hkey' => ⟨i, hchildKey, ?_⟩⟩
            rw [hparentKey, hparent] at hkey'
            rw [← Option.some.inj hkey', hlink]
            exact hunder
          · simp [Mcts.ensureChild, hparent, hchild, hunder, hchildLt]
      | none =>
        right
        have hmem : currentKey ∉ s.tree.indexByKey := AList.lookup_eq_none.mp hchild
        have hgrow : s.treeWithKey currentKey = s.tree.grow parent currentKey := by
          simp [treeWithKey, newParent, hlast, hsame, hmem, hparent]
        constructor
        · intro hrefused
          obtain ⟨i, hi, -⟩ := (hrefused _ hlast).2 parent hkey
          rw [← hlinked.index, hchild] at hi
          cases hi
        · have happend : (s.tree.nodes ++ [Node.new currentKey (some parent)])[parent]? =
              some s.tree.nodes[parent] := by
            rw [List.getElem?_append_left hparentLt, List.getElem?_eq_getElem hparentLt]
          rw [hgrow]
          simp only [Mcts.ensureChild, hparent, hchild, happend]
          rfl

theorem backpropagationPath_cases (hlinked : Linked s.tree) (currentKey : String) :
    (s.basePath.getLast? = none ∧
      ∃ message, s.backpropagationPath currentKey = (s, .error (.error message))) ∨
    ∃ parentKey, s.basePath.getLast? = some parentKey ∧
      s.backpropagationPath currentKey = s.extendPath s.basePath parentKey currentKey := by
  rw [backpropagationPath]
  cases hpending : s.pendingSelectionPath with
  | some path =>
    have hbase : path = s.basePath := by simp [basePath, hpending]
    simp only [hbase]
    cases hlast : s.basePath.getLast? with
    | none => exact .inl ⟨rfl, _, rfl⟩
    | some parentKey => exact .inr ⟨parentKey, rfl, rfl⟩
  | none =>
    have hlt := hlinked.root_lt
    have hroot : s.tree.rootKey = .ok s.tree.nodes[s.tree.root].key := by
      simp only [Mcts.rootKey, Mcts.node_eq_ok (List.getElem?_eq_getElem hlt), ok_bind]
      rfl
    have hbase : s.basePath = [s.tree.nodes[s.tree.root].key] := by
      simp [basePath, hpending, Mcts.keyOf, hlt]
    simp only [hroot, hbase]
    exact .inr ⟨_, rfl, rfl⟩

/-- The reward goes along the evaluated path, unless the key is refused. -/
theorem backpropagationPath_spec (hlinked : Linked s.tree) (currentKey : String) :
    (s.Refused currentKey ∧ ∃ message,
      s.backpropagationPath currentKey = (s, .error (.error message))) ∨
    (¬ s.Refused currentKey ∧ s.backpropagationPath currentKey =
      ({ s with tree := s.treeWithKey currentKey }, .ok (s.evaluatedPath currentKey))) := by
  rcases backpropagationPath_cases hlinked currentKey with
    ⟨hnone, herror⟩ | ⟨parentKey, hlast, hcall⟩
  · left
    refine ⟨fun parentKey hlast => ?_, herror⟩
    rw [hnone] at hlast
    cases hlast
  · rw [hcall]
    exact extendPath_spec hlinked hlast currentKey

theorem treeWithKey_of_none (h : s.newParent currentKey = none) :
    s.treeWithKey currentKey = s.tree := by
  rw [treeWithKey, h]

theorem treeWithKey_of_some (hlinked : Linked s.tree) {parent : ℕ}
    (h : s.newParent currentKey = some parent) :
    s.treeWithKey currentKey = s.tree.grow parent currentKey ∧
      Linked (s.treeWithKey currentKey) := by
  have hgrow : s.treeWithKey currentKey = s.tree.grow parent currentKey := by
    rw [treeWithKey, h]
  rw [newParent] at h
  split_ifs at h with hnew
  obtain ⟨parentKey, -, hlookup⟩ := Option.bind_eq_some_iff.mp h
  have hlt := Mcts.lt_of_keyOf ((hlinked.index parentKey parent).mp hlookup)
  rw [hgrow]
  exact ⟨rfl, hlinked.grow hlt (AList.lookup_eq_none.mpr fun hmem => hnew (.inr hmem))⟩

theorem linked_treeWithKey (hlinked : Linked s.tree) (currentKey : String) :
    Linked (s.treeWithKey currentKey) := by
  cases h : s.newParent currentKey with
  | none => rwa [treeWithKey_of_none h]
  | some parent => exact (treeWithKey_of_some hlinked h).2

/-- The nodes that record the reward: those on the evaluated path, as far as it is one. -/
def walked (s : PendingTreeSearch ρ) (currentKey : String) : List ℕ :=
  (s.treeWithKey currentKey).walkable none (s.evaluatedPath currentKey)

/-- The node at an index as the selection comes upon it: it has counted the reward as often as it is
on the walked path. -/
def counted (s : PendingTreeSearch ρ) (currentKey : String) (reward : ρ) (i : ℕ) :
    Option (Node ρ) :=
  (s.treeWithKey currentKey).nodes[i]?.map (Node.record reward)^[(s.walked currentKey).count i]

/-- A node fewer than `maxDepth` keys from the root, below nodes only that have no room for another
child. -/
def Within [FloatMath ρ] (s : PendingTreeSearch ρ) (currentKey : String) (reward : ρ)
    (maxDepth i : ℕ) : Prop :=
  ∃ indices, ParentChain (s.treeWithKey currentKey).parentOf s.tree.root i indices ∧
    indices.length < maxDepth ∧
    ∀ j ∈ indices.dropLast, ∃ node, s.counted currentKey reward j = some node ∧ s.tree.Full node

section Call

variable [FloatMath ρ] {maxDepth : ℕ}

end Call

end PendingTreeSearch

end Search

end ManInTheBox.Search
