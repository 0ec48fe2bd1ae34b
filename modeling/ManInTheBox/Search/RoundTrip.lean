import ManInTheBox.Search.Persisted

/-! # Writing a tree and reading it back

`to_persisted` writes the best reward of a node that has not been visited as an
absent one, because JSON has no infinities. Every check of `from_persisted` holds of
what is written for a tree that calls have built, and writing what was read gives
back the same document.
-/

namespace ManInTheBox.Search

open Library

variable {ρ : Type} [F64 ρ]

/-- What the tree relies on of `f64`. -/
class LawfulF64 (ρ : Type) [F64 ρ] : Prop where
  isFinite_negInfinity : F64.isFinite (F64.negInfinity : ρ) = false
  eq_negInfinity : F64.eq (F64.negInfinity : ρ) F64.negInfinity = true

instance : LawfulF64 (WithBot ℚ) where
  isFinite_negInfinity := rfl
  eq_negInfinity := rfl

def PersistedNode.fromNode (node : Node ρ) : PersistedNode ρ where
  key := node.key
  parent := node.parent
  children := node.children
  visits := node.visits
  rewardSum := node.rewardSum
  bestReward := if F64.isFinite node.bestReward then some node.bestReward else none

def Mcts.toPersisted (t : Mcts ρ) : PersistedMcts ρ where
  config := t.config
  root := t.root
  nodes := t.nodes.map PersistedNode.fromNode

/-! ## Statistics that can be written -/

/-- The best reward is a reward, or there is none yet. -/
def Node.BestKnown (node : Node ρ) : Prop :=
  F64.isFinite node.bestReward = true ∨ node.bestReward = F64.negInfinity

theorem Node.bestKnown_new (key : String) (parent : Option ℕ) :
    (Node.new key parent : Node ρ).BestKnown := .inr rfl

theorem Node.BestKnown.pushChild {node : Node ρ} (h : node.BestKnown) (child : ℕ) :
    (node.pushChild child).BestKnown := h

theorem Node.BestKnown.record {node : Node ρ} (h : node.BestKnown) {reward : ρ}
    (hreward : F64.isFinite reward = true) : (node.record reward).BestKnown := by
  by_cases hlt : F64.lt node.bestReward reward
  · left
    simpa [Node.record, hlt] using hreward
  · simpa [Node.BestKnown, Node.record, hlt] using h

omit [F64 ρ] in
/-- Changing one node keeps what holds of every node, if the change keeps it. -/
theorem forall_mem_modify {P : Node ρ → Prop} {f : Node ρ → Node ρ} {nodes : List (Node ρ)}
    (h : ∀ node ∈ nodes, P node) (hf : ∀ node, P node → P (f node)) (i : ℕ) :
    ∀ node ∈ nodes.modify i f, P node := by
  intro node hnode
  obtain ⟨j, hj⟩ := List.mem_iff_getElem?.mp hnode
  rw [List.getElem?_modify] at hj
  obtain ⟨old, hold, rfl⟩ := Option.map_eq_some_iff.mp hj
  have hmem := h old (List.mem_of_getElem? hold)
  split_ifs
  · exact hf old hmem
  · exact hmem

theorem bestKnown_backpropagateFrom {t t' : Mcts ρ} {reward : ρ}
    (hreward : F64.isFinite reward = true) (h : ∀ node ∈ t.nodes, node.BestKnown)
    {previous : Option String} {path : List String} {result : Except Failure Unit}
    (hcall : Mcts.backpropagateFrom reward previous path t = (t', result)) :
    ∀ node ∈ t'.nodes, node.BestKnown := by
  induction path generalizing previous t with
  | nil =>
    obtain ⟨rfl, rfl⟩ := Prod.mk.inj hcall
    exact h
  | cons key path ih =>
    rw [Mcts.backpropagateFrom] at hcall
    split at hcall
    · obtain ⟨rfl, rfl⟩ := Prod.mk.inj hcall
      exact h
    · split at hcall
      · obtain ⟨rfl, rfl⟩ := Prod.mk.inj hcall
        exact h
      · split at hcall
        · obtain ⟨rfl, rfl⟩ := Prod.mk.inj hcall
          exact h
        · exact ih (forall_mem_modify h (fun node hnode => hnode.record hreward) _) hcall

theorem bestKnown_call {t t' : Mcts ρ} (hinvariant : TreeInvariant t)
    (h : ∀ node ∈ t.nodes, node.BestKnown) {call : TreeCall ρ} {result : Except Failure Unit}
    (hcall : t.call call = (t', result)) : ∀ node ∈ t'.nodes, node.BestKnown := by
  cases call with
  | ensureChild parentKey childKey =>
    rcases ensureChild_cases hinvariant.linked hcall with ⟨rfl, -⟩ | ⟨-, parent, -, -, -, rfl⟩
    · exact h
    · have happend : ∀ node ∈ t.nodes ++ [Node.new childKey (some parent)], node.BestKnown := by
        intro node hnode
        rcases List.mem_append.mp hnode with hold | hnew
        · exact h node hold
        · rw [List.mem_singleton.mp hnew]
          exact Node.bestKnown_new childKey (some parent)
      exact forall_mem_modify happend (fun node hnode => hnode.pushChild _) parent
  | backpropagatePath path reward =>
    rw [Mcts.call, Mcts.backpropagatePath] at hcall
    split_ifs at hcall with hfinite hempty
    · obtain ⟨rfl, rfl⟩ := Prod.mk.inj hcall
      exact h
    · obtain ⟨rfl, rfl⟩ := Prod.mk.inj hcall
      exact h
    · exact bestKnown_backpropagateFrom (by simpa using hfinite) h hcall

theorem bestKnown_of_run {rootKey : String} {config : MctsConfig ρ}
    {persistencePath : Option String} {history : List (TreeTransition ρ)} {t : Mcts ρ}
    (run : TreeRun rootKey config persistencePath history t) :
    ∀ node ∈ t.nodes, node.BestKnown := by
  have hboth : TreeInvariant t ∧ ∀ node ∈ t.nodes, node.BestKnown := by
    apply run.invariant fun t => TreeInvariant t ∧ ∀ node ∈ t.nodes, node.BestKnown
    · refine ⟨invariant_fresh rootKey config persistencePath, ?_⟩
      intro node hnode
      rw [List.mem_singleton.mp hnode]
      exact Node.bestKnown_new rootKey none
    · intro t call t' result h taken
      have hcall := Option.some.inj taken
      exact ⟨(h.1.call hcall).1, bestKnown_call h.1 h.2 hcall⟩
  exact hboth.2

/-! ## One node -/

variable [LawfulF64 ρ]

theorem intoNode_fromNode {node : Node ρ} (h : node.BestKnown) :
    (PersistedNode.fromNode node).intoNode = node := by
  obtain ⟨key, parent, children, visits, rewardSum, bestReward⟩ := node
  rcases h with hfinite | hnone
  · simp only at hfinite
    simp [PersistedNode.fromNode, PersistedNode.intoNode, hfinite]
  · simp only at hnone
    simp [PersistedNode.fromNode, PersistedNode.intoNode, hnone, LawfulF64.isFinite_negInfinity]

theorem fromNode_intoNode {node : PersistedNode ρ}
    (h : ∀ best, node.bestReward = some best → F64.isFinite best = true) :
    PersistedNode.fromNode node.intoNode = node := by
  obtain ⟨key, parent, children, visits, rewardSum, bestReward⟩ := node
  cases bestReward with
  | none =>
    simp [PersistedNode.fromNode, PersistedNode.intoNode, LawfulF64.isFinite_negInfinity]
  | some best =>
    simp [PersistedNode.fromNode, PersistedNode.intoNode, h best rfl]

/-! ## Checks that pass -/

omit [F64 ρ] [LawfulF64 ρ] in
theorem checkParent_of_link {nodes : List (Node ρ)} {index : ℕ} {node : Node ρ}
    (h : ∀ p, node.parent = some p →
      ∃ parentNode, nodes[p]? = some parentNode ∧ index ∈ parentNode.children) :
    checkParent nodes index node = .ok () := by
  rw [checkParent]
  cases hparent : node.parent with
  | none => rfl
  | some p =>
    obtain ⟨parentNode, hnode, hmem⟩ := h p hparent
    simp [hnode, hmem]

omit [F64 ρ] [LawfulF64 ρ] in
theorem checkChildren_of_links {nodes : List (Node ρ)} {index : ℕ} {node : Node ρ}
    {children : List ℕ}
    (h : ∀ child ∈ children, ∃ childNode, nodes[child]? = some childNode ∧
      childNode.parent = some index) :
    checkChildren nodes index node children = .ok () := by
  induction children with
  | nil => rfl
  | cons child children ih =>
    obtain ⟨childNode, hnode, hparent⟩ := h child (List.mem_cons_self ..)
    simp only [checkChildren, hnode, hparent, ne_eq, not_true_eq_false, if_false]
    exact ih fun child' hmem => h child' (List.mem_cons_of_mem _ hmem)

omit [F64 ρ] [LawfulF64 ρ] in
theorem checkLinks_of_forall {nodes rest : List (Node ρ)} {index : ℕ}
    (h : ∀ j node, rest[j]? = some node → checkParent nodes (index + j) node = .ok () ∧
      checkChildren nodes (index + j) node node.children = .ok ()) :
    checkLinks nodes index rest = .ok () := by
  induction rest generalizing index with
  | nil => rfl
  | cons node rest ih =>
    obtain ⟨hparent, hchildren⟩ := h 0 node rfl
    rw [Nat.add_zero] at hparent hchildren
    simp only [checkLinks, hparent, hchildren]
    apply ih
    intro j node' hnode
    rw [Nat.add_assoc, Nat.add_comm 1 j]
    exact h (j + 1) node' (by simpa using hnode)

omit [F64 ρ] [LawfulF64 ρ] in
/-- The links of a tree pass the checks. -/
theorem TreeInvariant.checkLinks {t : Mcts ρ} (h : TreeInvariant t) :
    checkLinks t.nodes 0 t.nodes = .ok () := by
  apply checkLinks_of_forall
  intro i node hnode
  rw [Nat.zero_add]
  constructor
  · apply checkParent_of_link
    intro p hparent
    have hmem : i ∈ t.childrenOf p := by
      rw [h.links, Mcts.parentOf_of_getElem? hnode, hparent]
    cases hp : t.nodes[p]? with
    | none => simp [Mcts.childrenOf, hp] at hmem
    | some parentNode => exact ⟨parentNode, rfl, Mcts.childrenOf_of_getElem? hp ▸ hmem⟩
  · apply checkChildren_of_links
    intro child hmem
    rw [← Mcts.childrenOf_of_getElem? hnode, h.links] at hmem
    exact Option.bind_eq_some_iff.mp hmem

omit [LawfulF64 ρ] in
theorem indexNodes_of_forall [LawfulF64 ρ] {nodes : List (Node ρ)} {index : ℕ}
    {indexByKey : Table String ℕ}
    (hsum : ∀ node ∈ nodes, F64.isFinite node.rewardSum = true)
    (hbest : ∀ node ∈ nodes, node.BestKnown)
    (hnodup : (nodes.map Node.key).Nodup) (hnew : ∀ node ∈ nodes, node.key ∉ indexByKey) :
    ∃ indexByKey', indexNodes index indexByKey nodes = .ok indexByKey' := by
  induction nodes generalizing index indexByKey with
  | nil => exact ⟨indexByKey, rfl⟩
  | cons node nodes ih =>
    rw [List.map_cons, List.nodup_cons] at hnodup
    have hvalid : (!F64.isFinite node.bestReward &&
        !F64.eq node.bestReward F64.negInfinity) = false := by
      rcases hbest node (List.mem_cons_self ..) with hfinite | hnone
      · simp [hfinite]
      · simp [hnone, LawfulF64.eq_negInfinity]
    rw [indexNodes, hsum node (List.mem_cons_self ..), hvalid,
      if_neg (hnew node (List.mem_cons_self ..))]
    apply ih
    · exact fun other hmem => hsum other (List.mem_cons_of_mem _ hmem)
    · exact fun other hmem => hbest other (List.mem_cons_of_mem _ hmem)
    · exact hnodup.2
    · intro other hmem hinserted
      rcases (AList.mem_insert _).mp hinserted with heq | hold
      · exact hnodup.1 (heq ▸ List.mem_map_of_mem hmem)
      · exact hnew other (List.mem_cons_of_mem _ hmem) hold

omit [F64 ρ] [LawfulF64 ρ] in
/-- The keys of a tree are distinct. -/
theorem TreeInvariant.nodup_keys {t : Mcts ρ} (h : TreeInvariant t) :
    (t.nodes.map Node.key).Nodup := by
  rw [List.nodup_iff_getElem?_ne_getElem?]
  intro i j hij hj heq
  rw [List.length_map] at hj
  have hi : t.keyOf i = some t.nodes[i].key := by simp [Mcts.keyOf, hij.trans hj]
  have hkey : t.keyOf j = some t.nodes[i].key := by
    rw [← hi, Mcts.keyOf, Mcts.keyOf, ← List.getElem?_map, ← List.getElem?_map, heq]
  rw [← h.index] at hi hkey
  exact hij.ne (Option.some.inj (hi.symm.trans hkey))

/-! ## Both ways round -/

omit [LawfulF64 ρ] in
theorem config_fromPersisted {persisted : PersistedMcts ρ} {path : Option String} {t : Mcts ρ}
    (h : fromPersisted persisted path = .ok t) : t.config = persisted.config := by
  simp only [fromPersisted] at h
  split at h
  · split_ifs at h
  · split_ifs at h
    split at h
    · cases h
    · split at h
      · cases h
      · obtain rfl := Except.ok.inj h
        rfl

/-- A tree that calls have built is read back as it was written, and a document whose best rewards
are absent or finite is written back as it was read. -/
theorem persisted_round_trip {rootKey : String} {config : MctsConfig ρ}
    {persistencePath : Option String} :
    (∀ (history : List (TreeTransition ρ)) (t : Mcts ρ),
      TreeRun rootKey config persistencePath history t →
      (∀ node ∈ t.nodes, F64.isFinite node.rewardSum = true) →
      ∀ path, ∃ t', fromPersisted t.toPersisted path = .ok t' ∧ t'.config = t.config ∧
        t'.root = t.root ∧ t'.nodes = t.nodes ∧
        ∀ key, t'.indexByKey.lookup key = t.indexByKey.lookup key) ∧
    ∀ (persisted : PersistedMcts ρ) (path : Option String) (t : Mcts ρ),
      fromPersisted persisted path = .ok t →
      (∀ node ∈ persisted.nodes, ∀ best, node.bestReward = some best →
        F64.isFinite best = true) →
      t.toPersisted = persisted := by
  constructor
  · intro history t run hsum path
    have hinvariant := invariant_of_run run
    have hbest := bestKnown_of_run run
    have hnodes : t.toPersisted.nodes.map PersistedNode.intoNode = t.nodes := by
      have hcell : ∀ node ∈ t.nodes,
          (PersistedNode.intoNode ∘ PersistedNode.fromNode) node = node :=
        fun node hmem => intoNode_fromNode (hbest node hmem)
      rw [Mcts.toPersisted, List.map_map, List.map_congr_left hcell, List.map_id']
    have hindexed : ∃ indexByKey, indexNodes 0 ∅ t.nodes = .ok indexByKey :=
      indexNodes_of_forall hsum hbest hinvariant.nodup_keys fun node _ => AList.notMem_empty _
    obtain ⟨indexByKey, hindex⟩ := hindexed
    have hread : fromPersisted t.toPersisted path =
        .ok ⟨t.config, t.root, t.nodes, indexByKey, path⟩ := by
      have hlt := hinvariant.root_lt
      have hroot := hinvariant.root
      rw [Mcts.parentOf, List.getElem?_eq_getElem hlt] at hroot
      have hparent : t.nodes[t.root].parent = none := hroot
      simp only [fromPersisted, hnodes]
      simp only [Mcts.toPersisted, List.getElem?_eq_getElem hlt, hparent, hindex,
        hinvariant.checkLinks, Option.isSome_none, Bool.false_eq_true, if_false]
    refine ⟨_, hread, rfl, rfl, rfl, ?_⟩
    intro key
    ext i
    have hnew := indexNodes_ok hindex key i
    rw [hinvariant.index, hnew]
    simp [Mcts.keyOf]
  · intro persisted path t hread hfinite
    obtain ⟨hroot, hnodes, -⟩ := fromPersisted_cases hread
    have hconfig := config_fromPersisted hread
    have hwritten : t.nodes.map PersistedNode.fromNode = persisted.nodes := by
      have hcell : ∀ node ∈ persisted.nodes,
          (PersistedNode.fromNode ∘ PersistedNode.intoNode) node = node :=
        fun node hmem => fromNode_intoNode (hfinite node hmem)
      rw [hnodes, List.map_map, List.map_congr_left hcell, List.map_id']
    rw [Mcts.toPersisted, hroot, hconfig, hwritten]

/-- One visited child, one that is not visited, and a call that fails. -/
def visitedCalls : List (TreeCall (WithBot ℚ)) :=
  [.ensureChild "root" "a", .ensureChild "root" "b", .backpropagatePath ["root", "a"] 1,
    .backpropagatePath ["a", "b"] 1]

theorem persisted_round_trip_visited :
    (∃ t', fromPersisted (reached (fun t call => some (Mcts.call t call))
        (Mcts.fresh "root" unitConfig none) visitedCalls).toPersisted none = .ok t' ∧
      t'.nodes.map (fun node => (node.visits, node.bestReward)) =
        [(1, 1), (2, 1), (0, ⊥)]) ∧
    ∃ t, fromPersisted pair none = .ok t ∧ t.toPersisted = pair := by
  have hround := @persisted_round_trip (WithBot ℚ) _ _ "root" unitConfig none
  have run : TreeRun "root" unitConfig none (trace _ _ visitedCalls)
    (reached _ _ visitedCalls) := Run.of_labels rfl
  constructor
  · obtain ⟨t', hread, -, -, hnodes, -⟩ := hround.1 _ _ run (by decide) none
    refine ⟨t', hread, ?_⟩
    rw [hnodes]
    decide
  · have haccepted : ∃ t, fromPersisted pair none = .ok t := ⟨_, rfl⟩
    obtain ⟨t, ht⟩ := haccepted
    exact ⟨t, ht, hround.2 pair none t ht (by decide)⟩

end ManInTheBox.Search
