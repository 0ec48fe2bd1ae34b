import ManInTheBox.Search.TreeInvariant

/-! # Trees read back from disk

`Mcts::from_persisted` checks every node of a persisted tree against its
neighbours. What it accepts has mutual links and a correct key index; it is a tree
exactly when, besides, no child is listed twice, only the root has no parent, and
no chain of parents returns.
-/

namespace ManInTheBox.Search

open Library

variable {ρ : Type}

structure PersistedNode (ρ : Type) where
  key : String
  parent : Option ℕ
  children : List ℕ
  visits : ℕ
  rewardSum : ρ
  bestReward : Option ρ
  deriving DecidableEq

structure PersistedMcts (ρ : Type) where
  config : MctsConfig ρ
  root : ℕ
  nodes : List (PersistedNode ρ)
  deriving DecidableEq

section

variable [F64 ρ]

def PersistedNode.intoNode (node : PersistedNode ρ) : Node ρ where
  key := node.key
  parent := node.parent
  children := node.children
  visits := node.visits
  rewardSum := node.rewardSum
  bestReward := node.bestReward.getD F64.negInfinity

/-- The first loop of `from_persisted`: the statistics, and the key index. -/
def indexNodes : (index : ℕ) → (indexByKey : Table String ℕ) → List (Node ρ) →
    Except String (Table String ℕ)
  | _, indexByKey, [] => .ok indexByKey
  | index, indexByKey, node :: nodes =>
    if !F64.isFinite node.rewardSum then
      .error ("persisted MCTS node `" ++ node.key ++ "` had non-finite reward sum")
    else if !F64.isFinite node.bestReward && !F64.eq node.bestReward F64.negInfinity then
      .error ("persisted MCTS node `" ++ node.key ++ "` had invalid best reward")
    else if node.key ∈ indexByKey then
      .error ("persisted MCTS tree had duplicate node key `" ++ node.key ++ "`")
    else indexNodes (index + 1) (indexByKey.insert node.key index) nodes

end

/-- The parent of a node must exist and list it. -/
def checkParent (nodes : List (Node ρ)) (index : ℕ) (node : Node ρ) : Except String Unit :=
  match node.parent with
  | none => .ok ()
  | some parent =>
    match nodes[parent]? with
    | none =>
      .error ("persisted MCTS node `" ++ node.key ++ "` referenced parent index " ++
        toString parent ++ " out of bounds")
    | some parentNode =>
      if index ∈ parentNode.children then .ok ()
      else .error ("persisted MCTS parent-child relationship missing for `" ++ node.key ++ "`")

/-- The children of a node must exist and point back to it. -/
def checkChildren (nodes : List (Node ρ)) (index : ℕ) (node : Node ρ) :
    List ℕ → Except String Unit
  | [] => .ok ()
  | child :: children =>
    match nodes[child]? with
    | none =>
      .error ("persisted MCTS node `" ++ node.key ++ "` referenced child index " ++
        toString child ++ " out of bounds")
    | some childNode =>
      if childNode.parent ≠ some index then
        .error ("persisted MCTS child-parent mismatch for `" ++ node.key ++ "` -> `" ++
          childNode.key ++ "`")
      else checkChildren nodes index node children

/-- The second loop of `from_persisted`. -/
def checkLinks (nodes : List (Node ρ)) : (index : ℕ) → List (Node ρ) → Except String Unit
  | _, [] => .ok ()
  | index, node :: rest =>
    match checkParent nodes index node with
    | .error error => .error error
    | .ok _ =>
      match checkChildren nodes index node node.children with
      | .error error => .error error
      | .ok _ => checkLinks nodes (index + 1) rest

def fromPersisted [F64 ρ] (persisted : PersistedMcts ρ) (persistencePath : Option String) :
    Except String (Mcts ρ) :=
  let nodes := persisted.nodes.map PersistedNode.intoNode
  match nodes[persisted.root]? with
  | none =>
    if nodes.isEmpty then .error "persisted MCTS tree had no nodes"
    else .error ("persisted MCTS root index " ++ toString persisted.root ++
      " was out of bounds for " ++ toString nodes.length ++ " nodes")
  | some root =>
    if root.parent.isSome then .error "persisted MCTS root node had a parent"
    else
      match indexNodes 0 ∅ nodes with
      | .error error => .error error
      | .ok indexByKey =>
        match checkLinks nodes 0 nodes with
        | .error error => .error error
        | .ok _ => .ok ⟨persisted.config, persisted.root, nodes, indexByKey, persistencePath⟩

/-! ## What the loops check -/

theorem indexNodes_ok [F64 ρ] {nodes : List (Node ρ)} {index : ℕ}
    {indexByKey indexByKey' : Table String ℕ}
    (h : indexNodes index indexByKey nodes = .ok indexByKey') (key : String) (i : ℕ) :
    indexByKey'.lookup key = some i ↔ indexByKey.lookup key = some i ∨
      ∃ j, nodes[j]?.map Node.key = some key ∧ i = index + j := by
  induction nodes generalizing index indexByKey with
  | nil =>
    obtain rfl := Except.ok.inj h
    simp
  | cons node nodes ih =>
    rw [indexNodes] at h
    split_ifs at h with hsum hbest hmem
    rw [ih h, Table.lookup_insert_ite]
    have hnew := AList.lookup_eq_none.mpr hmem
    have hsplit : (∃ j, (node :: nodes)[j]?.map Node.key = some key ∧ i = index + j) ↔
        (node.key = key ∧ i = index) ∨
          ∃ j, nodes[j]?.map Node.key = some key ∧ i = index + 1 + j := by
      constructor
      · rintro ⟨j, hkey, hj⟩
        cases j with
        | zero => exact .inl ⟨by simpa using hkey, hj⟩
        | succ j => exact .inr ⟨j, by simpa using hkey, by omega⟩
      · rintro (⟨hkey, hi⟩ | ⟨j, hkey, hj⟩)
        · exact ⟨0, by simpa using hkey, hi⟩
        · exact ⟨j + 1, by simpa using hkey, by omega⟩
    rw [hsplit]
    by_cases hkey : key = node.key
    · subst hkey
      simp [hnew, eq_comm]
    · simp [hkey, Ne.symm hkey]

theorem checkParent_ok {nodes : List (Node ρ)} {index : ℕ} {node : Node ρ}
    (h : checkParent nodes index node = .ok ()) {p : ℕ} (hp : node.parent = some p) :
    ∃ parentNode, nodes[p]? = some parentNode ∧ index ∈ parentNode.children := by
  simp only [checkParent, hp] at h
  split at h
  · cases h
  · rename_i parentNode hparent
    split_ifs at h with hmem
    exact ⟨parentNode, hparent, hmem⟩

theorem checkChildren_ok {nodes : List (Node ρ)} {index : ℕ} {node : Node ρ}
    {children : List ℕ} (h : checkChildren nodes index node children = .ok ()) :
    ∀ child ∈ children, ∃ childNode, nodes[child]? = some childNode ∧
      childNode.parent = some index := by
  induction children with
  | nil => simp
  | cons child children ih =>
    rw [checkChildren] at h
    split at h
    · cases h
    · rename_i childNode hchild
      split_ifs at h with hparent
      intro child' hmem
      rcases List.mem_cons.mp hmem with rfl | hmem
      · exact ⟨childNode, hchild, not_not.mp hparent⟩
      · exact ih h child' hmem

theorem checkLinks_ok {nodes rest : List (Node ρ)} {index : ℕ}
    (h : checkLinks nodes index rest = .ok ()) {j : ℕ} {node : Node ρ}
    (hnode : rest[j]? = some node) :
    checkParent nodes (index + j) node = .ok () ∧
      checkChildren nodes (index + j) node node.children = .ok () := by
  induction rest generalizing index j with
  | nil => cases hnode
  | cons head rest ih =>
    rw [checkLinks] at h
    split at h
    · cases h
    · rename_i hparent
      split at h
      · cases h
      · rename_i hchildren
        cases j with
        | zero =>
          obtain rfl := Option.some.inj hnode
          exact ⟨hparent, hchildren⟩
        | succ j =>
          have hrest := ih h (by simpa using hnode)
          rwa [Nat.add_assoc, Nat.add_comm 1 j] at hrest

/-- Links that pass the checks are mutual and within bounds. -/
theorem links_of_checkLinks {t : Mcts ρ} (h : checkLinks t.nodes 0 t.nodes = .ok ()) (i p : ℕ) :
    (i ∈ t.childrenOf p ↔ t.parentOf i = some p) ∧
      (t.parentOf i = some p → p < t.nodes.length) := by
  have hup (hp : t.parentOf i = some p) :
      ∃ parentNode, t.nodes[p]? = some parentNode ∧ i ∈ parentNode.children := by
    obtain ⟨node, hnode, hparent⟩ := Option.bind_eq_some_iff.mp hp
    have hchecked := (checkLinks_ok h hnode).1
    rw [Nat.zero_add] at hchecked
    exact checkParent_ok hchecked hparent
  refine ⟨⟨?_, ?_⟩, ?_⟩
  · intro hmem
    cases hnode : t.nodes[p]? with
    | none => simp [Mcts.childrenOf, hnode] at hmem
    | some node =>
      rw [Mcts.childrenOf_of_getElem? hnode] at hmem
      have hchecked := (checkLinks_ok h hnode).2
      rw [Nat.zero_add] at hchecked
      obtain ⟨childNode, hchild, hparent⟩ := checkChildren_ok hchecked i hmem
      rw [Mcts.parentOf_of_getElem? hchild, hparent]
  · intro hp
    obtain ⟨parentNode, hparentNode, hmem⟩ := hup hp
    rwa [Mcts.childrenOf_of_getElem? hparentNode]
  · intro hp
    obtain ⟨parentNode, hparentNode, -⟩ := hup hp
    exact (List.getElem?_eq_some_iff.mp hparentNode).1

/-! ## Accepted trees -/

section Accepted

variable [F64 ρ] {persisted : PersistedMcts ρ} {persistencePath : Option String} {t : Mcts ρ}

/-- A tree that is returned has passed all checks. -/
theorem fromPersisted_cases (h : fromPersisted persisted persistencePath = .ok t) :
    t.root = persisted.root ∧ t.nodes = persisted.nodes.map PersistedNode.intoNode ∧
      (∃ root, t.nodes[t.root]? = some root ∧ root.parent = none) ∧
      indexNodes 0 ∅ t.nodes = .ok t.indexByKey ∧ checkLinks t.nodes 0 t.nodes = .ok () := by
  simp only [fromPersisted] at h
  split at h
  · split_ifs at h
  · rename_i root hroot
    split_ifs at h with hparent
    split at h
    · cases h
    · rename_i indexByKey hindex
      split at h
      · cases h
      · rename_i hlinks
        obtain rfl := Except.ok.inj h
        exact ⟨rfl, rfl, ⟨root, hroot, by simpa using hparent⟩, hindex, hlinks⟩

/-- The parent link of a persisted node; nothing out of bounds. -/
def PersistedMcts.parentOf (persisted : PersistedMcts ρ) (i : ℕ) : Option ℕ :=
  persisted.nodes[i]?.bind PersistedNode.parent

/-- No child is listed twice, only the root has no parent, and no chain of parents returns. -/
structure PersistedMcts.IsTree (persisted : PersistedMcts ρ) : Prop where
  nodup : ∀ node ∈ persisted.nodes, node.children.Nodup
  oneRoot : ∀ i < persisted.nodes.length, persisted.parentOf i = none → i = persisted.root
  acyclic : Acyclic persisted.parentOf

theorem parentOf_fromPersisted (h : fromPersisted persisted persistencePath = .ok t) :
    t.parentOf = persisted.parentOf := by
  obtain ⟨-, hnodes, -⟩ := fromPersisted_cases h
  funext i
  rw [Mcts.parentOf, PersistedMcts.parentOf, hnodes, List.getElem?_map]
  cases persisted.nodes[i]? <;> rfl

omit [F64 ρ] in
/-- In a tree only the root has no parent. -/
theorem TreeInvariant.root_of_parentless (h : TreeInvariant t) {i : ℕ} (hi : i < t.nodes.length)
    (hparent : t.parentOf i = none) : i = t.root := by
  obtain ⟨path, chain, -⟩ := h.chain i hi
  cases chain with
  | root => rfl
  | child chain link =>
    rw [hparent] at link
    cases link

omit [F64 ρ] in
/-- In a tree no chain of parents returns. -/
theorem TreeInvariant.acyclic (h : TreeInvariant t) : Acyclic t.parentOf := by
  intro i hcycle
  obtain ⟨p, -, hlink⟩ := Relation.TransGen.tail'_iff.mp hcycle
  obtain ⟨path, chain, -⟩ := h.chain i (Mcts.lt_of_parentOf hlink)
  exact chain.no_return h.root hcycle

/-- Index, parents and children fit together in whatever `from_persisted` accepts. -/
theorem linked_fromPersisted (h : fromPersisted persisted persistencePath = .ok t) : Linked t := by
  obtain ⟨-, -, ⟨root, hroot, hparentless⟩, hindex, hchecked⟩ := fromPersisted_cases h
  constructor
  · intro key i
    rw [indexNodes_ok hindex]
    simp [Mcts.keyOf]
  · exact (List.getElem?_eq_some_iff.mp hroot).1
  · rw [Mcts.parentOf_of_getElem? hroot, hparentless]
  · exact fun i p => (links_of_checkLinks hchecked i p).1

/-- Of what `from_persisted` accepts, exactly the persisted trees satisfy the invariant. -/
theorem fromPersisted_tree_iff (h : fromPersisted persisted persistencePath = .ok t) :
    TreeInvariant t ↔ persisted.IsTree := by
  obtain ⟨hroot, hnodes, -, -, hchecked⟩ := fromPersisted_cases h
  have hparent := parentOf_fromPersisted h
  have hlength : t.nodes.length = persisted.nodes.length := by rw [hnodes, List.length_map]
  constructor
  · intro htree
    constructor
    · intro node hmem
      obtain ⟨i, hi⟩ := List.mem_iff_getElem?.mp hmem
      have hnode : t.nodes[i]? = some node.intoNode := by rw [hnodes, List.getElem?_map, hi]; rfl
      have hnodup := htree.nodup i
      rwa [Mcts.childrenOf_of_getElem? hnode] at hnodup
    · intro i hi hnone
      rw [← hroot]
      exact htree.root_of_parentless (hlength ▸ hi) (by rw [hparent, hnone])
    · rw [← hparent]
      exact htree.acyclic
  · intro htree
    have hlinked := linked_fromPersisted h
    refine ⟨hlinked.index, hlinked.root_lt, hlinked.root, hlinked.links, ?_, ?_⟩
    · intro p
      cases hnode : t.nodes[p]? with
      | none => simp [Mcts.childrenOf, hnode]
      | some node =>
        rw [Mcts.childrenOf_of_getElem? hnode]
        have hmem := List.mem_of_getElem? hnode
        rw [hnodes] at hmem
        obtain ⟨persistedNode, hpersisted, rfl⟩ := List.mem_map.mp hmem
        exact htree.nodup persistedNode hpersisted
    · intro i hi
      apply ParentChain.existsUnique hlinked.root
      have hacyclic : Acyclic t.parentOf := hparent ▸ htree.acyclic
      apply hacyclic.exists_chain (Set.finite_lt_nat t.nodes.length)
      · intro j hj hne
        cases hlink : t.parentOf j with
        | none =>
          rw [hparent] at hlink
          exact absurd ((htree.oneRoot j (hlength ▸ hj) hlink).trans hroot.symm) hne
        | some p => exact ⟨p, (links_of_checkLinks hchecked j p).2 hlink, rfl⟩
      · exact hi

end Accepted

/-- A root with one child that is listed once. -/
def pair : PersistedMcts (WithBot ℚ) where
  config := unitConfig
  root := 0
  nodes := [⟨"root", none, [1], 1, 1, some 1⟩, ⟨"a", some 0, [], 1, 1, some 1⟩]

/-- The same nodes, and two more that are each other's parent. -/
def detachedCycle : PersistedMcts (WithBot ℚ) where
  config := unitConfig
  root := 0
  nodes := pair.nodes ++
    [⟨"b", some 3, [3], 0, 0, none⟩, ⟨"c", some 2, [2], 0, 0, none⟩]

theorem fromPersisted_tree_iff_pair : ∃ t, fromPersisted pair none = .ok t ∧ TreeInvariant t := by
  have haccepted : ∃ t, fromPersisted pair none = .ok t := ⟨_, rfl⟩
  obtain ⟨t, ht⟩ := haccepted
  refine ⟨t, ht, (fromPersisted_tree_iff ht).mpr ?_⟩
  constructor
  · decide
  · decide
  · apply Acyclic.of_lt
    intro p i hlink
    rcases i with _ | _ | i
    · cases hlink
    · obtain rfl := Option.some.inj hlink
      decide
    · cases hlink

theorem fromPersisted_accepts_cycle :
    ¬ ∀ (persisted : PersistedMcts (WithBot ℚ)) t,
      fromPersisted persisted none = .ok t → TreeInvariant t := by
  intro hall
  have haccepted : ∃ t, fromPersisted detachedCycle none = .ok t := ⟨_, rfl⟩
  obtain ⟨t, ht⟩ := haccepted
  have hcycle : Relation.TransGen (IsParent t.parentOf) 2 2 := by
    rw [parentOf_fromPersisted ht]
    exact .tail (.single (show IsParent _ 2 3 from rfl)) rfl
  exact (hall _ _ ht).acyclic 2 hcycle

end ManInTheBox.Search
