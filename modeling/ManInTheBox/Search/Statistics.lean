import ManInTheBox.Search.Selection

/-! # Conserved statistics

Every completed backpropagation goes down one chain from the root, and every node
counts exactly the rewards that went through it. As a chain goes on to at most one
child, the visits of a node are those that ended there and those of its children.
-/

namespace ManInTheBox.Search

open Library

variable {ρ : Type} {t t' : Mcts ρ}

/-! ## Paths stay paths -/

/-- The calls of a search add leaves, one at a time, and record rewards; they leave the keys and
the parents of the nodes that are there. -/
structure Extends (t t' : Mcts ρ) : Prop where
  root : t'.root = t.root
  keyOf : ∀ i key, t.keyOf i = some key → t'.keyOf i = some key
  parentOf : ∀ p i, t.parentOf i = some p → t'.parentOf i = some p

theorem SameShape.extends (h : SameShape t t') : Extends t t' where
  root := h.root
  keyOf i _ hkey := (h.keyOf i).trans hkey
  parentOf _ i hlink := (h.parentOf i).trans hlink

theorem Mcts.PathTo.extends {last : ℕ} {path : List String} (h : t.PathTo last path)
    (hextends : Extends t t') : t'.PathTo last path := by
  obtain ⟨indices, hchain, hkeys⟩ := h
  refine ⟨indices, ?_, ?_⟩
  · rw [hextends.root]
    exact hchain.mono hextends.parentOf
  · rw [← hkeys]
    apply List.map_congr_left
    intro i hi
    obtain ⟨key, -, hkey⟩ := List.mem_map.mp (hkeys ▸ List.mem_map_of_mem hi)
    rw [← hkey, hextends.keyOf i key hkey.symm]

theorem Mcts.IsPath.extends {path : List String} (h : t.IsPath path) (hextends : Extends t t') :
    t'.IsPath path := by
  obtain ⟨last, hlast⟩ := h
  exact ⟨last, hlast.extends hextends⟩

theorem Mcts.IsPath.mem_index {path : List String} (h : t.IsPath path)
    (hinvariant : TreeInvariant t) {key : String} (hkey : key ∈ path) :
    key ∈ t.indexByKey := by
  obtain ⟨last, indices, -, hkeys⟩ := h
  obtain ⟨i, -, hi⟩ := (mem_path_iff hkeys key).mp hkey
  rw [← AList.lookup_isSome, (hinvariant.index key i).mpr hi]
  rfl

/-! ## Rewards recorded along a path -/

section

variable [F64 ρ] {reward : ρ} {path : List String}

/-- Every node on the path has recorded the reward, once, and no other. -/
structure Recorded (t t' : Mcts ρ) (path : List String) (reward : ρ) : Prop where
  shape : SameShape t t'
  nodes : ∀ i : ℕ, t'.nodes[i]? =
    t.nodes[i]?.map fun node : Node ρ => if node.key ∈ path then node.record reward else node

omit [F64 ρ] in
theorem checkSegment_of_link (h : TreeInvariant t) {key : String} {i : ℕ}
    {previous : Option String}
    (hprevious : ∀ previousKey, previous = some previousKey →
      ∃ p, t.keyOf p = some previousKey ∧ t.parentOf i = some p) :
    t.checkSegment key i previous = .ok () := by
  cases previous with
  | none => rfl
  | some previousKey =>
    obtain ⟨p, hkey, hlink⟩ := hprevious previousKey rfl
    have hmem := (h.links i p).mpr hlink
    have hlt := Mcts.lt_of_keyOf hkey
    rw [Mcts.childrenOf_of_getElem? (List.getElem?_eq_getElem hlt)] at hmem
    simp [Mcts.checkSegment, (h.index previousKey p).mpr hkey, List.getElem?_eq_getElem hlt, hmem]

theorem backpropagateFrom_path (h : TreeInvariant t) {indices : List ℕ} {previous : Option String}
    (hkeys : indices.map t.keyOf = path.map some)
    (hchain : indices.IsChain (IsParent t.parentOf)) (hnodup : path.Nodup)
    (hprevious : ∀ previousKey, previous = some previousKey →
      ∃ p, t.keyOf p = some previousKey ∧ ∀ i ∈ indices.head?, t.parentOf i = some p) :
    ∃ t', Mcts.backpropagateFrom reward previous path t = (t', .ok ()) ∧
      Recorded t t' path reward := by
  induction path generalizing t previous indices with
  | nil =>
    refine ⟨t, rfl, .refl t, fun i => ?_⟩
    simp
  | cons key path ih =>
    obtain ⟨i, indices, rfl⟩ := List.exists_cons_of_length_pos (by
      have hlength := congrArg List.length hkeys
      simp at hlength
      omega : 0 < indices.length)
    rw [List.map_cons, List.map_cons, List.cons.injEq] at hkeys
    obtain ⟨hkey, hkeys⟩ := hkeys
    rw [List.nodup_cons] at hnodup
    rw [List.isChain_cons] at hchain
    have hlt := Mcts.lt_of_keyOf hkey
    have hsegment : t.checkSegment key i previous = .ok () := by
      apply checkSegment_of_link h
      intro previousKey hprev
      obtain ⟨p, hp, hlink⟩ := hprevious previousKey hprev
      exact ⟨p, hp, hlink i (by simp)⟩
    have hsame := sameShape_record t i reward
    have hkeyOf : (Mcts.keyOf { t with nodes := t.nodes.modify i (Node.record reward) }) = t.keyOf :=
      funext hsame.keyOf
    have hparentOf : (Mcts.parentOf
        { t with nodes := t.nodes.modify i (Node.record reward) }) = t.parentOf :=
      funext hsame.parentOf
    have hbefore : ∀ previousKey, some key = some previousKey →
        ∃ p, Mcts.keyOf { t with nodes := t.nodes.modify i (Node.record reward) } p =
          some previousKey ∧ ∀ j ∈ indices.head?,
            Mcts.parentOf { t with nodes := t.nodes.modify i (Node.record reward) } j = some p := by
      intro previousKey hprev
      obtain rfl := Option.some.inj hprev
      rw [hkeyOf, hparentOf]
      exact ⟨i, hkey, hchain.1⟩
    obtain ⟨t', hcall, hrecorded⟩ := ih (h.congr hsame) (by rw [hkeyOf, hkeys])
      (by rw [hparentOf]; exact hchain.2) hnodup.2 hbefore
    refine ⟨t', ?_, hsame.trans hrecorded.shape, ?_⟩
    · rw [← hcall, Mcts.backpropagateFrom]
      simp only [(h.index key i).mpr hkey, hsegment, List.getElem?_eq_getElem hlt]
    · intro j
      rw [hrecorded.nodes, List.getElem?_modify]
      cases hnode : t.nodes[j]? with
      | none => simp
      | some node =>
        have hj : t.keyOf j = some node.key := Mcts.keyOf_of_getElem? hnode
        by_cases hij : i = j
        · subst hij
          have hsame : node.key = key := Option.some.inj (hj.symm.trans hkey)
          simp [Node.record, hsame, hnodup.1]
        · have hne : node.key ≠ key := by
            intro hsame
            rw [hsame, ← h.index] at hj
            rw [← h.index] at hkey
            exact hij (Option.some.inj (hkey.symm.trans hj))
          simp [hij, hne]

/-- Along a path a backpropagation completes, unless the reward is refused at once. -/
theorem backpropagatePath_cases (h : TreeInvariant t) (hpath : t.IsPath path) (reward : ρ) :
    (∃ failure, t.backpropagatePath path reward = (t, .error failure)) ∨
      ∃ t', t.backpropagatePath path reward = (t', .ok ()) ∧ Recorded t t' path reward := by
  by_cases hfinite : F64.isFinite reward
  · right
    have hne : path.isEmpty = false := by simpa using hpath.ne_nil
    have hnodup := hpath.nodup h.linked
    obtain ⟨last, indices, hchain, hkeys⟩ := hpath
    rw [Mcts.backpropagatePath, if_neg (by simp [hfinite]), if_neg (by simp [hne])]
    apply backpropagateFrom_path h hkeys hchain.isChain hnodup
    intro previousKey hprevious
    cases hprevious
  · left
    rw [Mcts.backpropagatePath, if_pos (by simp [hfinite])]
    exact ⟨_, rfl⟩

/-! ## What a node has counted -/

/-- A backpropagation that completed. -/
structure Completion (ρ : Type) where
  path : List String
  reward : ρ

/-- The rewards of the completed backpropagations whose path goes through the node. -/
def through (key : String) (completions : List (Completion ρ)) : List ρ :=
  (completions.filter fun c => key ∈ c.path).map Completion.reward

/-- How many completed backpropagations ended at the node. -/
def endedAt (key : String) (completions : List (Completion ρ)) : ℕ :=
  completions.countP fun c => c.path.getLast? = some key

def larger (best reward : ρ) : ρ := if F64.lt best reward then reward else best

/-- The counters of a node that recorded these rewards, in this order. -/
structure Node.Tallies (node : Node ρ) (rewards : List ρ) : Prop where
  visits : node.visits = min rewards.length maxVisits
  rewardSum : node.rewardSum = rewards.foldl F64.add F64.zero
  bestReward : node.bestReward = rewards.foldl larger F64.negInfinity

theorem Node.tallies_new (key : String) (parent : Option ℕ) :
    (Node.new key parent : Node ρ).Tallies [] := by
  constructor <;> simp [Node.new]

theorem Node.Tallies.pushChild {node : Node ρ} {rewards : List ρ} (h : node.Tallies rewards)
    (child : ℕ) : (node.pushChild child).Tallies rewards :=
  ⟨h.visits, h.rewardSum, h.bestReward⟩

theorem Node.Tallies.record {node : Node ρ} {rewards : List ρ} (h : node.Tallies rewards)
    (reward : ρ) : (node.record reward).Tallies (rewards ++ [reward]) := by
  constructor
  · have hvisits : (node.record reward).visits = min (node.visits + 1) maxVisits := rfl
    rw [hvisits, h.visits, List.length_append, List.length_singleton]
    omega
  · rw [Node.record, h.rewardSum, List.foldl_append]
    rfl
  · rw [Node.record, h.bestReward, List.foldl_append]
    rfl

omit [F64 ρ] in
theorem through_append (key : String) (completions : List (Completion ρ)) (c : Completion ρ) :
    through key (completions ++ [c]) =
      through key completions ++ if key ∈ c.path then [c.reward] else [] := by
  rw [through, List.filter_append, List.map_append, through]
  by_cases hkey : key ∈ c.path <;> simp [hkey]

/-- Every node has counted the completed backpropagations, all of which went down a path. -/
structure Tallied (t : Mcts ρ) (completions : List (Completion ρ)) : Prop where
  invariant : TreeInvariant t
  paths : ∀ c ∈ completions, t.IsPath c.path
  tallies : ∀ (i : ℕ) node, t.nodes[i]? = some node → node.Tallies (through node.key completions)

theorem through_of_new {completions : List (Completion ρ)} (h : Tallied t completions)
    {key : String} (hnew : t.indexByKey.lookup key = none) : through key completions = [] := by
  rw [through, List.map_eq_nil_iff, List.filter_eq_nil_iff]
  intro c hc
  have hmem : key ∉ c.path := fun hkey =>
    AList.lookup_eq_none.mp hnew ((h.paths c hc).mem_index h.invariant hkey)
  simpa using hmem

theorem extends_grow {parent : ℕ} {childKey : String} (hlt : parent < t.nodes.length) :
    Extends t (t.grow parent childKey) where
  root := rfl
  keyOf i key hkey := by rwa [keyOf_grow hlt, if_neg (Mcts.lt_of_keyOf hkey).ne]
  parentOf p i hlink := by rwa [parentOf_grow hlt, if_neg (Mcts.lt_of_parentOf hlink).ne]

theorem Tallied.grow {completions : List (Completion ρ)} (h : Tallied t completions)
    {parent : ℕ} {childKey : String} (hlt : parent < t.nodes.length)
    (hnew : t.indexByKey.lookup childKey = none) : Tallied (t.grow parent childKey) completions where
  invariant := h.invariant.grow hlt hnew
  paths c hc := (h.paths c hc).extends (extends_grow hlt)
  tallies i node hnode := by
    rw [getElem?_grow hlt] at hnode
    split_ifs at hnode
    · obtain rfl := Option.some.inj hnode
      rw [Node.new, through_of_new h hnew]
      exact Node.tallies_new childKey (some parent)
    · obtain ⟨old, hold, rfl⟩ := Option.map_eq_some_iff.mp hnode
      exact (h.tallies i old hold).pushChild _
    · exact h.tallies i node hnode

theorem Tallied.record {completions : List (Completion ρ)} (h : Tallied t completions)
    (hpath : t.IsPath path) (hrecorded : Recorded t t' path reward) :
    Tallied t' (completions ++ [⟨path, reward⟩]) where
  invariant := h.invariant.congr hrecorded.shape
  paths c hc := by
    rcases List.mem_append.mp hc with hold | hlast
    · exact (h.paths c hold).extends hrecorded.shape.extends
    · rw [List.mem_singleton.mp hlast]
      exact hpath.extends hrecorded.shape.extends
  tallies i node hnode := by
    rw [hrecorded.nodes] at hnode
    obtain ⟨old, hold, rfl⟩ := Option.map_eq_some_iff.mp hnode
    have htallies := h.tallies i old hold
    by_cases hkey : old.key ∈ path
    · rw [if_pos hkey, Node.record, through_append, if_pos hkey]
      exact htallies.record reward
    · rw [if_neg hkey, through_append, if_neg hkey, List.append_nil]
      exact htallies

/-! ## The calls of a search -/

/-- After a successful `ensure_child` the child hangs under its parent. -/
theorem ensureChild_ok (h : TreeInvariant t) {parentKey childKey : String}
    (hcall : t.ensureChild parentKey childKey = (t', .ok ())) {parent : ℕ}
    (hparent : t.keyOf parent = some parentKey) :
    ∃ child node, t'.nodes[child]? = some node ∧ node.key = childKey ∧
      t'.parentOf child = some parent := by
  have hlookup := (h.index parentKey parent).mpr hparent
  have hlt := Mcts.lt_of_keyOf hparent
  rcases ensureChild_cases h.linked hcall with ⟨rfl, -⟩ | ⟨-, p, hp, hfound, -, rfl⟩
  · rw [Mcts.ensureChild, hlookup] at hcall
    simp only at hcall
    cases hchild : t'.indexByKey.lookup childKey with
    | none =>
      have happend : (t'.nodes ++ [Node.new childKey (some parent)])[parent]? =
          some t'.nodes[parent] := by
        rw [List.getElem?_append_left hlt, List.getElem?_eq_getElem hlt]
      simp only [hchild, happend] at hcall
      have hlength := congrArg List.length (congrArg Mcts.nodes (Prod.mk.inj hcall).1)
      simp at hlength
    | some child =>
      have hkey := (h.index childKey child).mp hchild
      obtain ⟨node, hnode, hnodeKey⟩ := Option.map_eq_some_iff.mp hkey
      refine ⟨child, node, hnode, hnodeKey, ?_⟩
      rw [Mcts.parentOf_of_getElem? hnode]
      simp only [hchild, hnode] at hcall
      split_ifs at hcall with hunder
      · cases (Prod.mk.inj hcall).2
      · exact not_not.mp hunder
  · obtain rfl := Option.some.inj (hfound.symm.trans hlookup)
    refine ⟨t.nodes.length, Node.new childKey (some p), ?_, rfl, ?_⟩
    · rw [getElem?_grow hp, if_pos rfl]
    · rw [parentOf_grow hp, if_pos rfl]

theorem Tallied.ensureChild {completions : List (Completion ρ)} (h : Tallied t completions)
    {parentKey childKey : String} {result : Except Failure Unit}
    (hcall : t.ensureChild parentKey childKey = (t', result)) :
    Tallied t' completions ∧ Extends t t' := by
  rcases ensureChild_cases h.invariant.linked hcall with ⟨rfl, -⟩ | ⟨-, parent, hlt, -, hnew, rfl⟩
  · exact ⟨h, rfl, fun _ _ hkey => hkey, fun _ _ hlink => hlink⟩
  · exact ⟨h.grow hlt hnew, extends_grow hlt⟩

end

/-! ## The pending path -/

section

variable [F64 ρ] [FloatMath ρ] {s s' : PendingTreeSearch ρ} {path : List String}

/-- The backpropagation that a call completes, if it does. -/
def PendingTreeSearch.completion (s : PendingTreeSearch ρ) : SearchCall ρ → Option (Completion ρ)
  | .backpropagateAndSelect currentKey reward _ =>
    match s.backpropagationPath currentKey with
    | (_, .error _) => none
    | (s, .ok path) =>
      match s.tree.backpropagatePath path reward with
      | (_, .error _) => none
      | (_, .ok _) => some ⟨path, reward⟩
  | .selectNext _ => none
  | .ensureChild _ _ => none

/-- The completed backpropagations of a run, oldest first. -/
def completions (history : List (SearchTransition ρ)) : List (Completion ρ) :=
  history.filterMap fun u => u.source.completion u.label

/-- The tree has counted all completed backpropagations, and what is pending is a path. -/
structure Conserved (s : PendingTreeSearch ρ) (completions : List (Completion ρ)) : Prop where
  tallied : Tallied s.tree completions
  pending : ∀ path, s.pendingSelectionPath = some path → s.tree.IsPath path

omit [FloatMath ρ] in
theorem Conserved.of_extends {tree : Mcts ρ} {completions completions' : List (Completion ρ)}
    (h : Conserved s completions) (htallied : Tallied tree completions')
    (hextends : Extends s.tree tree) : Conserved { s with tree := tree } completions' :=
  ⟨htallied, fun path hpath => (h.pending path hpath).extends hextends⟩

theorem Conserved.select {completions : List (Completion ρ)} (h : Conserved s completions)
    {maxDepth : ℕ} {result : Except Failure SelectionStep}
    (hcall : s.select maxDepth path = (s', result)) : Conserved s' completions := by
  rw [PendingTreeSearch.select] at hcall
  split at hcall
  · obtain ⟨rfl, -⟩ := Prod.mk.inj hcall
    exact h
  · rename_i selectedPath hselected
    split at hcall
    · obtain ⟨rfl, -⟩ := Prod.mk.inj hcall
      exact h
    · obtain ⟨rfl, -⟩ := Prod.mk.inj hcall
      refine ⟨h.tallied, fun path hpath => ?_⟩
      obtain rfl := Option.some.inj hpath
      exact Mcts.selectPath_ok h.tallied.invariant.linked hselected

omit [FloatMath ρ] in
theorem Conserved.extendPath {completions : List (Completion ρ)} (h : Conserved s completions)
    (hpath : s.tree.IsPath path) {parent currentKey : String} (hlast : path.getLast? = some parent)
    {result : Except Failure (List String)}
    (hcall : s.extendPath path parent currentKey = (s', result)) :
    Conserved s' completions ∧ ∀ path', result = .ok path' → s'.tree.IsPath path' := by
  rw [PendingTreeSearch.extendPath] at hcall
  split_ifs at hcall
  · obtain ⟨rfl, rfl⟩ := Prod.mk.inj hcall
    refine ⟨h, fun path' hresult => ?_⟩
    obtain rfl := Except.ok.inj hresult
    exact hpath
  · split at hcall
    · rename_i tree failure hensure
      obtain ⟨rfl, rfl⟩ := Prod.mk.inj hcall
      obtain ⟨htallied, hextends⟩ := h.tallied.ensureChild hensure
      exact ⟨h.of_extends htallied hextends, fun path' hresult => by cases hresult⟩
    · rename_i tree _ hensure
      obtain ⟨rfl, rfl⟩ := Prod.mk.inj hcall
      obtain ⟨htallied, hextends⟩ := h.tallied.ensureChild hensure
      refine ⟨h.of_extends htallied hextends, fun path' hresult => ?_⟩
      obtain rfl := Except.ok.inj hresult
      obtain ⟨last, hto⟩ := hpath
      have hparent : s.tree.keyOf last = some parent := hto.getLast?.trans hlast
      obtain ⟨child, node, hnode, rfl, hlink⟩ := ensureChild_ok h.tallied.invariant hensure hparent
      exact ⟨child, (hto.extends hextends).child hlink hnode⟩

omit [FloatMath ρ] in
theorem Conserved.backpropagationPath {completions : List (Completion ρ)}
    (h : Conserved s completions) {currentKey : String} {result : Except Failure (List String)}
    (hcall : s.backpropagationPath currentKey = (s', result)) :
    Conserved s' completions ∧ ∀ path', result = .ok path' → s'.tree.IsPath path' := by
  rw [PendingTreeSearch.backpropagationPath] at hcall
  split at hcall
  · rename_i previousPath hpending
    split at hcall
    · obtain ⟨rfl, rfl⟩ := Prod.mk.inj hcall
      exact ⟨h, fun path' hresult => by cases hresult⟩
    · rename_i parent hlast
      exact h.extendPath (h.pending previousPath hpending) hlast hcall
  · split at hcall
    · obtain ⟨rfl, rfl⟩ := Prod.mk.inj hcall
      exact ⟨h, fun path' hresult => by cases hresult⟩
    · rename_i root hroot
      rw [Mcts.rootKey, bind_eq_ok] at hroot
      obtain ⟨node, hnode, hkey⟩ := hroot
      obtain rfl := Except.ok.inj hkey
      exact h.extendPath ⟨_, Mcts.pathTo_root (Mcts.node_ok hnode)⟩ rfl hcall

theorem Conserved.call {completions : List (Completion ρ)} (h : Conserved s completions)
    {call : SearchCall ρ} {reply : SearchReply} (hcall : s.call call = (s', reply)) :
    Conserved s' (completions ++ (s.completion call).toList) := by
  cases call with
  | selectNext maxDepth =>
    obtain ⟨rfl, -⟩ := Prod.mk.inj hcall
    rw [PendingTreeSearch.completion, Option.toList_none, List.append_nil]
    exact h.select rfl
  | ensureChild parentKey childKey =>
    obtain ⟨rfl, -⟩ := Prod.mk.inj hcall
    obtain ⟨htallied, hextends⟩ := h.tallied.ensureChild
      (Prod.eta (s.tree.ensureChild parentKey childKey)).symm
    rw [PendingTreeSearch.completion, Option.toList_none, List.append_nil]
    exact h.of_extends htallied hextends
  | backpropagateAndSelect currentKey reward maxDepth =>
    rw [PendingTreeSearch.call, PendingTreeSearch.backpropagateAndSelect] at hcall
    rw [PendingTreeSearch.completion]
    rcases hfirst : s.backpropagationPath currentKey with ⟨s₁, failure | path⟩
    · simp only [hfirst] at hcall
      obtain ⟨rfl, -⟩ := Prod.mk.inj hcall
      simpa using (h.backpropagationPath hfirst).1
    · obtain ⟨hfound, hpath⟩ := h.backpropagationPath hfirst
      rcases backpropagatePath_cases hfound.tallied.invariant (hpath path rfl) reward with
        ⟨failure, hrefused⟩ | ⟨tree, hcompleted, hrecorded⟩
      · simp only [hfirst, hrefused] at hcall
        obtain ⟨rfl, -⟩ := Prod.mk.inj hcall
        simpa [hrefused] using hfound
      · simp only [hfirst, hcompleted] at hcall
        obtain ⟨rfl, -⟩ := Prod.mk.inj hcall
        have hrecord := hfound.of_extends (hfound.tallied.record (hpath path rfl) hrecorded)
          hrecorded.shape.extends
        have hselect : Conserved (PendingTreeSearch.select { s₁ with tree := tree } maxDepth path).1
            (completions ++ [⟨path, reward⟩]) := hrecord.select rfl
        simpa [hcompleted] using hselect

theorem conserved_of_run {rootKey : String} {config : MctsConfig ρ}
    {persistencePath : Option String} {history : List (SearchTransition ρ)}
    (run : SearchRun rootKey config persistencePath history s) :
    Conserved s (completions history) := by
  apply run.historyInvariant fun history s => Conserved s (completions history)
  · refine ⟨⟨invariant_fresh rootKey config persistencePath, by simp [completions], ?_⟩, ?_⟩
    · intro i node hnode
      have hnew : node = Node.new rootKey none :=
        List.mem_singleton.mp (List.mem_of_getElem? hnode)
      rw [hnew]
      exact Node.tallies_new rootKey none
    · intro path hpath
      cases hpath
  · intro history s call s' reply _ h taken
    have hstep := h.call (Option.some.inj taken)
    rw [completions, List.filterMap_append]
    cases hcompletion : s.completion call with
    | none => simpa [completions, hcompletion] using hstep
    | some c => simpa [completions, hcompletion] using hstep

end

/-! ## Conservation -/

def Mcts.visitsOf (t : Mcts ρ) (i : ℕ) : ℕ := (t.nodes[i]?.map Node.visits).getD 0

/-- How many completed backpropagations went through the node at an index. -/
def Mcts.throughCount (t : Mcts ρ) (completions : List (Completion ρ)) (i : ℕ) : ℕ :=
  (through ((t.keyOf i).getD "") completions).length

theorem length_through_cons (key : String) (c : Completion ρ) (completions : List (Completion ρ)) :
    (through key (c :: completions)).length =
      (if key ∈ c.path then 1 else 0) + (through key completions).length := by
  by_cases hkey : key ∈ c.path
  · simp [through, hkey, Nat.add_comm]
  · simp [through, hkey]

theorem endedAt_cons (key : String) (c : Completion ρ) (completions : List (Completion ρ)) :
    endedAt key (c :: completions) =
      (if c.path.getLast? = some key then 1 else 0) + endedAt key completions := by
  simp [endedAt, List.countP_cons, Nat.add_comm]

/-- One path through a node ends there, or goes on to one of its children. -/
theorem Mcts.IsPath.through_children {path : List String} (hpath : t.IsPath path)
    (h : TreeInvariant t) {v : ℕ} {key : String} (hkey : t.keyOf v = some key) :
    (if key ∈ path then 1 else 0) = (if path.getLast? = some key then 1 else 0) +
      ((t.childrenOf v).map fun c => if (t.keyOf c).getD "" ∈ path then 1 else 0).sum := by
  obtain ⟨last, hto⟩ := hpath
  have hlast : path.getLast? = some key ↔ last = v := by
    rw [← hto.getLast?]
    constructor
    · intro hend
      rw [← h.index] at hend hkey
      exact Option.some.inj (hend.symm.trans hkey)
    · rintro rfl
      exact hkey
  obtain ⟨indices, hchain, hkeys⟩ := hto
  have hchildren : ((t.childrenOf v).map fun c => if (t.keyOf c).getD "" ∈ path then 1 else 0) =
      (t.childrenOf v).map fun c => if c ∈ indices then 1 else 0 := by
    apply List.map_congr_left
    intro c hc
    have hlt := Mcts.lt_of_parentOf ((h.links c v).mp hc)
    have hchild : t.keyOf c = some t.nodes[c].key :=
      Mcts.keyOf_of_getElem? (List.getElem?_eq_getElem hlt)
    simp [hchild, h.linked.mem_path hkeys hchild]
  simp only [hchildren, h.linked.mem_path hkeys hkey, hlast]
  exact hchain.count_through h.root (h.nodup v) fun c => h.links c v

/-- Of the backpropagations through a node, each ended there or went on to one of its children. -/
theorem throughCount_children (h : TreeInvariant t) {completions : List (Completion ρ)}
    (hpaths : ∀ c ∈ completions, t.IsPath c.path) {v : ℕ} {key : String}
    (hkey : t.keyOf v = some key) :
    (through key completions).length = endedAt key completions +
      ((t.childrenOf v).map (t.throughCount completions)).sum := by
  induction completions with
  | nil =>
    have hnone : t.throughCount ([] : List (Completion ρ)) = fun _ => 0 := rfl
    simp [through, endedAt, hnone]
  | cons c completions ih =>
    have hone := (hpaths c (List.mem_cons_self ..)).through_children h hkey
    have hrest := ih fun c' hc' => hpaths c' (List.mem_cons_of_mem _ hc')
    have hsplit : ((t.childrenOf v).map (t.throughCount (c :: completions))).sum =
        ((t.childrenOf v).map fun i => if (t.keyOf i).getD "" ∈ c.path then 1 else 0).sum +
          ((t.childrenOf v).map (t.throughCount completions)).sum := by
      rw [← List.sum_map_add]
      congr 1
      apply List.map_congr_left
      intro i _
      exact length_through_cons _ c completions
    rw [length_through_cons, endedAt_cons, hsplit, hone, hrest]
    omega

/-- Every path goes through the root. -/
theorem length_through_root (h : TreeInvariant t) {completions : List (Completion ρ)}
    (hpaths : ∀ c ∈ completions, t.IsPath c.path) {key : String}
    (hkey : t.keyOf t.root = some key) :
    (through key completions).length = completions.length := by
  have hall : ∀ c ∈ completions, decide (key ∈ c.path) = true := by
    intro c hc
    obtain ⟨last, indices, hchain, hkeys⟩ := hpaths c hc
    rw [decide_eq_true_eq, h.linked.mem_path hkeys hkey]
    exact hchain.mem_root
  rw [through, List.length_map, List.filter_eq_self.mpr hall]

/-! ## Exact rewards -/

/-- Rationals with both infinities: rewards and scores without rounding. -/
abbrev ExactF64 := WithBot (WithTop ℚ)

instance : F64 ExactF64 where
  zero := 0
  negInfinity := ⊥
  add := (· + ·)
  lt a b := decide (a < b)
  eq a b := decide (a = b)
  isFinite a := decide (a ≠ ⊥ ∧ a ≠ ((⊤ : WithTop ℚ) : ExactF64))

theorem foldl_add_eq_sum (rewards : List ExactF64) (total : ExactF64) :
    rewards.foldl F64.add total = total + rewards.sum := by
  induction rewards generalizing total with
  | nil => simp
  | cons reward rewards ih =>
    rw [List.foldl_cons, ih, List.sum_cons, ← add_assoc]
    rfl

theorem larger_eq_max : (larger : ExactF64 → ExactF64 → ExactF64) = max := by
  funext best reward
  have hlt : F64.lt best reward = decide (best < reward) := rfl
  rw [larger, hlt]
  by_cases h : best < reward
  · simp [h, h.le]
  · simp [h, not_lt.mp h]

/-- Statistics are conserved in every run of a search, whatever its calls return. -/
theorem statistics_conserved [FloatMath ExactF64] {rootKey : String} {config : MctsConfig ExactF64}
    {persistencePath : Option String} {history : List (SearchTransition ExactF64)}
    {s : PendingTreeSearch ExactF64} (run : SearchRun rootKey config persistencePath history s)
    (hfew : (completions history).length < 2 ^ 64) :
    (∀ path, s.pendingSelectionPath = some path → s.tree.IsPath path) ∧
    (∀ (v : ℕ) node, s.tree.nodes[v]? = some node →
      node.visits = endedAt node.key (completions history) +
        ((s.tree.childrenOf v).map s.tree.visitsOf).sum ∧
      node.rewardSum = (through node.key (completions history)).sum ∧
      node.bestReward = (through node.key (completions history)).foldr max ⊥) ∧
    s.tree.visitsOf s.tree.root = (completions history).length := by
  obtain ⟨htallied, hpending⟩ := conserved_of_run run
  have hinvariant := htallied.invariant
  have hvisits {v : ℕ} {node : Node ExactF64} (hnode : s.tree.nodes[v]? = some node) :
      node.visits = (through node.key (completions history)).length := by
    have hle : (through node.key (completions history)).length ≤ (completions history).length := by
      rw [through, List.length_map]
      exact List.length_filter_le _ _
    have hmax : maxVisits = 2 ^ 64 - 1 := rfl
    rw [(htallied.tallies v node hnode).visits]
    omega
  have hcount : ∀ c < s.tree.nodes.length,
      s.tree.visitsOf c = s.tree.throughCount (completions history) c := by
    intro c hc
    have hnode := List.getElem?_eq_getElem hc
    rw [Mcts.visitsOf, Mcts.throughCount, Mcts.keyOf_of_getElem? hnode, hnode]
    exact hvisits hnode
  refine ⟨hpending, ?_, ?_⟩
  · intro v node hnode
    have htally := htallied.tallies v node hnode
    refine ⟨?_, ?_, ?_⟩
    · have hchildren : (s.tree.childrenOf v).map s.tree.visitsOf =
          (s.tree.childrenOf v).map (s.tree.throughCount (completions history)) := by
        apply List.map_congr_left
        intro c hc
        exact hcount c (Mcts.lt_of_parentOf ((hinvariant.links c v).mp hc))
      rw [hvisits hnode, hchildren]
      exact throughCount_children hinvariant htallied.paths (Mcts.keyOf_of_getElem? hnode)
    · rw [htally.rewardSum, foldl_add_eq_sum]
      exact zero_add _
    · rw [htally.bestReward, larger_eq_max, List.foldl_eq_foldr]
      rfl
  · have hnode := List.getElem?_eq_getElem hinvariant.root_lt
    have hkey := Mcts.keyOf_of_getElem? hnode
    rw [hcount s.tree.root hinvariant.root_lt, Mcts.throughCount, hkey]
    exact length_through_root hinvariant htallied.paths hkey

/-- Arithmetic that is exact where the calls below need it: at one visit, with exponent one. -/
instance : FloatMath ExactF64 where
  infinity := ((⊤ : WithTop ℚ) : ExactF64)
  ofU64 n := ((n : WithTop ℚ) : ExactF64)
  mul := (· * ·)
  div a b := if b = 1 then a else 0
  powf a _ := a
  ln _ := 0
  sqrt a := a

/-- A child, another one that is not on the pending path, a node that cannot hang there, and a
backpropagation that completes although no selection follows. -/
def conservedCalls : List (SearchCall ExactF64) :=
  [.selectNext 4, .backpropagateAndSelect "a" 1 4, .ensureChild "root" "b",
    .backpropagateAndSelect "root" 2 4, .backpropagateAndSelect "c" 2 0]

def conservedSearch : PendingTreeSearch ExactF64 :=
  reached (fun s call => some (PendingTreeSearch.call s call))
    (PendingTreeSearch.withTree (Mcts.fresh "root" ⟨1, 1, 1⟩ none)) conservedCalls

theorem statistics_conserved_refused :
    conservedSearch.tree.IsPath ["root", "a"] ∧
      conservedSearch.tree.visitsOf conservedSearch.tree.root = 2 ∧
      ∀ node, conservedSearch.tree.nodes[1]? = some node → node.rewardSum = 3 := by
  have run : SearchRun "root" ⟨1, 1, 1⟩ none (trace _ _ conservedCalls) conservedSearch :=
    Run.of_labels rfl
  obtain ⟨hpending, hnodes, hroot⟩ := statistics_conserved run (by decide +kernel)
  refine ⟨hpending _ (by decide +kernel), hroot.trans (by decide +kernel), ?_⟩
  intro node hnode
  rw [(hnodes 1 node hnode).2.1]
  have hkey : node.key = "a" := by
    have hsecond : conservedSearch.tree.keyOf 1 = some "a" := by decide +kernel
    exact Option.some.inj ((Mcts.keyOf_of_getElem? hnode).symm.trans hsecond)
  rw [hkey]
  decide +kernel

end ManInTheBox.Search
