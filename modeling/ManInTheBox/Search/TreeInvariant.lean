import Mathlib
import ManInTheBox.Library.ParentChain
import ManInTheBox.Search.Tree

/-! # The tree is a tree

Node vector, parent links, child lists and key index describe one tree with the
root on top, whatever calls are made on it. A call either leaves these four alone,
or it hangs one new leaf under an existing node.
-/

namespace ManInTheBox.Search

open Library

variable {ρ : Type} {t t' : Mcts ρ} {parent : ℕ} {childKey : String}

namespace Mcts

/-- The key at an index, the parent link and the child list there; nothing out of bounds. -/
def keyOf (t : Mcts ρ) (i : ℕ) : Option String := t.nodes[i]?.map Node.key

def parentOf (t : Mcts ρ) (i : ℕ) : Option ℕ := t.nodes[i]?.bind Node.parent

def childrenOf (t : Mcts ρ) (p : ℕ) : List ℕ := (t.nodes[p]?.map Node.children).getD []

theorem lt_of_keyOf {i : ℕ} {key : String} (h : t.keyOf i = some key) : i < t.nodes.length := by
  obtain ⟨node, hnode, -⟩ := Option.map_eq_some_iff.mp h
  exact (List.getElem?_eq_some_iff.mp hnode).1

theorem lt_of_parentOf {i p : ℕ} (h : t.parentOf i = some p) : i < t.nodes.length := by
  obtain ⟨node, hnode, -⟩ := Option.bind_eq_some_iff.mp h
  exact (List.getElem?_eq_some_iff.mp hnode).1

theorem childrenOf_of_getElem? {p : ℕ} {node : Node ρ} (h : t.nodes[p]? = some node) :
    t.childrenOf p = node.children := by
  simp [childrenOf, h]

theorem parentOf_of_getElem? {i : ℕ} {node : Node ρ} (h : t.nodes[i]? = some node) :
    t.parentOf i = node.parent := by
  simp [parentOf, h]

end Mcts

/-- Index, parents and children fit together, in the tree below the root and elsewhere. -/
structure Linked (t : Mcts ρ) : Prop where
  index : ∀ key i, t.indexByKey.lookup key = some i ↔ t.keyOf i = some key
  root_lt : t.root < t.nodes.length
  root : t.parentOf t.root = none
  links : ∀ i p, i ∈ t.childrenOf p ↔ t.parentOf i = some p

/-- The four structures of a tree fit together. -/
structure TreeInvariant (t : Mcts ρ) : Prop where
  /-- The index takes the keys of the nodes, and only these, to their places. -/
  index : ∀ key i, t.indexByKey.lookup key = some i ↔ t.keyOf i = some key
  root_lt : t.root < t.nodes.length
  root : t.parentOf t.root = none
  links : ∀ i p, i ∈ t.childrenOf p ↔ t.parentOf i = some p
  nodup : ∀ p, (t.childrenOf p).Nodup
  /-- No orphan and no cycle. -/
  chain : ∀ i < t.nodes.length, ∃! path, ParentChain t.parentOf t.root i path

theorem TreeInvariant.linked (h : TreeInvariant t) : Linked t := ⟨h.index, h.root_lt, h.root, h.links⟩

/-- Nothing but the statistics of the nodes may differ. -/
structure SameShape (t t' : Mcts ρ) : Prop where
  root : t'.root = t.root
  length : t'.nodes.length = t.nodes.length
  index : t'.indexByKey = t.indexByKey
  keyOf : ∀ i, t'.keyOf i = t.keyOf i
  parentOf : ∀ i, t'.parentOf i = t.parentOf i
  childrenOf : ∀ p, t'.childrenOf p = t.childrenOf p

theorem SameShape.refl (t : Mcts ρ) : SameShape t t := by constructor <;> simp

theorem SameShape.trans {t'' : Mcts ρ} (h : SameShape t t') (h' : SameShape t' t'') :
    SameShape t t'' where
  root := h'.root.trans h.root
  length := h'.length.trans h.length
  index := h'.index.trans h.index
  keyOf i := (h'.keyOf i).trans (h.keyOf i)
  parentOf i := (h'.parentOf i).trans (h.parentOf i)
  childrenOf p := (h'.childrenOf p).trans (h.childrenOf p)

theorem Linked.congr (h : Linked t) (hsame : SameShape t t') : Linked t' := by
  have hparent : t'.parentOf = t.parentOf := funext hsame.parentOf
  constructor
  · intro key i
    rw [hsame.index, hsame.keyOf]
    exact h.index key i
  · rw [hsame.root, hsame.length]
    exact h.root_lt
  · rw [hsame.root, hparent]
    exact h.root
  · intro i p
    rw [hsame.childrenOf, hparent]
    exact h.links i p

theorem TreeInvariant.congr (h : TreeInvariant t) (hsame : SameShape t t') : TreeInvariant t' := by
  have hlinked := h.linked.congr hsame
  have hparent : t'.parentOf = t.parentOf := funext hsame.parentOf
  refine ⟨hlinked.index, hlinked.root_lt, hlinked.root, hlinked.links, ?_, ?_⟩
  · intro p
    rw [hsame.childrenOf]
    exact h.nodup p
  · intro i hi
    rw [hsame.root, hparent]
    exact h.chain i (hsame.length ▸ hi)

theorem checkSegment_ne_panic (h : Linked t) (key : String) (i : ℕ)
    (previous : Option String) : t.checkSegment key i previous ≠ .error .panic := by
  cases previous with
  | none => simp [Mcts.checkSegment]
  | some previousKey =>
    rw [Mcts.checkSegment]
    cases hprevious : t.indexByKey.lookup previousKey with
    | none => simp
    | some p =>
      have hlt := Mcts.lt_of_keyOf ((h.index previousKey p).mp hprevious)
      simp only [List.getElem?_eq_getElem hlt]
      split_ifs <;> simp

/-! ## A new leaf -/

section Grow

variable [F64 ρ]

/-- The tree with a new node under an existing one. -/
def Mcts.grow (t : Mcts ρ) (parent : ℕ) (childKey : String) : Mcts ρ :=
  { t with
    nodes := (t.nodes ++ [Node.new childKey (some parent)]).modify parent
      (Node.pushChild t.nodes.length)
    indexByKey := t.indexByKey.insert childKey t.nodes.length }

theorem getElem?_grow (hparent : parent < t.nodes.length) (i : ℕ) :
    (t.grow parent childKey).nodes[i]? =
      if i = t.nodes.length then some (Node.new childKey (some parent))
      else if i = parent then t.nodes[i]?.map (Node.pushChild t.nodes.length)
      else t.nodes[i]? := by
  rw [Mcts.grow, List.getElem?_modify]
  by_cases hi : i = t.nodes.length
  · have hne : parent ≠ t.nodes.length := by omega
    subst hi
    simp [hne]
  · rw [List.getElem?_append]
    by_cases hp : i = parent
    · subst hp
      simp [hi, hparent]
    · by_cases hlt : i < t.nodes.length
      · simp [hi, hp, hlt, Ne.symm hp]
      · have hbig : t.nodes.length < i := by omega
        simp [hi, hp, hlt, Ne.symm hp]
        omega

theorem length_grow : (t.grow parent childKey).nodes.length = t.nodes.length + 1 := by
  simp [Mcts.grow]

theorem keyOf_grow (hparent : parent < t.nodes.length) (i : ℕ) :
    (t.grow parent childKey).keyOf i =
      if i = t.nodes.length then some childKey else t.keyOf i := by
  rw [Mcts.keyOf, getElem?_grow hparent]
  split_ifs
  · rfl
  · cases h : t.nodes[i]? <;> simp [Mcts.keyOf, h, Node.pushChild]
  · rfl

theorem parentOf_grow (hparent : parent < t.nodes.length) (i : ℕ) :
    (t.grow parent childKey).parentOf i =
      if i = t.nodes.length then some parent else t.parentOf i := by
  rw [Mcts.parentOf, getElem?_grow hparent]
  split_ifs
  · rfl
  · cases h : t.nodes[i]? <;> simp [Mcts.parentOf, h, Node.pushChild]
  · rfl

theorem childrenOf_grow (hparent : parent < t.nodes.length) (p : ℕ) :
    (t.grow parent childKey).childrenOf p =
      if p = parent then t.childrenOf p ++ [t.nodes.length] else t.childrenOf p := by
  rw [Mcts.childrenOf, getElem?_grow hparent]
  by_cases hp : p = parent
  · subst hp
    have hne : p ≠ t.nodes.length := by omega
    simp [hne, Mcts.childrenOf, Node.pushChild, hparent]
  · rw [if_neg hp, if_neg hp]
    split_ifs with hlength
    · subst hlength
      simp [Mcts.childrenOf, Node.new]
    · rfl

/-- A leaf with a new key may hang anywhere. -/
theorem Linked.grow (h : Linked t) (hparent : parent < t.nodes.length)
    (hnew : t.indexByKey.lookup childKey = none) : Linked (t.grow parent childKey) := by
  constructor
  · intro key i
    rw [keyOf_grow hparent, Mcts.grow, Table.lookup_insert_ite]
    by_cases hkey : key = childKey
    · subst hkey
      by_cases hi : i = t.nodes.length
      · simp [hi]
      · have hother : t.keyOf i ≠ some key := by
          rw [ne_eq, ← h.index, hnew]
          simp
        simp [hi, hother, Ne.symm hi]
    · by_cases hi : i = t.nodes.length
      · have hother : t.indexByKey.lookup key ≠ some i := by
          intro hlookup
          have hlt := Mcts.lt_of_keyOf ((h.index key i).mp hlookup)
          omega
        simp [hi, hkey, Ne.symm hkey, hi ▸ hother]
      · rw [if_neg hkey, if_neg hi]
        exact h.index key i
  · rw [length_grow]
    exact Nat.lt_succ_of_lt h.root_lt
  · show (t.grow parent childKey).parentOf t.root = none
    rw [parentOf_grow hparent, if_neg h.root_lt.ne]
    exact h.root
  · intro i p
    rw [childrenOf_grow hparent, parentOf_grow hparent]
    by_cases hi : i = t.nodes.length
    · have hleaf : i ∉ t.childrenOf p := by
        intro hmem
        have hlt := Mcts.lt_of_parentOf ((h.links i p).mp hmem)
        omega
      rw [if_pos hi, Option.some.injEq]
      split_ifs with hp
      · simp [hi, hp]
      · simp [hleaf, Ne.symm hp]
    · rw [if_neg hi, ← h.links i p]
      split_ifs <;> simp [hi]

theorem TreeInvariant.grow (h : TreeInvariant t) (hparent : parent < t.nodes.length)
    (hnew : t.indexByKey.lookup childKey = none) : TreeInvariant (t.grow parent childKey) := by
  have hlinked := h.linked.grow hparent hnew
  have hlinks : ∀ p i, t.parentOf i = some p → (t.grow parent childKey).parentOf i = some p := by
    intro p i hlink
    rw [parentOf_grow hparent, if_neg (Mcts.lt_of_parentOf hlink).ne]
    exact hlink
  refine ⟨hlinked.index, hlinked.root_lt, hlinked.root, hlinked.links, ?_, ?_⟩
  · intro p
    rw [childrenOf_grow hparent]
    split_ifs
    · have hleaf : t.nodes.length ∉ t.childrenOf p := by
        intro hmem
        exact lt_irrefl _ (Mcts.lt_of_parentOf ((h.links _ p).mp hmem))
      simpa [List.nodup_append] using ⟨h.nodup p, fun i hi heq => hleaf (heq ▸ hi)⟩
    · exact h.nodup p
  · intro i hi
    apply ParentChain.existsUnique hlinked.root
    rw [length_grow] at hi
    by_cases hlast : i = t.nodes.length
    · obtain ⟨path, chain, -⟩ := h.chain parent hparent
      refine ⟨_, .child (chain.mono hlinks) ?_⟩
      rw [parentOf_grow hparent, if_pos hlast]
    · obtain ⟨path, chain, -⟩ := h.chain i (by omega)
      exact ⟨path, chain.mono hlinks⟩

end Grow

/-! ## The calls -/

section Calls

variable [F64 ρ] {result : Except Failure Unit} {parentKey : String} {reward : ρ}

theorem invariant_fresh (rootKey : String) (config : MctsConfig ρ)
    (persistencePath : Option String) :
    TreeInvariant (Mcts.fresh rootKey config persistencePath) := by
  have hnode (i : ℕ) : (Mcts.fresh rootKey config persistencePath).nodes[i]? =
      if i = 0 then some (Node.new rootKey none) else none := by
    cases i <;> simp [Mcts.fresh]
  have hparent (i : ℕ) : (Mcts.fresh rootKey config persistencePath).parentOf i = none := by
    rw [Mcts.parentOf, hnode]
    split_ifs <;> rfl
  have hchildren (p : ℕ) : (Mcts.fresh rootKey config persistencePath).childrenOf p = [] := by
    rw [Mcts.childrenOf, hnode]
    split_ifs <;> rfl
  constructor
  · intro key i
    rw [Mcts.keyOf, hnode, Mcts.fresh, Table.lookup_insert_ite]
    by_cases hkey : key = rootKey
    · by_cases hi : i = 0 <;> simp [hkey, hi, Node.new, eq_comm]
    · by_cases hi : i = 0 <;> simp [hkey, hi, Node.new, Ne.symm hkey]
  · simp [Mcts.fresh]
  · exact hparent _
  · simp [hparent, hchildren]
  · simp [hchildren]
  · intro i hi
    apply ParentChain.existsUnique (hparent _)
    have hzero : i = 0 := by simpa [Mcts.fresh] using hi
    subst hzero
    exact ⟨_, .root⟩

/-- A call of `ensure_child` finds the child where it should be, or refuses, or adds a leaf. -/
theorem ensureChild_cases (h : Linked t)
    (hcall : t.ensureChild parentKey childKey = (t', result)) :
    (t' = t ∧ result ≠ .error .panic) ∨
      (result = .ok () ∧ ∃ parent < t.nodes.length, t.indexByKey.lookup parentKey = some parent ∧
        t.indexByKey.lookup childKey = none ∧ t' = t.grow parent childKey) := by
  have hnode {key : String} {i : ℕ} (hlookup : t.indexByKey.lookup key = some i) :
      ∃ node, t.nodes[i]? = some node :=
    ⟨_, List.getElem?_eq_getElem (Mcts.lt_of_keyOf ((h.index key i).mp hlookup))⟩
  rw [Mcts.ensureChild] at hcall
  cases hparent : t.indexByKey.lookup parentKey with
  | none =>
    simp only [hparent] at hcall
    obtain ⟨rfl, rfl⟩ := Prod.mk.inj hcall
    left
    simp
  | some parent =>
    obtain ⟨node, hnode_parent⟩ := hnode hparent
    have hlt := Mcts.lt_of_keyOf ((h.index parentKey parent).mp hparent)
    cases hchild : t.indexByKey.lookup childKey with
    | some existingChild =>
      obtain ⟨child, hnode_child⟩ := hnode hchild
      left
      simp only [hparent, hchild, hnode_child, hnode_parent] at hcall
      by_cases hunder : child.parent = some parent
      · have hmem : existingChild ∈ node.children := by
          rw [← Mcts.childrenOf_of_getElem? hnode_parent, h.links,
            Mcts.parentOf_of_getElem? hnode_child, hunder]
        simp only [hunder, ne_eq, not_true_eq_false, if_false, hmem, if_true] at hcall
        obtain ⟨rfl, rfl⟩ := Prod.mk.inj hcall
        simp
      · simp only [ne_eq, hunder, not_false_eq_true, if_true] at hcall
        obtain ⟨rfl, rfl⟩ := Prod.mk.inj hcall
        simp
    | none =>
      right
      have happend : (t.nodes ++ [Node.new childKey (some parent)])[parent]? = some node := by
        rw [List.getElem?_append_left hlt, hnode_parent]
      simp only [hparent, hchild, happend] at hcall
      obtain ⟨rfl, rfl⟩ := Prod.mk.inj hcall
      exact ⟨rfl, parent, hlt, rfl, rfl, rfl⟩

/-- Recording a reward changes nothing but statistics. -/
theorem sameShape_record (t : Mcts ρ) (i : ℕ) (reward : ρ) :
    SameShape t { t with nodes := t.nodes.modify i (Node.record reward) } := by
  have hnode (j : ℕ) : (t.nodes.modify i (Node.record reward))[j]? =
      t.nodes[j]?.map fun node => if i = j then Node.record reward node else node := by
    rw [List.getElem?_modify]
    rfl
  constructor
  · rfl
  · simp
  · rfl
  · intro j
    rw [Mcts.keyOf, Mcts.keyOf, hnode]
    cases t.nodes[j]? with
    | none => rfl
    | some node => by_cases hi : i = j <;> simp [hi, Node.record]
  · intro j
    rw [Mcts.parentOf, Mcts.parentOf, hnode]
    cases t.nodes[j]? with
    | none => rfl
    | some node => by_cases hi : i = j <;> simp [hi, Node.record]
  · intro j
    rw [Mcts.childrenOf, Mcts.childrenOf, hnode]
    cases t.nodes[j]? with
    | none => rfl
    | some node => by_cases hi : i = j <;> simp [hi, Node.record]

/-- However far the loop gets, the shape of the tree stays, and no index is out of bounds. -/
theorem backpropagateFrom_spec (h : Linked t) {previous : Option String}
    {path : List String}
    (hcall : Mcts.backpropagateFrom reward previous path t = (t', result)) :
    SameShape t t' ∧ result ≠ .error .panic := by
  induction path generalizing previous t with
  | nil =>
    obtain ⟨rfl, rfl⟩ := Prod.mk.inj hcall
    exact ⟨.refl _, by simp⟩
  | cons key path ih =>
    rw [Mcts.backpropagateFrom] at hcall
    cases hlookup : t.indexByKey.lookup key with
    | none =>
      simp only [hlookup] at hcall
      obtain ⟨rfl, rfl⟩ := Prod.mk.inj hcall
      exact ⟨.refl _, by simp⟩
    | some i =>
      have hlt := Mcts.lt_of_keyOf ((h.index key i).mp hlookup)
      simp only [hlookup, List.getElem?_eq_getElem hlt] at hcall
      cases hsegment : t.checkSegment key i previous with
      | error failure =>
        simp only [hsegment] at hcall
        obtain ⟨rfl, rfl⟩ := Prod.mk.inj hcall
        exact ⟨.refl _, hsegment ▸ checkSegment_ne_panic h key i previous⟩
      | ok _ =>
        simp only [hsegment] at hcall
        have hrecord := sameShape_record t i reward
        obtain ⟨hsame, hresult⟩ := ih (h.congr hrecord) hcall
        exact ⟨hrecord.trans hsame, hresult⟩

theorem backpropagatePath_spec (h : Linked t) {path : List String}
    (hcall : t.backpropagatePath path reward = (t', result)) :
    SameShape t t' ∧ result ≠ .error .panic := by
  rw [Mcts.backpropagatePath] at hcall
  split_ifs at hcall
  · obtain ⟨rfl, rfl⟩ := Prod.mk.inj hcall
    exact ⟨.refl _, by simp⟩
  · obtain ⟨rfl, rfl⟩ := Prod.mk.inj hcall
    exact ⟨.refl _, by simp⟩
  · exact backpropagateFrom_spec h hcall

theorem TreeInvariant.call (h : TreeInvariant t) {call : TreeCall ρ}
    (hcall : t.call call = (t', result)) : TreeInvariant t' ∧ result ≠ .error .panic := by
  cases call with
  | ensureChild parentKey childKey =>
    rcases ensureChild_cases h.linked hcall with ⟨rfl, hresult⟩ | ⟨rfl, parent, hlt, -, hnew, rfl⟩
    · exact ⟨h, hresult⟩
    · exact ⟨h.grow hlt hnew, by simp⟩
  | backpropagatePath path reward =>
    obtain ⟨hsame, hresult⟩ := backpropagatePath_spec h.linked hcall
    exact ⟨h.congr hsame, hresult⟩

theorem invariant_of_run {rootKey : String} {config : MctsConfig ρ}
    {persistencePath : Option String} {history : List (TreeTransition ρ)}
    (run : TreeRun rootKey config persistencePath history t) : TreeInvariant t := by
  apply run.invariant TreeInvariant
  · exact invariant_fresh rootKey config persistencePath
  · intro t call t' result h taken
    exact (h.call (Option.some.inj taken)).1

/-- Whatever is called on a fresh tree, it stays a tree; no call panics, and an `ensure_child` that
fails changes nothing. -/
theorem tree_of_run {rootKey : String} {config : MctsConfig ρ} {persistencePath : Option String}
    {history : List (TreeTransition ρ)}
    (run : TreeRun rootKey config persistencePath history t) :
    TreeInvariant t ∧ ∀ u ∈ history, u.output ≠ .error .panic ∧
      ∀ parentKey childKey failure, u.label = .ensureChild parentKey childKey →
        u.output = .error failure → u.target = u.source := by
  constructor
  · exact invariant_of_run run
  · intro u hu
    obtain ⟨past, later, rfl⟩ := List.append_of_mem hu
    obtain ⟨before, taken⟩ := run.cut
    have h := invariant_of_run before
    have hcall := Option.some.inj taken
    refine ⟨(h.call hcall).2, fun parentKey childKey failure hlabel houtput => ?_⟩
    rw [hlabel] at hcall
    rcases ensureChild_cases h.linked hcall with ⟨hsame, -⟩ | ⟨hok, -⟩
    · exact hsame
    · rw [houtput] at hok
      cases hok

end Calls

def unitConfig : MctsConfig (WithBot ℚ) := ⟨1, 1, 1⟩

/-- Two levels below the root, then a child that is the root, one that is an ancestor, one that is
there already, a path that ends well and one that does not. -/
def collidingCalls : List (TreeCall (WithBot ℚ)) :=
  [.ensureChild "root" "a", .ensureChild "a" "b", .ensureChild "a" "root", .ensureChild "b" "a",
    .ensureChild "root" "a", .backpropagatePath ["root", "a", "b"] 1,
    .backpropagatePath ["root", "b"] 1]

theorem tree_of_run_colliding :
    (trace (fun t call => some (Mcts.call t call)) (Mcts.fresh "root" unitConfig none)
      collidingCalls).map (fun u => u.output.isOk) =
        [true, true, false, false, true, true, false] ∧
    TreeInvariant (reached (fun t call => some (Mcts.call t call))
      (Mcts.fresh "root" unitConfig none) collidingCalls) := by
  have run : TreeRun "root" unitConfig none (trace _ _ collidingCalls)
    (reached _ _ collidingCalls) := Run.of_labels rfl
  exact ⟨by decide, (tree_of_run run).1⟩

end ManInTheBox.Search
