import Mathlib
import ManInTheBox.Library.Table
import ManInTheBox.Library.Run

/-! # The search tree

`Mcts` of `mitb-sdk` keeps its nodes in a vector, with the parent and the children
of a node as indices into it, and a map from keys to indices. An index that is
out of bounds panics. Persistence is written on a best-effort basis and never read
back by a living tree, so it is no part of the state.
-/

namespace ManInTheBox.Search

open Library

/-- The operations on `f64` that the tree uses. -/
class F64 (ρ : Type) where
  zero : ρ
  negInfinity : ρ
  add : ρ → ρ → ρ
  lt : ρ → ρ → Bool
  eq : ρ → ρ → Bool
  isFinite : ρ → Bool

/-- Exact rewards, with the minus infinity of a node that has not been visited. -/
instance : F64 (WithBot ℚ) where
  zero := 0
  negInfinity := ⊥
  add := (· + ·)
  lt a b := decide (a < b)
  eq a b := decide (a = b)
  isFinite a := decide (a ≠ ⊥)

structure MctsConfig (ρ : Type) where
  explorationConstant : ρ
  progressiveWideningK : ρ
  progressiveWideningAlpha : ρ
  deriving DecidableEq

structure Node (ρ : Type) where
  key : String
  parent : Option ℕ
  children : List ℕ
  visits : ℕ
  rewardSum : ρ
  bestReward : ρ
  deriving DecidableEq

structure Mcts (ρ : Type) where
  config : MctsConfig ρ
  root : ℕ
  nodes : List (Node ρ)
  indexByKey : Table String ℕ
  persistencePath : Option String

/-- A call returns an error, or it panics. -/
inductive Failure
  | error (message : String)
  | panic
  deriving DecidableEq

variable {ρ : Type} [F64 ρ]

/-- `u64::MAX`, where visits saturate. -/
def maxVisits : ℕ := 2 ^ 64 - 1

namespace Node

def new (key : String) (parent : Option ℕ) : Node ρ where
  key := key
  parent := parent
  children := []
  visits := 0
  rewardSum := F64.zero
  bestReward := F64.negInfinity

def pushChild (child : ℕ) (node : Node ρ) : Node ρ :=
  { node with children := node.children ++ [child] }

/-- One reward that went through the node. -/
def record (reward : ρ) (node : Node ρ) : Node ρ :=
  { node with
    visits := min (node.visits + 1) maxVisits
    rewardSum := F64.add node.rewardSum reward
    bestReward := if F64.lt node.bestReward reward then reward else node.bestReward }

end Node

namespace Mcts

def fresh (rootKey : String) (config : MctsConfig ρ) (persistencePath : Option String) :
    Mcts ρ where
  config := config
  root := 0
  nodes := [Node.new rootKey none]
  indexByKey := (∅ : Table String ℕ).insert rootKey 0
  persistencePath := persistencePath

def ensureChild (t : Mcts ρ) (parentKey childKey : String) : Mcts ρ × Except Failure Unit :=
  match t.indexByKey.lookup parentKey with
  | none => (t, .error (.error ("unknown parent node `" ++ parentKey ++ "`")))
  | some parent =>
    match t.indexByKey.lookup childKey with
    | some existingChild =>
      match t.nodes[existingChild]? with
      | none => (t, .error .panic)
      | some child =>
        if child.parent ≠ some parent then
          (t, .error (.error ("node `" ++ childKey ++ "` already exists under a different parent")))
        else
          match t.nodes[parent]? with
          | none => (t, .error .panic)
          | some node =>
            if existingChild ∈ node.children then (t, .ok ())
            else
              ({ t with nodes := t.nodes.modify parent (Node.pushChild existingChild) }, .ok ())
    | none =>
      let childIndex := t.nodes.length
      let nodes := t.nodes ++ [Node.new childKey (some parent)]
      match nodes[parent]? with
      | none => ({ t with nodes := nodes }, .error .panic)
      | some _ =>
        ({ t with
            nodes := nodes.modify parent (Node.pushChild childIndex)
            indexByKey := t.indexByKey.insert childKey childIndex }, .ok ())

/-- The node must be a child of the one before it on the path. -/
def checkSegment (t : Mcts ρ) (key : String) (nodeIndex : ℕ) :
    (previous : Option String) → Except Failure Unit
  | none => .ok ()
  | some previousKey =>
    match t.indexByKey.lookup previousKey with
    | none => .error (.error ("unknown node `" ++ previousKey ++ "` in path"))
    | some previousIndex =>
      match t.nodes[previousIndex]? with
      | none => .error .panic
      | some previous =>
        if nodeIndex ∈ previous.children then .ok ()
        else .error (.error ("invalid path segment `" ++ previousKey ++ "` -> `" ++ key ++
          "`: child relationship not found"))

/-- The loop of `backpropagate_path`: every node is updated as soon as it has been checked. -/
def backpropagateFrom (reward : ρ) : (previous : Option String) → List String → Mcts ρ →
    Mcts ρ × Except Failure Unit
  | _, [], t => (t, .ok ())
  | previous, key :: path, t =>
    match t.indexByKey.lookup key with
    | none => (t, .error (.error ("unknown node `" ++ key ++ "` in backpropagation path")))
    | some nodeIndex =>
      match t.checkSegment key nodeIndex previous with
      | .error failure => (t, .error failure)
      | .ok _ =>
        match t.nodes[nodeIndex]? with
        | none => (t, .error .panic)
        | some _ =>
          backpropagateFrom reward (some key) path
            { t with nodes := t.nodes.modify nodeIndex (Node.record reward) }

def backpropagatePath (t : Mcts ρ) (path : List String) (reward : ρ) :
    Mcts ρ × Except Failure Unit :=
  if !F64.isFinite reward then (t, .error (.error "reward must be finite"))
  else if path.isEmpty then (t, .error (.error "path must include at least one node"))
  else backpropagateFrom reward none path t

end Mcts

/-! ## Runs -/

inductive TreeCall (ρ : Type)
  | ensureChild (parentKey childKey : String)
  | backpropagatePath (path : List String) (reward : ρ)

def Mcts.call (t : Mcts ρ) : TreeCall ρ → Mcts ρ × Except Failure Unit
  | .ensureChild parentKey childKey => t.ensureChild parentKey childKey
  | .backpropagatePath path reward => t.backpropagatePath path reward

abbrev TreeTransition (ρ : Type) := Transition (Mcts ρ) (TreeCall ρ) (Except Failure Unit)

/-- The calls on a tree that was created fresh, successful or not. -/
abbrev TreeRun (rootKey : String) (config : MctsConfig ρ) (persistencePath : Option String) :=
  Run (fun t call => some (t.call call)) (Mcts.fresh rootKey config persistencePath)

end ManInTheBox.Search
