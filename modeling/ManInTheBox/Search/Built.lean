import ManInTheBox.Search.Persisted

/-! # Every tree there can be

A tree is created fresh or read back from disk, and then called. What is read back
may hold nodes that do not hang under the root, in cycles even; index, parents and
children fit together all the same.
-/

namespace ManInTheBox.Search

open Library

variable {ρ : Type} [F64 ρ] {t : Mcts ρ}

/-- The trees that the public operations build; a tree that is loaded gets the configuration of its
builder. -/
inductive Built : Mcts ρ → Prop
  | fresh (rootKey : String) (config : MctsConfig ρ) (persistencePath : Option String) :
      Built (.fresh rootKey config persistencePath)
  | loaded {persisted : PersistedMcts ρ} {persistencePath : Option String} {t : Mcts ρ}
      (accepted : fromPersisted persisted persistencePath = .ok t) (config : MctsConfig ρ) :
      Built { t with config }
  | call {t t' : Mcts ρ} {call : TreeCall ρ} {result : Except Failure Unit} (before : Built t)
      (called : t.call call = (t', result)) : Built t'

theorem Linked.call {t' : Mcts ρ} (h : Linked t) {call : TreeCall ρ} {result : Except Failure Unit}
    (hcall : t.call call = (t', result)) : Linked t' := by
  cases call with
  | ensureChild parentKey childKey =>
    rcases ensureChild_cases h hcall with ⟨rfl, -⟩ | ⟨-, parent, hlt, -, hnew, rfl⟩
    · exact h
    · exact h.grow hlt hnew
  | backpropagatePath path reward => exact h.congr (backpropagatePath_spec h hcall).1

theorem Built.linked (h : Built t) : Linked t := by
  induction h with
  | fresh rootKey config persistencePath =>
    exact (invariant_fresh rootKey config persistencePath).linked
  | loaded accepted config =>
    have hlinked := linked_fromPersisted accepted
    exact ⟨hlinked.index, hlinked.root_lt, hlinked.root, hlinked.links⟩
  | call _ called ih => exact ih.call called

theorem Built.calls (h : Built t) (calls : List (TreeCall ρ)) :
    Built (calls.foldl (fun t call => (t.call call).1) t) := by
  induction calls generalizing t with
  | nil => exact h
  | cons call calls ih => exact ih (h.call rfl)

end ManInTheBox.Search
