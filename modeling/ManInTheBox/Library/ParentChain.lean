import Mathlib.Order.WellFoundedSet
import Mathlib.Tactic
import Mathlib.Data.Set.Finite.Basic
import Mathlib.Logic.Relation

/-! # Trees given by parent links

Every element knows its parent, or has none. A parent chain leads from a root
down to an element. Below a root without parent there is at most one chain to an
element, and in a finite set in which only the root has no parent, every element
has one as soon as no chain of parents returns to where it began.
-/

namespace ManInTheBox.Library

variable {α : Type*} {parent parent' : α → Option α} {root : α}

/-- The elements from the root down to one of them, each the parent of the next. -/
inductive ParentChain (parent : α → Option α) (root : α) : α → List α → Prop
  | root : ParentChain parent root root [root]
  | child {p a path} (chain : ParentChain parent root p path) (link : parent a = some p) :
      ParentChain parent root a (path ++ [a])

/-- The first element is the parent of the second. -/
def IsParent (parent : α → Option α) (p a : α) : Prop := parent a = some p

/-- No chain of parents returns to where it began. -/
def Acyclic (parent : α → Option α) : Prop := ∀ a, ¬ Relation.TransGen (IsParent parent) a a

namespace ParentChain

/-- A chain below a root without parent is determined by its end. -/
theorem unique (hroot : parent root = none) {a : α} {path path' : List α}
    (h : ParentChain parent root a path) (h' : ParentChain parent root a path') :
    path = path' := by
  induction h generalizing path' with
  | root =>
    cases h' with
    | root => rfl
    | child chain link =>
      rw [hroot] at link
      cases link
  | child chain link ih =>
    cases h' with
    | root =>
      rw [hroot] at link
      cases link
    | child chain' link' =>
      obtain rfl := Option.some.inj (link.symm.trans link')
      rw [ih chain']

theorem existsUnique (hroot : parent root = none) {a : α}
    (h : ∃ path, ParentChain parent root a path) : ∃! path, ParentChain parent root a path := by
  obtain ⟨path, chain⟩ := h
  exact ⟨path, chain, fun path' chain' => unique hroot chain' chain⟩

/-- A chain stays one as long as the links along it stay. -/
theorem mono (hlinks : ∀ p a, parent a = some p → parent' a = some p) {a : α} {path : List α}
    (h : ParentChain parent root a path) : ParentChain parent' root a path := by
  induction h with
  | root => exact .root
  | child chain link ih => exact .child ih (hlinks _ _ link)

/-- Every chain of parents from a node leads on a chain from the root. -/
theorem descend {a b : α} {path : List α} (h : ParentChain parent root a path)
    (hab : Relation.TransGen (IsParent parent) a b) :
    ∃ below, below ≠ [] ∧ ParentChain parent root b (path ++ below) := by
  induction hab with
  | @single b hab => exact ⟨[b], by simp, .child h hab⟩
  | @tail b c hab hbc ih =>
    obtain ⟨below, hne, chain⟩ := ih
    have hchain := ParentChain.child chain hbc
    rw [List.append_assoc] at hchain
    exact ⟨below ++ [c], by simp, hchain⟩

/-- An element below the root is not among its own ancestors. -/
theorem no_return (hroot : parent root = none) {a : α} {path : List α}
    (h : ParentChain parent root a path) : ¬ Relation.TransGen (IsParent parent) a a := by
  intro hcycle
  obtain ⟨below, hne, chain⟩ := h.descend hcycle
  have hpath := unique hroot h chain
  exact hne (by simpa using hpath.symm)

theorem mem_root {a : α} {path : List α} (h : ParentChain parent root a path) : root ∈ path := by
  induction h with
  | root => simp
  | child chain link ih => exact List.mem_append_left _ ih

theorem getLast? {a : α} {path : List α} (h : ParentChain parent root a path) :
    path.getLast? = some a := by
  cases h with
  | root => rfl
  | child chain link => simp

/-- Everything on a chain leads down to its end. -/
theorem transGen_of_mem {a b : α} {path : List α} (h : ParentChain parent root a path)
    (hb : b ∈ path) : b = a ∨ Relation.TransGen (IsParent parent) b a := by
  induction h with
  | root => exact .inl (List.mem_singleton.mp hb)
  | @child p a path chain link ih =>
    rcases List.mem_append.mp hb with hmem | hlast
    · right
      rcases ih hmem with rfl | hchain
      · exact .single link
      · exact hchain.tail link
    · exact .inl (List.mem_singleton.mp hlast)

/-- The link below a chain leads to something new. -/
theorem not_mem_of_link (hroot : parent root = none) {p a : α} {path : List α}
    (h : ParentChain parent root p path) (link : parent a = some p) : a ∉ path := by
  intro hmem
  have hcycle : Relation.TransGen (IsParent parent) p p := by
    rcases h.transGen_of_mem hmem with rfl | hchain
    · exact .single link
    · exact Relation.TransGen.head link hchain
  exact h.no_return hroot hcycle

theorem nodup (hroot : parent root = none) {a : α} {path : List α}
    (h : ParentChain parent root a path) : path.Nodup := by
  induction h with
  | root => simp
  | child chain link ih =>
    rw [List.nodup_append]
    refine ⟨ih, by simp, ?_⟩
    intro b hb c hc heq
    rw [List.mem_singleton.mp hc] at heq
    exact chain.not_mem_of_link hroot link (heq ▸ hb)

theorem head? {a : α} {path : List α} (h : ParentChain parent root a path) :
    path.head? = some root := by
  induction h with
  | root => rfl
  | child chain link ih => rw [List.head?_append, ih, Option.some_or]

theorem isChain {a : α} {path : List α} (h : ParentChain parent root a path) :
    path.IsChain (IsParent parent) := by
  induction h with
  | root => simp
  | child chain link ih =>
    rw [List.isChain_append]
    refine ⟨ih, by simp, ?_⟩
    intro x hx y hy
    rw [chain.getLast?] at hx
    rw [← Option.some.inj hx, ← Option.some.inj hy]
    exact link

/-- A chain goes through an element by ending there or by going on to exactly one of its
children. -/
theorem count_through [DecidableEq α] (hroot : parent root = none) {a b : α} {path children : List α}
    (h : ParentChain parent root a path) (hnodup : children.Nodup)
    (hchildren : ∀ c, c ∈ children ↔ parent c = some b) :
    (if b ∈ path then 1 else 0) =
      (if a = b then 1 else 0) + (children.map fun c => if c ∈ path then 1 else 0).sum := by
  have hextend {a : α} {path : List α} (hnew : a ∉ path) (c : α) :
      (if c ∈ path ++ [a] then 1 else 0) = (if c ∈ path then 1 else 0) + if c = a then 1 else 0 := by
    by_cases hc : c = a
    · simp [hc, hnew]
    · simp [hc]
  induction h with
  | root =>
    have hnone : (children.map fun c => if c ∈ [root] then 1 else 0).sum = 0 := by
      apply List.sum_eq_zero
      intro n hn
      obtain ⟨c, hc, rfl⟩ := List.mem_map.mp hn
      have hne : c ≠ root := by
        rintro rfl
        rw [hchildren, hroot] at hc
        cases hc
      simp [hne]
    rw [hnone]
    simp [eq_comm]
  | @child p a path chain link ih =>
    have hnew := chain.not_mem_of_link hroot link
    have hcount : (children.map fun c => if c = a then 1 else 0).sum = children.count a := by
      clear hchildren hnodup ih
      induction children with
      | nil => rfl
      | cons c children ih => simp [List.count_cons, ih, Nat.add_comm]
    have hlast : (children.map fun c => if c = a then 1 else 0).sum = if p = b then 1 else 0 := by
      rw [hcount, hnodup.count]
      simp [hchildren, link]
    simp only [hextend hnew, List.sum_map_add, hlast, ih, eq_comm (a := b)]
    omega

end ParentChain

/-- Parents that come before their children never return. -/
theorem Acyclic.of_lt [Preorder α] (h : ∀ p a, parent a = some p → p < a) : Acyclic parent := by
  have hlt : ∀ a b, Relation.TransGen (IsParent parent) a b → a < b := by
    intro a b hab
    induction hab with
    | single hab => exact h _ _ hab
    | tail _ hbc ih => exact ih.trans (h _ _ hbc)
  exact fun a ha => lt_irrefl a (hlt a a ha)

/-- In a finite set whose elements, but for the root, have their parents in the set, everything is
below the root if no chain of parents returns. -/
theorem Acyclic.exists_chain (hacyclic : Acyclic parent) {s : Set α} (hfinite : s.Finite)
    (hparent : ∀ a ∈ s, a ≠ root → ∃ p ∈ s, parent a = some p) {a : α} (ha : a ∈ s) :
    ∃ path, ParentChain parent root a path := by
  have : IsStrictOrder α (Relation.TransGen (IsParent parent)) :=
    { irrefl := hacyclic, trans := fun _ _ _ => Relation.TransGen.trans }
  have hwell : s.WellFoundedOn (Relation.TransGen (IsParent parent)) := hfinite.wellFoundedOn
  apply hwell.induction ha
  intro b hb ih
  by_cases hroot : b = root
  · subst hroot
    exact ⟨_, .root⟩
  · obtain ⟨p, hp, hlink⟩ := hparent b hb hroot
    obtain ⟨path, chain⟩ := ih p hp (.single hlink)
    exact ⟨_, .child chain hlink⟩

end ManInTheBox.Library
