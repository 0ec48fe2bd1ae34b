import Mathlib.Tactic
import Mathlib.Algebra.Order.Monoid.Unbundled.WithTop
import Mathlib.Algebra.BigOperators.Group.List.Basic
import Mathlib.Data.Multiset.AddSub
import ManInTheBox.Library.Fallible

/-! # Collecting what parts of a computation find

Every part finds a list or fails. Up to the order of what is found, the results form a
commutative monoid in which failure absorbs; two ways to go through the same parts
agree when their sums do.
-/

namespace ManInTheBox.Library

universe u v

variable {ε α : Type u} {β : Type v}

/-- What is found, up to order; failures are not told apart. -/
def outcome : Except ε (List α) → WithTop (Multiset α)
  | .error _ => ⊤
  | .ok found => ((found : Multiset α) : WithTop (Multiset α))

@[simp] theorem outcome_error (e : ε) : outcome (.error e : Except ε (List α)) = ⊤ := rfl

theorem outcome_ok (found : List α) :
    outcome (.ok found : Except ε (List α)) = ((found : Multiset α) : WithTop (Multiset α)) := rfl

@[simp] theorem outcome_ok_nil : outcome (.ok [] : Except ε (List α)) = 0 := rfl

theorem outcome_ok_append (found found' : List α) :
    outcome (.ok (found ++ found') : Except ε (List α)) =
      outcome (.ok found : Except ε (List α)) + outcome (.ok found' : Except ε (List α)) := by
  rw [outcome_ok, outcome_ok, outcome_ok, ← WithTop.coe_add, Multiset.coe_add]

theorem outcome_ne_top_iff (x : Except ε (List α)) : outcome x ≠ ⊤ ↔ ∃ found, x = .ok found := by
  cases x with
  | error e => simp
  | ok found => simp [outcome_ok]

theorem outcome_eq_outcome_ok_iff (x : Except ε (List α)) (found : List α) :
    outcome x = outcome (.ok found : Except ε (List α)) ↔
      ∃ found', x = .ok found' ∧ found'.Perm found := by
  cases x with
  | error e => simp [outcome_ok]
  | ok found' => simp [outcome_ok]

/-- Two parts, one after the other. -/
theorem outcome_bind_append (x y : Except ε (List α)) :
    outcome (do let found ← x; let found' ← y; .ok (found ++ found')) = outcome x + outcome y := by
  cases x with
  | error e => simp
  | ok found =>
    cases y with
    | error e => simp
    | ok found' => exact outcome_ok_append found found'

/-- All parts in turn. -/
def collect (f : β → Except ε (List α)) : List β → Except ε (List α)
  | [] => .ok []
  | b :: l => do
    let found ← f b
    let found' ← collect f l
    .ok (found ++ found')

theorem collect_map {γ : Type*} (f : β → Except ε (List α)) (g : γ → β) (l : List γ) :
    collect f (l.map g) = collect (fun c => f (g c)) l := by
  induction l with
  | nil => rfl
  | cons c l ih => rw [List.map_cons, collect, collect, ih]

theorem outcome_collect (f : β → Except ε (List α)) (l : List β) :
    outcome (collect f l) = (l.map fun b => outcome (f b)).sum := by
  induction l with
  | nil => rfl
  | cons b l ih => rw [collect, outcome_bind_append, ih, List.map_cons, List.sum_cons]

theorem collect_cons_eq_ok {f : β → Except ε (List α)} {b : β} {l : List β} {found : List α} :
    collect f (b :: l) = .ok found ↔
      ∃ first rest, f b = .ok first ∧ collect f l = .ok rest ∧ found = first ++ rest := by
  rw [collect, bind_eq_ok]
  constructor
  · rintro ⟨first, hfirst, h⟩
    obtain ⟨rest, hrest, h⟩ := bind_eq_ok.mp h
    exact ⟨first, rest, hfirst, hrest, (Except.ok.inj h).symm⟩
  · rintro ⟨first, rest, hfirst, hrest, rfl⟩
    exact ⟨first, hfirst, bind_eq_ok.mpr ⟨rest, hrest, rfl⟩⟩

/-- Nothing fails where no part does. -/
theorem exists_collect_eq_ok_iff {f : β → Except ε (List α)} {l : List β} :
    (∃ found, collect f l = .ok found) ↔ ∀ b ∈ l, ∃ found, f b = .ok found := by
  induction l with
  | nil => simp [collect]
  | cons b l ih =>
    simp only [collect_cons_eq_ok, List.forall_mem_cons, ← ih]
    constructor
    · rintro ⟨_, first, rest, hfirst, hrest, -⟩
      exact ⟨⟨first, hfirst⟩, rest, hrest⟩
    · rintro ⟨⟨first, hfirst⟩, rest, hrest⟩
      exact ⟨first ++ rest, first, rest, hfirst, hrest, rfl⟩

theorem mem_collect_iff {f : β → Except ε (List α)} {l : List β} {found : List α}
    (h : collect f l = .ok found) (a : α) :
    a ∈ found ↔ ∃ b ∈ l, ∃ part, f b = .ok part ∧ a ∈ part := by
  induction l generalizing found with
  | nil =>
    obtain rfl := Except.ok.inj h
    simp
  | cons b l ih =>
    obtain ⟨first, rest, hfirst, hrest, rfl⟩ := collect_cons_eq_ok.mp h
    simp [ih hrest, hfirst]

/-- Nothing is found twice where no part finds anything twice, nor what another finds. -/
theorem nodup_collect {f : β → Except ε (List α)} {l : List β} {found : List α}
    (h : collect f l = .ok found) (hl : l.Nodup)
    (hpart : ∀ b ∈ l, ∀ part, f b = .ok part → part.Nodup)
    (hdisjoint : ∀ b ∈ l, ∀ b' ∈ l, b ≠ b' → ∀ part part', f b = .ok part → f b' = .ok part' →
      part.Disjoint part') : found.Nodup := by
  induction l generalizing found with
  | nil =>
    obtain rfl := Except.ok.inj h
    exact List.nodup_nil
  | cons b l ih =>
    obtain ⟨first, rest, hfirst, hrest, rfl⟩ := collect_cons_eq_ok.mp h
    have hb := List.nodup_cons.mp hl
    apply List.Nodup.append (hpart b (List.mem_cons_self ..) first hfirst)
    · apply ih hrest hb.2
      · intro b' hb'
        exact hpart b' (List.mem_cons_of_mem _ hb')
      · intro b₁ hb₁ b₂ hb₂
        exact hdisjoint b₁ (List.mem_cons_of_mem _ hb₁) b₂ (List.mem_cons_of_mem _ hb₂)
    · intro a ha ha'
      obtain ⟨b', hb', part, hpart', ha'⟩ := (mem_collect_iff hrest a).mp ha'
      have hne : b ≠ b' := by
        rintro rfl
        exact hb.1 hb'
      exact hdisjoint b (List.mem_cons_self ..) b' (List.mem_cons_of_mem _ hb') hne first part
        hfirst hpart' ha ha'

end ManInTheBox.Library
