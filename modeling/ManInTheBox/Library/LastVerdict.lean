import Mathlib.Data.List.Induction
import Mathlib.Tactic.Common

/-! # The last rule that applies decides

Rules in order of precedence, the strongest last. Where rules apply in a wider sense than
they should, the verdict goes wrong exactly if the last rule to apply in the wider sense
is not one to apply, and contradicts what the rules before it say.
-/

namespace ManInTheBox.Library

universe u v

variable {ρ : Type u} {α : Type v} (applies wide : ρ → Bool) (verdict : ρ → α) (start : α)

def lastVerdict (rules : List ρ) : α :=
  rules.foldl (fun current rule => if applies rule then verdict rule else current) start

@[simp] theorem lastVerdict_nil : lastVerdict applies verdict start [] = start := rfl

theorem lastVerdict_concat (rules : List ρ) (rule : ρ) :
    lastVerdict applies verdict start (rules ++ [rule]) =
      if applies rule then verdict rule else lastVerdict applies verdict start rules := by
  rw [lastVerdict, List.foldl_append]
  rfl

variable {applies wide verdict start}

/-- Rules that do not apply change nothing. -/
theorem lastVerdict_append_of_not {rules after : List ρ}
    (h : ∀ rule ∈ after, applies rule = false) :
    lastVerdict applies verdict start (rules ++ after) = lastVerdict applies verdict start rules := by
  induction after using List.reverseRecOn with
  | nil => rw [List.append_nil]
  | append_singleton after rule ih =>
    rw [← List.append_assoc, lastVerdict_concat, h rule (by simp), if_neg Bool.false_ne_true]
    exact ih fun rule' h' => h rule' (List.mem_append_left _ h')

theorem lastVerdict_of_last {before after : List ρ} {rule : ρ} (hrule : applies rule = true)
    (h : ∀ rule ∈ after, applies rule = false) :
    lastVerdict applies verdict start (before ++ rule :: after) = verdict rule := by
  rw [List.append_cons, lastVerdict_append_of_not h, lastVerdict_concat, if_pos hrule]

/-- The verdict of the last rule among those that apply. -/
theorem lastVerdict_eq_getLast? (rules : List ρ) :
    lastVerdict applies verdict start rules =
      ((rules.filter applies).getLast?.map verdict).getD start := by
  induction rules using List.reverseRecOn with
  | nil => rfl
  | append_singleton rules rule ih =>
    rw [lastVerdict_concat, List.filter_append]
    split
    case isTrue h => simp [h]
    case isFalse h => simpa [h] using ih

/-- Rules that stand for one another come to the same verdict. -/
theorem lastVerdict_of_forall₂ {σ : Type*} {applies' : σ → Bool} {verdict' : σ → α}
    {R : ρ → σ → Prop}
    (hR : ∀ rule rule', R rule rule' → applies rule = applies' rule' ∧ verdict rule = verdict' rule')
    {rules : List ρ} {rules' : List σ} (h : List.Forall₂ R rules rules') :
    lastVerdict applies verdict start rules = lastVerdict applies' verdict' start rules' := by
  unfold lastVerdict
  induction h generalizing start with
  | nil => rfl
  | cons hrule hrest ih =>
    obtain ⟨happlies, hverdict⟩ := hR _ _ hrule
    rw [List.foldl_cons, List.foldl_cons, happlies, hverdict]
    exact ih

/-- Either no rule applies, or there is a last one. -/
theorem exists_last_or_not (applies : ρ → Bool) (rules : List ρ) :
    (∀ rule ∈ rules, applies rule = false) ∨
      ∃ before rule after, rules = before ++ rule :: after ∧ applies rule = true ∧
        ∀ rule' ∈ after, applies rule' = false := by
  induction rules using List.reverseRecOn with
  | nil => simp
  | append_singleton rules rule ih =>
    cases hrule : applies rule with
    | true => exact Or.inr ⟨rules, rule, [], rfl, hrule, by simp⟩
    | false =>
      rcases ih with ih | ⟨before, last, after, rfl, hlast, hafter⟩
      · refine Or.inl fun rule' h' => ?_
        rcases List.mem_append.mp h' with h' | h'
        · exact ih rule' h'
        · exact List.mem_singleton.mp h' ▸ hrule
      · refine Or.inr ⟨before, last, after ++ [rule], by simp, hlast, fun rule' h' => ?_⟩
        rcases List.mem_append.mp h' with h' | h'
        · exact hafter rule' h'
        · exact List.mem_singleton.mp h' ▸ hrule

/-- With rules that apply in a wider sense, the verdict is the same unless the last of them
applies in no other sense and contradicts the rules before it. -/
theorem lastVerdict_wide_eq_iff {rules : List ρ}
    (hwide : ∀ rule, applies rule = true → wide rule = true) :
    lastVerdict wide verdict start rules = lastVerdict applies verdict start rules ↔
      ¬ ∃ before rule after, rules = before ++ rule :: after ∧
        wide rule = true ∧ applies rule = false ∧ (∀ rule' ∈ after, wide rule' = false) ∧
        verdict rule ≠ lastVerdict applies verdict start before := by
  have hnarrow : ∀ {after : List ρ}, (∀ rule ∈ after, wide rule = false) →
      ∀ rule ∈ after, applies rule = false := by
    intro after h rule hrule
    cases happlies : applies rule with
    | true => exact absurd (hwide rule happlies) (by rw [h rule hrule]; exact Bool.false_ne_true)
    | false => rfl
  constructor
  · rintro heq ⟨before, rule, after, rfl, hrule, hnot, hafter, hne⟩
    rw [lastVerdict_of_last hrule hafter, List.append_cons,
      lastVerdict_append_of_not (hnarrow hafter), lastVerdict_concat, hnot,
      if_neg Bool.false_ne_true] at heq
    exact hne heq
  · intro hno
    rcases exists_last_or_not wide rules with hnone | ⟨before, rule, after, rfl, hrule, hafter⟩
    · have hstart : lastVerdict wide verdict start ([] ++ rules) = start :=
        lastVerdict_append_of_not hnone
      have hstart' : lastVerdict applies verdict start ([] ++ rules) = start :=
        lastVerdict_append_of_not (hnarrow hnone)
      exact hstart.trans hstart'.symm
    · rw [lastVerdict_of_last hrule hafter]
      cases happlies : applies rule with
      | true => rw [lastVerdict_of_last happlies (hnarrow hafter)]
      | false =>
        rw [List.append_cons, lastVerdict_append_of_not (hnarrow hafter), lastVerdict_concat,
          happlies, if_neg Bool.false_ne_true]
        by_contra hne
        exact hno ⟨before, rule, after, rfl, hrule, happlies, hafter, hne⟩

end ManInTheBox.Library
