import Mathlib.Logic.Basic
import Mathlib.Data.List.Basic

/-! # Runs of a labelled machine

A machine is a partial step function: the label fixes every choice that the
environment makes, a step that is not enabled returns nothing, and a step that
is taken reports an output. A run keeps its whole history, so a statement may
speak about the past of a state as well as about the state itself.
-/

namespace ManInTheBox.Library

variable {σ τ α β ω υ : Type*}

/-- One step that was taken, with the states on both of its sides. -/
structure Transition (σ α ω : Type*) where
  source : σ
  label : α
  output : ω
  target : σ

/-- `Run step init history s`: the steps of `history`, oldest first, lead from `init` to `s`. -/
inductive Run (step : σ → α → Option (σ × ω)) (init : σ) :
    List (Transition σ α ω) → σ → Prop
  | start : Run step init [] init
  | step {history : List (Transition σ α ω)} {s t : σ} {label : α} {output : ω}
      (past : Run step init history s) (taken : step s label = some (t, output)) :
      Run step init (history ++ [⟨s, label, output, t⟩]) t

namespace Run

variable {step : σ → α → Option (σ × ω)} {init : σ}

/-- A property of states that every step preserves holds wherever a run ends. -/
theorem invariant (I : σ → Prop) (hinit : I init)
    (hstep : ∀ s label t output, I s → step s label = some (t, output) → I t)
    {history : List (Transition σ α ω)} {s : σ} (run : Run step init history s) : I s := by
  induction run with
  | start => exact hinit
  | step past taken ih => exact hstep _ _ _ _ ih taken

/-- The same rule for a relation between the history and the state it leads to, kept by the steps
that meet a side condition. -/
theorem historyInvariant_of_forall (P : Transition σ α ω → Prop)
    (I : List (Transition σ α ω) → σ → Prop) (hinit : I [] init)
    (hstep : ∀ history s label t output, Run step init history s → I history s →
      step s label = some (t, output) → P ⟨s, label, output, t⟩ →
      I (history ++ [⟨s, label, output, t⟩]) t)
    {history : List (Transition σ α ω)} {s : σ} (run : Run step init history s)
    (hP : ∀ t ∈ history, P t) : I history s := by
  induction run with
  | start => exact hinit
  | step past taken ih =>
    have hpast := ih fun t ht => hP t (List.mem_append_left _ ht)
    exact hstep _ _ _ _ _ past hpast taken (hP _ (by simp))

theorem historyInvariant (I : List (Transition σ α ω) → σ → Prop) (hinit : I [] init)
    (hstep : ∀ history s label t output, Run step init history s → I history s →
      step s label = some (t, output) → I (history ++ [⟨s, label, output, t⟩]) t)
    {history : List (Transition σ α ω)} {s : σ} (run : Run step init history s) :
    I history s :=
  run.historyInvariant_of_forall (fun _ => True) I hinit
    (fun _ _ _ _ _ past h taken _ => hstep _ _ _ _ _ past h taken) fun _ _ => trivial

/-- A property that is preserved by the steps meeting a side condition holds at the end of
every run all of whose steps meet it. -/
theorem invariant_of_forall (P : Transition σ α ω → Prop) (I : σ → Prop) (hinit : I init)
    (hstep : ∀ s label t output, I s → step s label = some (t, output) →
      P ⟨s, label, output, t⟩ → I t)
    {history : List (Transition σ α ω)} {s : σ} (run : Run step init history s)
    (hP : ∀ t ∈ history, P t) : I s :=
  run.historyInvariant_of_forall P (fun _ s => I s) hinit
    (fun _ _ _ _ _ _ h taken hp => hstep _ _ _ _ h taken hp) hP

/-- Cutting a history at one of its transitions: what comes before is a run that ends where the
transition starts, and the transition was a step of the machine. -/
theorem cut {pre post : List (Transition σ α ω)} {t : Transition σ α ω} {s : σ}
    (run : Run step init (pre ++ t :: post) s) :
    Run step init pre t.source ∧ step t.source t.label = some (t.target, t.output) := by
  generalize hh : pre ++ t :: post = history at run
  induction run generalizing post with
  | start => simp at hh
  | step past taken ih =>
    rcases List.eq_nil_or_concat post with rfl | ⟨post', last, rfl⟩
    · obtain ⟨rfl, hlast⟩ := List.append_inj' hh rfl
      obtain rfl := (List.cons.inj hlast).1
      exact ⟨past, taken⟩
    · rw [List.concat_eq_append, ← List.cons_append, ← List.append_assoc] at hh
      exact ih (List.append_inj' hh rfl).1

theorem mem_step {history : List (Transition σ α ω)} {t : Transition σ α ω} {s : σ}
    (run : Run step init history s) (ht : t ∈ history) :
    (∃ pre, Run step init pre t.source) ∧ step t.source t.label = some (t.target, t.output) := by
  obtain ⟨pre, post, rfl⟩ := List.append_of_mem ht
  exact ⟨⟨pre, run.cut.1⟩, run.cut.2⟩

/-- A run of a finer machine is a run of a coarser one, once every fine step is either
invisible under the projection or a step of the coarse machine. -/
theorem project {step' : τ → β → Option (τ × υ)} (proj : σ → τ)
    (hstep : ∀ s label t output, step s label = some (t, output) →
      proj t = proj s ∨ ∃ label' output', step' (proj s) label' = some (proj t, output'))
    {history : List (Transition σ α ω)} {s : σ} (run : Run step init history s) :
    ∃ history', Run step' (proj init) history' (proj s) := by
  induction run with
  | start => exact ⟨[], .start⟩
  | step past taken ih =>
    obtain ⟨history', run'⟩ := ih
    rcases hstep _ _ _ _ taken with heq | ⟨label', output', taken'⟩
    · exact ⟨history', heq ▸ run'⟩
    · exact ⟨_, run'.step taken'⟩

end Run

/-- Take the steps of a list of labels one after another. -/
def exec (step : σ → α → Option (σ × ω)) : σ → List α → Option (List (Transition σ α ω) × σ)
  | s, [] => some ([], s)
  | s, label :: labels =>
    match step s label with
    | none => none
    | some (t, output) =>
      (exec step t labels).map fun r => (⟨s, label, output, t⟩ :: r.1, r.2)

/-- What `exec` computes is a run, whatever run led to the state it starts from. -/
theorem Run.exec_append {step : σ → α → Option (σ × ω)} {init s t : σ}
    {past history : List (Transition σ α ω)} {labels : List α} (run : Run step init past s)
    (h : exec step s labels = some (history, t)) : Run step init (past ++ history) t := by
  induction labels generalizing past s history with
  | nil =>
    obtain ⟨rfl, rfl⟩ : [] = history ∧ s = t := by simpa [exec] using h
    simpa using run
  | cons label labels ih =>
    rw [exec] at h
    split at h
    · cases h
    · rename_i u output hstep
      obtain ⟨⟨rest, t'⟩, hrest, heq⟩ := Option.map_eq_some_iff.mp h
      obtain ⟨rfl, rfl⟩ := Prod.mk.inj heq
      have := ih (run.step hstep) hrest
      rwa [List.append_assoc] at this

theorem Run.of_exec {step : σ → α → Option (σ × ω)} {init t : σ}
    {history : List (Transition σ α ω)} {labels : List α}
    (h : exec step init labels = some (history, t)) : Run step init history t :=
  Run.exec_append .start h

/-- The transitions that a list of enabled labels takes. -/
def trace (step : σ → α → Option (σ × ω)) (init : σ) (labels : List α) :
    List (Transition σ α ω) :=
  ((exec step init labels).map Prod.fst).getD []

/-- The state that a list of enabled labels leads to. -/
def reached (step : σ → α → Option (σ × ω)) (init : σ) (labels : List α) : σ :=
  ((exec step init labels).map Prod.snd).getD init

theorem Run.of_labels {step : σ → α → Option (σ × ω)} {init : σ} {labels : List α}
    (h : (exec step init labels).isSome) :
    Run step init (trace step init labels) (reached step init labels) := by
  obtain ⟨⟨history, s⟩, hexec⟩ := Option.isSome_iff_exists.mp h
  simpa [trace, reached, hexec] using Run.of_exec hexec

end ManInTheBox.Library
