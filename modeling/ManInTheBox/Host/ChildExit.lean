import Mathlib.Tactic
import ManInTheBox.Library.Run

/-! # The exit of a child process

Any number of `wait`, `wait_timeout` and `kill` calls share one child. The process
and the recorded exit have a lock each, and a call releases one before it takes the
other, so between any two of its steps the others may go on. A timeout drops a wait
at whichever `await` it has reached.
-/

namespace ManInTheBox.Host

open Library

/-- `std::process::ExitStatus`: a child that was ended by a signal has no code. -/
structure StdExitStatus where
  success : Bool
  code : Option ℤ
  deriving DecidableEq

structure ExitStatus where
  success : Bool
  code : Option ℕ
  deriving DecidableEq

def exitStatusFromStd (status : StdExitStatus) : ExitStatus where
  success := status.success
  code := status.code.map fun code => (code % 2 ^ 32).toNat

/-- The recorded exit, and how often the process has been told to die. -/
structure ChildControl where
  exit : Option (Except String ExitStatus)
  kills : ℕ

inductive Wait
  | plain
  | timeout
  deriving DecidableEq

/-- Where a call is, at one of its `await`s. -/
inductive Pc
  | fresh
  | checking (wait : Wait)
  | polling (wait : Wait)
  | storing (wait : Wait) (result : Except String ExitStatus)
  | sleeping (wait : Wait)
  | killChecking
  | killPolling
  | finished

inductive Returned
  | wait (result : Except String ExitStatus)
  | waitTimeout (result : Except String (Option ExitStatus))
  | kill (result : Except String Unit)
  | dropped

/-- A wait returns, through the timeout around it if there is one. -/
def Wait.returned (result : Except String ExitStatus) : Wait → Returned
  | .plain => .wait result
  | .timeout => .waitTimeout (result.map some)

/-- A wait is dropped; the timeout that did it returns `None`. -/
def Wait.cancelled : Wait → Returned
  | .plain => .dropped
  | .timeout => .waitTimeout (.ok none)

/-- What the operating system answers during one step. -/
structure Answers where
  tryWait : Except String (Option StdExitStatus)
  startKill : Except String Unit

/-- `store_child_exit`. -/
def ChildControl.store (control : ChildControl) (result : Except String ExitStatus) :
    ChildControl × Except String ExitStatus :=
  match control.exit with
  | some existing => (control, existing)
  | none => ({ control with exit := some result }, result)

/-- What a call does from one `await` to the next, holding at most one lock. -/
def Pc.advance (control : ChildControl) (answers : Answers) :
    Pc → Option (ChildControl × Pc × Option Returned)
  | .fresh => none
  | .checking wait =>
    match control.exit with
    | some result => some (control, .finished, some (wait.returned result))
    | none => some (control, .polling wait, none)
  | .polling wait =>
    match answers.tryWait with
    | .error error =>
      some (control, .finished,
        some (wait.returned (.error ("failed polling child exit status: " ++ error))))
    | .ok (some status) => some (control, .storing wait (.ok (exitStatusFromStd status)), none)
    | .ok none => some (control, .sleeping wait, none)
  | .storing wait result =>
    let (control, stored) := control.store result
    some (control, .finished, some (wait.returned stored))
  | .sleeping wait => some (control, .checking wait, none)
  | .killChecking =>
    match control.exit with
    | some _ => some (control, .finished, some (.kill (.ok ())))
    | none => some (control, .killPolling, none)
  | .killPolling =>
    match answers.tryWait with
    | .error error =>
      some (control, .finished,
        some (.kill (.error ("failed polling child before kill: " ++ error))))
    | .ok (some _) => some (control, .finished, some (.kill (.ok ())))
    | .ok none =>
      match answers.startKill with
      | .error error =>
        some ({ control with kills := control.kills + 1 }, .finished,
          some (.kill (.error ("failed killing child process: " ++ error))))
      | .ok _ =>
        some ({ control with kills := control.kills + 1 }, .finished, some (.kill (.ok ())))
  | .finished => none

/-- How a call that is dropped ends. -/
def Pc.drop : Pc → Option Returned
  | .checking wait | .polling wait | .storing wait _ | .sleeping wait => some wait.cancelled
  | .killChecking | .killPolling => some .dropped
  | .fresh | .finished => none

/-! ## All calls on one child -/

structure ChildState where
  control : ChildControl
  calls : ℕ → Pc

def ChildState.initial : ChildState := ⟨⟨none, 0⟩, fun _ => .fresh⟩

inductive ChildCall
  | wait (kind : Wait)
  | kill

def ChildCall.pc : ChildCall → Pc
  | .wait kind => .checking kind
  | .kill => .killChecking

inductive ChildLabel
  | begin (call : ℕ) (request : ChildCall)
  | advance (call : ℕ) (answers : Answers)
  | cancel (call : ℕ)

def ChildState.goto (s : ChildState) (call : ℕ) (control : ChildControl) (pc : Pc) : ChildState where
  control := control
  calls := Function.update s.calls call pc

/-- A call that returns says so. -/
def childStep (s : ChildState) : ChildLabel → Option (ChildState × Option (ℕ × Returned))
  | .begin call request =>
    match s.calls call with
    | .fresh => some (s.goto call s.control request.pc, none)
    | _ => none
  | .advance call answers =>
    match (s.calls call).advance s.control answers with
    | none => none
    | some (control, pc, returned) => some (s.goto call control pc, returned.map (call, ·))
  | .cancel call =>
    match (s.calls call).drop with
    | none => none
    | some returned => some (s.goto call s.control .finished, some (call, returned))

abbrev ChildTransition := Transition ChildState ChildLabel (Option (ℕ × Returned))

abbrev ChildRun := Run childStep ChildState.initial

/-! ## One step -/

@[simp] theorem ChildState.goto_control (s : ChildState) (call : ℕ) (control : ChildControl)
    (pc : Pc) : (s.goto call control pc).control = control := rfl

@[simp] theorem ChildState.goto_self (s : ChildState) (call : ℕ) (control : ChildControl)
    (pc : Pc) : (s.goto call control pc).calls call = pc := Function.update_self ..

theorem ChildState.goto_of_ne (s : ChildState) {call other : ℕ} (h : other ≠ call)
    (control : ChildControl) (pc : Pc) : (s.goto call control pc).calls other = s.calls other :=
  Function.update_of_ne h ..

/-- The exit status that a wait returned. -/
def Returned.status : Returned → Option ExitStatus
  | .wait (.ok status) => some status
  | .waitTimeout (.ok (some status)) => some status
  | _ => none

theorem Wait.status_returned (wait : Wait) (result : Except String ExitStatus) {status : ExitStatus}
    (h : (wait.returned result).status = some status) : result = .ok status := by
  cases wait <;> cases result <;> simp_all [Wait.returned, Returned.status, Except.map]

theorem Wait.status_cancelled (wait : Wait) : wait.cancelled.status = none := by
  cases wait <;> rfl

theorem Pc.status_drop {pc : Pc} {returned : Returned} (h : pc.drop = some returned) :
    returned.status = none := by
  cases pc <;> simp only [Pc.drop, Option.some.injEq, reduceCtorEq] at h
  all_goals try exact h ▸ Wait.status_cancelled _
  all_goals exact h ▸ rfl

/-- The record of the exit is written once, and a status is only returned from the record. -/
structure Recorded (control control' : ChildControl) (returned : Option Returned) : Prop where
  kept : ∀ result, control.exit = some result → control'.exit = some result
  status : ∀ r status, returned = some r → r.status = some status →
    control'.exit = some (.ok status)

theorem Recorded.of_exit {control control' : ChildControl} {returned : Option Returned}
    (hexit : control'.exit = control.exit)
    (hstatus : ∀ r status, returned = some r → r.status = some status →
      control.exit = some (.ok status)) : Recorded control control' returned where
  kept _ hresult := hexit.trans hresult
  status r status hr hreturned := hexit.trans (hstatus r status hr hreturned)

theorem ChildControl.recorded_store (control : ChildControl) (wait : Wait)
    (result : Except String ExitStatus) :
    Recorded control (control.store result).1 (some (wait.returned (control.store result).2)) := by
  rw [ChildControl.store]
  cases hexit : control.exit with
  | some existing =>
    apply Recorded.of_exit rfl
    intro r status hr hstatus
    obtain rfl := Option.some.inj hr
    rw [hexit, wait.status_returned existing hstatus]
  | none =>
    constructor
    · intro existing hexisting
      rw [hexit] at hexisting
      cases hexisting
    · intro r status hr hstatus
      obtain rfl := Option.some.inj hr
      rw [wait.status_returned result hstatus]

theorem Pc.recorded {pc pc' : Pc} {control control' : ChildControl} {answers : Answers}
    {returned : Option Returned}
    (h : pc.advance control answers = some (control', pc', returned)) :
    Recorded control control' returned := by
  have hsilent {control' : ChildControl} (hexit : control'.exit = control.exit) :
      Recorded control control' none :=
    .of_exit hexit fun r status hr => by cases hr
  have hkill {control' : ChildControl} (hexit : control'.exit = control.exit)
      (result : Except String Unit) : Recorded control control' (some (.kill result)) := by
    apply Recorded.of_exit hexit
    intro r status hr hstatus
    obtain rfl := Option.some.inj hr
    cases hstatus
  cases pc with
  | fresh => cases h
  | finished => cases h
  | checking wait =>
    rw [Pc.advance] at h
    split at h
    · rename_i result hexit
      obtain ⟨rfl, -, rfl⟩ : control = control' ∧ Pc.finished = pc' ∧
        some (wait.returned result) = returned := by simpa using h
      apply Recorded.of_exit rfl
      intro r status hr hstatus
      obtain rfl := Option.some.inj hr
      rw [hexit, wait.status_returned result hstatus]
    · obtain ⟨rfl, -, rfl⟩ : control = control' ∧ Pc.polling wait = pc' ∧ none = returned := by
        simpa using h
      exact hsilent rfl
  | polling wait =>
    rw [Pc.advance] at h
    split at h
    · rename_i error _
      obtain ⟨rfl, -, rfl⟩ : control = control' ∧ Pc.finished = pc' ∧ some (wait.returned
        (.error ("failed polling child exit status: " ++ error))) = returned := by simpa using h
      apply Recorded.of_exit rfl
      intro r status hr hstatus
      obtain rfl := Option.some.inj hr
      cases wait.status_returned _ hstatus
    · rename_i status _
      obtain ⟨rfl, -, rfl⟩ : control = control' ∧
        Pc.storing wait (.ok (exitStatusFromStd status)) = pc' ∧ none = returned := by simpa using h
      exact hsilent rfl
    · obtain ⟨rfl, -, rfl⟩ : control = control' ∧ Pc.sleeping wait = pc' ∧ none = returned := by
        simpa using h
      exact hsilent rfl
  | storing wait result =>
    obtain ⟨rfl, -, rfl⟩ : (control.store result).1 = control' ∧ Pc.finished = pc' ∧
      some (wait.returned (control.store result).2) = returned := by simpa [Pc.advance] using h
    exact control.recorded_store wait result
  | sleeping wait =>
    obtain ⟨rfl, -, rfl⟩ : control = control' ∧ Pc.checking wait = pc' ∧ none = returned := by
      simpa [Pc.advance] using h
    exact hsilent rfl
  | killChecking =>
    rw [Pc.advance] at h
    split at h
    · obtain ⟨rfl, -, rfl⟩ : control = control' ∧ Pc.finished = pc' ∧
        some (.kill (.ok ())) = returned := by simpa using h
      exact hkill rfl _
    · obtain ⟨rfl, -, rfl⟩ : control = control' ∧ Pc.killPolling = pc' ∧ none = returned := by
        simpa using h
      exact hsilent rfl
  | killPolling =>
    rw [Pc.advance] at h
    split at h
    · obtain ⟨rfl, -, rfl⟩ := Prod.mk.inj (Option.some.inj h)
      exact hkill rfl _
    · obtain ⟨rfl, -, rfl⟩ := Prod.mk.inj (Option.some.inj h)
      exact hkill rfl _
    · split at h
      · obtain ⟨rfl, -, rfl⟩ := Prod.mk.inj (Option.some.inj h)
        exact hkill (by rfl) _
      · obtain ⟨rfl, -, rfl⟩ := Prod.mk.inj (Option.some.inj h)
        exact hkill (by rfl) _

theorem childStep_recorded {s t : ChildState} {label : ChildLabel}
    {output : Option (ℕ × Returned)} (taken : childStep s label = some (t, output)) :
    Recorded s.control t.control (output.map Prod.snd) := by
  cases label with
  | begin call request =>
    rw [childStep] at taken
    split at taken
    · obtain ⟨rfl, rfl⟩ := Prod.mk.inj (Option.some.inj taken)
      exact .of_exit rfl fun r status hr => by cases hr
    · cases taken
  | advance call answers =>
    rw [childStep] at taken
    split at taken
    · cases taken
    · rename_i control pc returned hadvance
      obtain ⟨rfl, rfl⟩ := Prod.mk.inj (Option.some.inj taken)
      have hrecorded := Pc.recorded hadvance
      cases returned <;> exact hrecorded
  | cancel call =>
    rw [childStep] at taken
    split at taken
    · cases taken
    · rename_i returned hdrop
      obtain ⟨rfl, rfl⟩ := Prod.mk.inj (Option.some.inj taken)
      apply Recorded.of_exit rfl
      intro r status hr hstatus
      obtain rfl := Option.some.inj hr
      rw [Pc.status_drop hdrop] at hstatus
      cases hstatus

def ChildLabel.call : ChildLabel → ℕ
  | .begin call _ | .advance call _ | .cancel call => call

theorem childStep_of_ne {s t : ChildState} {label : ChildLabel} {output : Option (ℕ × Returned)}
    (taken : childStep s label = some (t, output)) {call : ℕ} (hcall : call ≠ label.call) :
    t.calls call = s.calls call := by
  cases label with
  | begin call' request =>
    rw [childStep] at taken
    split at taken
    · obtain ⟨rfl, -⟩ := Prod.mk.inj (Option.some.inj taken)
      exact s.goto_of_ne hcall ..
    · cases taken
  | advance call' answers =>
    rw [childStep] at taken
    split at taken
    · cases taken
    · obtain ⟨rfl, -⟩ := Prod.mk.inj (Option.some.inj taken)
      exact s.goto_of_ne hcall ..
  | cancel call' =>
    rw [childStep] at taken
    split at taken
    · cases taken
    · obtain ⟨rfl, -⟩ := Prod.mk.inj (Option.some.inj taken)
      exact s.goto_of_ne hcall ..

/-- The first step of a kill that finds an exit recorded is its last. -/
theorem childStep_killChecking {s t : ChildState} {call : ℕ} {answers : Answers}
    {output : Option (ℕ × Returned)} (hpc : s.calls call = .killChecking)
    (hexit : s.control.exit.isSome = true)
    (taken : childStep s (.advance call answers) = some (t, output)) :
    output = some (call, .kill (.ok ())) ∧ t = s.goto call s.control .finished := by
  obtain ⟨result, hresult⟩ := Option.isSome_iff_exists.mp hexit
  simp only [childStep, hpc, Pc.advance, hresult] at taken
  obtain ⟨rfl, rfl⟩ := Prod.mk.inj (Option.some.inj taken)
  exact ⟨rfl, rfl⟩

/-! ## Every run -/

/-- Whatever a wait has returned is what is recorded. -/
def OneStatus (history : List ChildTransition) (s : ChildState) : Prop :=
  ∀ u ∈ history, ∀ call returned status, u.output = some (call, returned) →
    returned.status = some status → s.control.exit = some (.ok status)

theorem oneStatus_of_run {history : List ChildTransition} {s : ChildState}
    (run : ChildRun history s) : OneStatus history s := by
  apply run.historyInvariant OneStatus
  · intro u hu
    cases hu
  · intro history s label t output _ h taken u hu call returned status houtput hstatus
    have hrecorded := childStep_recorded taken
    rcases List.mem_append.mp hu with hold | hlast
    · exact hrecorded.kept _ (h u hold call returned status houtput hstatus)
    · obtain rfl := List.mem_singleton.mp hlast
      obtain rfl : output = some (call, returned) := houtput
      exact hrecorded.status returned status rfl hstatus

/-- The call was a kill that began when an exit was already recorded. -/
def LateKill (history : List ChildTransition) (call : ℕ) : Prop :=
  ∃ u ∈ history, u.label = .begin call .kill ∧ u.source.control.exit.isSome = true

/-- A late kill is about to look at the record, where it will find the exit, or it is over. -/
def LateKillsPending (history : List ChildTransition) (s : ChildState) : Prop :=
  ∀ call, LateKill history call → s.control.exit.isSome = true ∧
    (s.calls call = .killChecking ∨ s.calls call = .finished)

theorem LateKillsPending.step {history : List ChildTransition} {s t : ChildState}
    {label : ChildLabel} {output : Option (ℕ × Returned)} (h : LateKillsPending history s)
    (taken : childStep s label = some (t, output)) :
    LateKillsPending (history ++ [⟨s, label, output, t⟩]) t := by
  rintro call ⟨u, hu, hlabel, hexit⟩
  have hkept : s.control.exit.isSome = true → t.control.exit.isSome = true := by
    intro hsome
    obtain ⟨result, hresult⟩ := Option.isSome_iff_exists.mp hsome
    rw [(childStep_recorded taken).kept result hresult]
    rfl
  rcases List.mem_append.mp hu with hold | hlast
  · obtain ⟨hsome, hpc⟩ := h call ⟨u, hold, hlabel, hexit⟩
    refine ⟨hkept hsome, ?_⟩
    by_cases hcall : call = label.call
    · cases label with
      | begin call' request =>
        obtain rfl : call = call' := hcall
        rcases hpc with hpc | hpc <;> simp [childStep, hpc] at taken
      | advance call' answers =>
        obtain rfl : call = call' := hcall
        rcases hpc with hpc | hpc
        · obtain ⟨-, rfl⟩ := childStep_killChecking hpc hsome taken
          simp
        · simp [childStep, hpc, Pc.advance] at taken
      | cancel call' =>
        obtain rfl : call = call' := hcall
        rcases hpc with hpc | hpc
        · simp only [childStep, hpc, Pc.drop] at taken
          obtain ⟨rfl, -⟩ := Prod.mk.inj (Option.some.inj taken)
          simp
        · simp [childStep, hpc, Pc.drop] at taken
    · rwa [childStep_of_ne taken hcall]
  · obtain rfl := List.mem_singleton.mp hlast
    obtain rfl : label = .begin call .kill := hlabel
    refine ⟨hkept hexit, .inl ?_⟩
    rw [childStep] at taken
    split at taken
    · obtain ⟨rfl, -⟩ := Prod.mk.inj (Option.some.inj taken)
      simp [ChildCall.pc]
    · cases taken

theorem lateKills_of_run {history : List ChildTransition} {s : ChildState}
    (run : ChildRun history s) : LateKillsPending history s := by
  apply run.historyInvariant LateKillsPending
  · rintro call ⟨u, hu, -⟩
    cases hu
  · intro history s label t output _ h taken
    exact h.step taken

/-- All waits that return an exit status return the same one; the record of the exit never changes,
and a kill that begins after it succeeds at its first step, with the process and the record left
alone. -/
theorem waiters_see_one_status {history : List ChildTransition} {s : ChildState}
    (run : ChildRun history s) :
    (∀ u ∈ history, ∀ v ∈ history, ∀ call call' returned returned' status status',
      u.output = some (call, returned) → returned.status = some status →
      v.output = some (call', returned') → returned'.status = some status' →
      status = status') ∧
    (∀ u ∈ history, ∀ result, u.source.control.exit = some result →
      u.target.control.exit = some result) ∧
    ∀ past u later call answers, history = past ++ u :: later → LateKill past call →
      u.label = .advance call answers →
      u.output = some (call, .kill (.ok ())) ∧ u.target.control = u.source.control := by
  refine ⟨?_, ?_, ?_⟩
  · intro u hu v hv call call' returned returned' status status' hu' hstatus hv' hstatus'
    have hone := oneStatus_of_run run
    have hexit := hone u hu call returned status hu' hstatus
    rw [hone v hv call' returned' status' hv' hstatus'] at hexit
    exact (Except.ok.inj (Option.some.inj hexit)).symm
  · intro u hu result hresult
    exact (childStep_recorded (run.mem_step hu).2).kept result hresult
  · rintro past u later call answers rfl hlate hlabel
    obtain ⟨before, taken⟩ := run.cut
    obtain ⟨hsome, hpc | hpc⟩ := lateKills_of_run before call hlate
    · rw [hlabel] at taken
      obtain ⟨houtput, htarget⟩ := childStep_killChecking hpc hsome taken
      exact ⟨houtput, by rw [htarget, ChildState.goto_control]⟩
    · simp [hlabel, childStep, hpc, Pc.advance] at taken

/-- Two waits poll before either stores, and the system reports two different statuses; then a kill
comes too late. -/
def racingWaits : List ChildLabel :=
  let exited (code : ℤ) : Answers := ⟨.ok (some ⟨code = 0, some code⟩), .ok ()⟩
  [.begin 0 (.wait .plain), .begin 1 (.wait .timeout), .advance 0 (exited 0), .advance 1 (exited 0),
    .advance 0 (exited 0), .advance 1 (exited 1), .advance 1 (exited 1), .advance 0 (exited 0),
    .begin 2 .kill, .advance 2 (exited 0)]

theorem waiters_see_one_status_racing :
    (trace childStep .initial racingWaits).filterMap (fun u => u.output.bind fun r => r.2.status) =
      [⟨false, some 1⟩, ⟨false, some 1⟩] ∧
    ∀ u ∈ trace childStep .initial racingWaits, ∀ result,
      u.source.control.exit = some result → u.target.control.exit = some result := by
  have run : ChildRun (trace _ _ racingWaits) (reached _ _ racingWaits) := Run.of_labels rfl
  exact ⟨by decide, (waiters_see_one_status run).2.1⟩

end ManInTheBox.Host
