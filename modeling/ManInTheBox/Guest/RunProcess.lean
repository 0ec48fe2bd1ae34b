import ManInTheBox.Host.ChildExit
import ManInTheBox.Host.OutputPipe
import ManInTheBox.Library.Utf8

/-! # Running a process

`run_process_with_timeout` waits for the child and collects both of its outputs at once, so that
the child is never left with a full pipe. A wait that times out kills the child; the outputs
are awaited all the same.
-/

namespace ManInTheBox.Guest

open Library Host

inductive TimeoutOutcome
  | completed (stdout : List UInt8)
  | timedOut
  deriving DecidableEq

/-- Where `wait_fut` is. -/
inductive WaitPhase
  | waiting
  | killing
  | finished (result : Except String (Option ExitStatus))

structure ProcessCall where
  stdout : OutputPipe
  stderr : OutputPipe
  exit : Option ExitStatus
  wait : WaitPhase
  result : Option (Except String TimeoutOutcome)

/-- The steps on the outputs, then: the child exits, the wait returns, fails or times out, the child
is killed, and all three have been joined. -/
inductive ProcessStep
  | stdout (label : OutputStep)
  | stderr (label : OutputStep)
  | exit (status : ExitStatus)
  | waitReturns
  | waitFails (message : String)
  | timeOut
  | kill
  | join

/-- The error of a process that has not succeeded. -/
def exitError (name : String) (status : ExitStatus) (stderr : List UInt8) : String :=
  let code :=
    match status.code with
    | some code => toString code
    | none => "terminated by signal"
  "process `" ++ name ++ "` exited with status " ++ code ++ ": " ++
    String.ofList (fromUtf8Lossy stderr)

/-- What is made of the three results. -/
def joined (name : String) (wait : Except String (Option ExitStatus))
    (stdout stderr : Except String (List UInt8)) : Except String TimeoutOutcome := do
  match ← wait with
  | none => return .timedOut
  | some status =>
    let stdoutBytes ← stdout
    let stderrBytes ← stderr
    if !status.success then .error (exitError name status stderrBytes)
    else return .completed stdoutBytes

namespace ProcessCall

def start : ProcessCall := ⟨.start, .start, none, .waiting, none⟩

def step (name : String) (capacity : ℕ) (this : ProcessCall) :
    ProcessStep → Option (ProcessCall × Unit)
  | .stdout label =>
    match this.stdout.step "stdout" capacity label with
    | some (stdout, _) => some ({ this with stdout }, ())
    | none => none
  | .stderr label =>
    match this.stderr.step "stderr" capacity label with
    | some (stderr, _) => some ({ this with stderr }, ())
    | none => none
  | .exit status =>
    match this.exit with
    | none => some ({ this with exit := some status }, ())
    | some _ => none
  | .waitReturns =>
    match this.wait, this.exit with
    | .waiting, some status => some ({ this with wait := .finished (.ok (some status)) }, ())
    | _, _ => none
  | .waitFails message =>
    match this.wait with
    | .waiting => some ({ this with wait := .finished (.error message) }, ())
    | _ => none
  | .timeOut =>
    match this.wait with
    | .waiting => some ({ this with wait := .killing }, ())
    | _ => none
  | .kill =>
    match this.wait with
    | .killing => some ({ this with wait := .finished (.ok none) }, ())
    | _ => none
  | .join =>
    match this.result, this.wait, this.stdout.collector, this.stderr.collector with
    | none, .finished wait, .finished stdout, .finished stderr =>
      some ({ this with result := some (joined name wait stdout stderr) }, ())
    | _, _, _, _ => none

end ProcessCall

abbrev ProcessTransition := Transition ProcessCall ProcessStep Unit

abbrev ProcessRun (name : String) (capacity : ℕ) :=
  Run (ProcessCall.step name capacity) ProcessCall.start

/-! ## What a result says -/

namespace ProcessCall

variable {name : String} {capacity : ℕ} {s t : ProcessCall} {label : ProcessStep} {u : Unit}

/-- What is known of a call at any time. -/
structure Tracks (s : ProcessCall) (name : String) : Prop where
  stdout : OutputPipe.Flows s.stdout
  stderr : OutputPipe.Flows s.stderr
  wait : ∀ status, s.wait = .finished (.ok (some status)) → s.exit = some status
  result : ∀ result, s.result = some result → ∃ wait stdout stderr,
    s.wait = .finished wait ∧ s.stdout.collector = .finished stdout ∧
    s.stderr.collector = .finished stderr ∧ result = joined name wait stdout stderr

theorem Tracks.start (name : String) : Tracks start name :=
  ⟨.start, .start, by simp [ProcessCall.start], by simp [ProcessCall.start]⟩

theorem collector_of_step {streamName : String} {this next : OutputPipe} {label : OutputStep}
    (taken : this.step streamName capacity label = some (next, u))
    {result : Except String (List UInt8)} (hfinished : this.collector = .finished result) :
    next.collector = .finished result := by
  cases label
  all_goals
    simp only [OutputPipe.step] at taken
    repeat' split at taken
    all_goals cases taken
  all_goals simp_all

theorem step_stdout {label : OutputStep}
    (taken : s.step name capacity (.stdout label) = some (t, u)) :
    ∃ stdout, s.stdout.step "stdout" capacity label = some (stdout, ()) ∧ t = { s with stdout } := by
  simp only [ProcessCall.step] at taken
  split at taken
  · rename_i stdout _ hstep
    exact ⟨stdout, hstep, (Prod.mk.inj (Option.some.inj taken)).1.symm⟩
  · cases taken

theorem step_stderr {label : OutputStep}
    (taken : s.step name capacity (.stderr label) = some (t, u)) :
    ∃ stderr, s.stderr.step "stderr" capacity label = some (stderr, ()) ∧ t = { s with stderr } := by
  simp only [ProcessCall.step] at taken
  split at taken
  · rename_i stderr _ hstep
    exact ⟨stderr, hstep, (Prod.mk.inj (Option.some.inj taken)).1.symm⟩
  · cases taken

theorem Tracks.step (h : Tracks s name) (taken : s.step name capacity label = some (t, u)) :
    Tracks t name := by
  cases label
  case stdout label =>
    obtain ⟨stdout, hstep, rfl⟩ := step_stdout taken
    refine ⟨h.stdout.step hstep, h.stderr, h.wait, fun result hresult => ?_⟩
    obtain ⟨wait, out, err, hwait, hout, herr, rfl⟩ := h.result result hresult
    exact ⟨wait, out, err, hwait, collector_of_step hstep hout, herr, rfl⟩
  case stderr label =>
    obtain ⟨stderr, hstep, rfl⟩ := step_stderr taken
    refine ⟨h.stdout, h.stderr.step hstep, h.wait, fun result hresult => ?_⟩
    obtain ⟨wait, out, err, hwait, hout, herr, rfl⟩ := h.result result hresult
    exact ⟨wait, out, err, hwait, hout, collector_of_step hstep herr, rfl⟩
  all_goals
    obtain ⟨hstdout, hstderr, hwait, hresult⟩ := h
    simp only [ProcessCall.step] at taken
    repeat' split at taken
    all_goals cases taken
  all_goals refine ⟨hstdout, hstderr, ?_, ?_⟩
  all_goals simp_all

/-- Every failure in sight has been made by a step of the history. -/
structure Accounts (history : List ProcessTransition) (s : ProcessCall) : Prop where
  stdout : ∀ error, s.stdout.Failed error → ∃ taken ∈ history, ∃ message,
    taken.label = .stdout (.readFails message) ∧ error = readError "stdout" message
  stderr : ∀ error, s.stderr.Failed error → ∃ taken ∈ history, ∃ message,
    taken.label = .stderr (.readFails message) ∧ error = readError "stderr" message
  timedOut : s.wait = .killing ∨ s.wait = .finished (.ok none) →
    ∃ taken ∈ history, taken.label = .timeOut
  wait : ∀ error, s.wait = .finished (.error error) →
    ∃ taken ∈ history, taken.label = .waitFails error

theorem Accounts.start : Accounts [] start := by
  constructor <;> simp [ProcessCall.start, OutputPipe.not_failed_start]

/-- A history that is longer accounts for no less. -/
theorem exists_of_past {history : List ProcessTransition} {P : ProcessTransition → Prop}
    (taken : ProcessTransition) (h : ∃ t ∈ history, P t) : ∃ t ∈ history ++ [taken], P t := by
  obtain ⟨t, ht, hP⟩ := h
  exact ⟨t, List.mem_append_left _ ht, hP⟩

theorem Accounts.step {history : List ProcessTransition} (h : Accounts history s)
    (hflows : Tracks s name) (taken : s.step name capacity label = some (t, u)) :
    Accounts (history ++ [⟨s, label, u, t⟩]) t := by
  have hnow {P : ProcessTransition → Prop} (hP : P ⟨s, label, u, t⟩) :
      ∃ taken ∈ history ++ [⟨s, label, u, t⟩], P taken := ⟨_, List.mem_concat_self, hP⟩
  have hpast : Accounts (history ++ [⟨s, label, u, t⟩]) s :=
    ⟨fun error he => exists_of_past _ (h.stdout error he),
      fun error he => exists_of_past _ (h.stderr error he),
      fun hwait => exists_of_past _ (h.timedOut hwait),
      fun error he => exists_of_past _ (h.wait error he)⟩
  cases label
  case stdout label =>
    obtain ⟨stdout, hstep, rfl⟩ := step_stdout taken
    refine ⟨fun error he => ?_, hpast.stderr, hpast.timedOut, hpast.wait⟩
    rcases OutputPipe.Failed.of_step hflows.stdout hstep he with hbefore | ⟨message, rfl, rfl⟩
    · exact hpast.stdout error hbefore
    · exact hnow ⟨message, rfl, rfl⟩
  case stderr label =>
    obtain ⟨stderr, hstep, rfl⟩ := step_stderr taken
    refine ⟨hpast.stdout, fun error he => ?_, hpast.timedOut, hpast.wait⟩
    rcases OutputPipe.Failed.of_step hflows.stderr hstep he with hbefore | ⟨message, rfl, rfl⟩
    · exact hpast.stderr error hbefore
    · exact hnow ⟨message, rfl, rfl⟩
  case timeOut =>
    simp only [ProcessCall.step] at taken
    split at taken
    · obtain rfl := (Prod.mk.inj (Option.some.inj taken)).1
      exact ⟨hpast.stdout, hpast.stderr, fun _ => hnow rfl, fun error he => by cases he⟩
    · cases taken
  case waitFails message =>
    simp only [ProcessCall.step] at taken
    split at taken
    · obtain rfl := (Prod.mk.inj (Option.some.inj taken)).1
      refine ⟨hpast.stdout, hpast.stderr, fun he => by simp at he, fun error he => hnow ?_⟩
      cases he
      rfl
    · cases taken
  all_goals
    obtain ⟨hstdout, hstderr, htimedOut, hwait⟩ := hpast
    simp only [ProcessCall.step] at taken
    repeat' split at taken
    all_goals cases taken
  all_goals refine ⟨hstdout, hstderr, ?_, ?_⟩
  all_goals simp_all

/-! ## A call comes to its end -/

/-- Neither the child nor a failure nor the clock makes this step. -/
def OfHost : ProcessStep → Prop
  | .stdout label | .stderr label => OutputPipe.OfHost label
  | .waitReturns | .kill | .join => True
  | .exit _ | .waitFails _ | .timeOut => False

def waitWork : WaitPhase → ℕ
  | .waiting => 1
  | .killing => 1
  | .finished _ => 0

def work (s : ProcessCall) : ℕ :=
  s.stdout.work + s.stderr.work + waitWork s.wait + if s.result = none then 1 else 0

theorem work_lowers : Lowers (ProcessCall.step name capacity) OfHost work := by
  intro s label t u hhost taken
  cases label
  case stdout label =>
    obtain ⟨stdout, hstep, rfl⟩ := step_stdout taken
    have hlt := OutputPipe.work_lt hstep hhost
    simp only [work]
    omega
  case stderr label =>
    obtain ⟨stderr, hstep, rfl⟩ := step_stderr taken
    have hlt := OutputPipe.work_lt hstep hhost
    simp only [work]
    omega
  case exit | waitFails | timeOut => cases hhost
  all_goals
    simp only [ProcessCall.step] at taken
    repeat' split at taken
    all_goals cases taken
  all_goals simp_all [work, waitWork]

/-- An output that is still awaited has been taken up to the last byte written, and the child keeps
it open. -/
def Awaited (this : OutputPipe) : Prop :=
  this.collected = this.written ∧ this.pipe = [] ∧ this.closed = false

theorem Tracks.of_stuck (h : Tracks s name)
    (hstuck : Stuck (ProcessCall.step name capacity) OfHost s) :
    s.result ≠ none ∨ s.wait = .waiting ∧ s.exit = none ∨ Awaited s.stdout ∨ Awaited s.stderr := by
  have hstdout (label : OutputStep) (hhost : OutputPipe.OfHost label) :
      s.stdout.step "stdout" capacity label = none := by
    have hnone := hstuck (.stdout label) hhost
    simp only [ProcessCall.step] at hnone
    split at hnone
    · cases hnone
    · assumption
  have hstderr (label : OutputStep) (hhost : OutputPipe.OfHost label) :
      s.stderr.step "stderr" capacity label = none := by
    have hnone := hstuck (.stderr label) hhost
    simp only [ProcessCall.step] at hnone
    split at hnone
    · cases hnone
    · assumption
  rcases h.stdout.of_stuck hstdout with ⟨stdout, hout⟩ | hopen
  swap
  · exact .inr (.inr (.inl hopen))
  rcases h.stderr.of_stuck hstderr with ⟨stderr, herr⟩ | hopen
  swap
  · exact .inr (.inr (.inr hopen))
  cases hwait : s.wait with
  | waiting =>
    have hreturns := hstuck .waitReturns trivial
    cases hexit : s.exit with
    | none => exact .inr (.inl ⟨rfl, rfl⟩)
    | some status => simp [ProcessCall.step, hwait, hexit] at hreturns
  | killing =>
    have hkill := hstuck .kill trivial
    simp [ProcessCall.step, hwait] at hkill
  | finished wait =>
    left
    intro hresult
    have hjoin := hstuck .join trivial
    simp [ProcessCall.step, hresult, hwait, hout, herr] at hjoin

/-- What a result tells of the child and of what has happened. -/
def Justified (name : String) (history : List ProcessTransition) (s : ProcessCall) :
    Except String TimeoutOutcome → Prop
  | .ok (.completed output) =>
    output = s.stdout.written ∧ s.stdout.closed = true ∧
      ∃ status, s.exit = some status ∧ status.success = true
  | .ok .timedOut => ∃ taken ∈ history, taken.label = .timeOut
  | .error error =>
    (∃ status, s.exit = some status ∧ status.success = false ∧ s.stderr.closed = true ∧
      error = exitError name status s.stderr.written) ∨
    ∃ taken ∈ history, taken.label = .waitFails error ∨ ∃ message,
      taken.label = .stdout (.readFails message) ∧ error = readError "stdout" message ∨
      taken.label = .stderr (.readFails message) ∧ error = readError "stderr" message

theorem Tracks.justified {history : List ProcessTransition} (h : Tracks s name)
    (haccounts : Accounts history s) {result : Except String TimeoutOutcome}
    (hresult : s.result = some result) : Justified name history s result := by
  obtain ⟨wait, stdout, stderr, hwait, hout, herr, rfl⟩ := h.result result hresult
  match wait, stdout, stderr with
  | .error error, _, _ =>
    obtain ⟨taken, htaken, hlabel⟩ := haccounts.wait error hwait
    exact .inr ⟨taken, htaken, .inl hlabel⟩
  | .ok none, _, _ => exact haccounts.timedOut (.inr hwait)
  | .ok (some status), .error error, _ =>
    obtain ⟨taken, htaken, message, hlabel, he⟩ := haccounts.stdout error (.inr (.inr hout))
    exact .inr ⟨taken, htaken, .inr ⟨message, .inl ⟨hlabel, he⟩⟩⟩
  | .ok (some status), .ok _, .error error =>
    obtain ⟨taken, htaken, message, hlabel, he⟩ := haccounts.stderr error (.inr (.inr herr))
    exact .inr ⟨taken, htaken, .inr ⟨message, .inr ⟨hlabel, he⟩⟩⟩
  | .ok (some status), .ok output, .ok errors =>
    obtain ⟨rfl, hclosed⟩ := h.stdout.complete hout
    obtain ⟨rfl, hclosed'⟩ := h.stderr.complete herr
    have hexit := h.wait status hwait
    cases hsuccess : status.success with
    | false =>
      have hjoined : joined name (.ok (some status)) (.ok s.stdout.written) (.ok s.stderr.written) =
          .error (exitError name status s.stderr.written) := by
        simp [joined, hsuccess, bind, Except.bind]
      rw [hjoined]
      exact .inl ⟨status, hexit, hsuccess, hclosed', rfl⟩
    | true =>
      have hjoined : joined name (.ok (some status)) (.ok s.stdout.written) (.ok s.stderr.written) =
          .ok (.completed s.stdout.written) := by
        simp [joined, hsuccess, bind, Except.bind, pure, Except.pure]
      rw [hjoined]
      exact ⟨rfl, hclosed, status, hexit, hsuccess⟩

end ProcessCall

open ProcessCall in
/-- However the child, the readers of its outputs and the guest take turns, and whatever room a pipe
has: a result that is `Completed` is all that a child has written which has succeeded and closed its
output, and any other names what has happened. Host and guest have so many steps to make at most
until the call has its result, or waits for the child to exit or to close an output that has been
emptied. -/
theorem run_process_output {name : String} {capacity : ℕ} {history : List ProcessTransition}
    {s : ProcessCall} (run : ProcessRun name capacity history s) :
    (∀ result, s.result = some result → Justified name history s result) ∧
    (∀ more t, Run (ProcessCall.step name capacity) s more t → (∀ u ∈ more, OfHost u.label) →
      more.length ≤ s.work) ∧
    (Stuck (ProcessCall.step name capacity) OfHost s →
      s.result ≠ none ∨ s.wait = .waiting ∧ s.exit = none ∨ Awaited s.stdout ∨ Awaited s.stderr) := by
  have htracks : Tracks s name := run.invariant (fun s => Tracks s name) (Tracks.start name)
    fun _ _ _ _ h taken => h.step taken
  have haccounts : Accounts history s := run.historyInvariant Accounts .start
    fun _ _ _ _ _ past h taken =>
      h.step (past.invariant (fun s => Tracks s name) (Tracks.start name)
        fun _ _ _ _ h taken => h.step taken) taken
  refine ⟨fun result hresult => htracks.justified haccounts hresult, ?_, htracks.of_stuck⟩
  intro more t hmore hhost
  have hlength := work_lowers.length_le hmore hhost
  omega

/-- A child that writes more than its pipe has room for, and fails. -/
def failingChildSteps : List ProcessStep :=
  [.stderr (.write [110, 111]), .stderr (.read 2), .stderr .send, .stderr (.write [33]),
    .exit ⟨false, some 3⟩, .stdout .close, .stderr .close, .waitReturns, .stdout (.read 0),
    .stdout .tell, .stdout .letGo, .stdout .endOfStream, .stdout .awaitDone, .stderr (.collect 1),
    .stderr .send, .stderr .send, .stderr (.read 1), .stderr .send, .stderr .send,
    .stderr (.read 0), .stderr .tell, .stderr .letGo, .stderr (.collect 2), .stderr .endOfStream,
    .stderr .awaitDone, .join]

theorem run_process_output_failing :
    (reached (ProcessCall.step "ls" 2) ProcessCall.start failingChildSteps).result =
      some (.error (exitError "ls" ⟨false, some 3⟩ [110, 111, 33])) ∧
    ProcessCall.Justified "ls" (trace (ProcessCall.step "ls" 2) ProcessCall.start failingChildSteps)
      (reached (ProcessCall.step "ls" 2) ProcessCall.start failingChildSteps)
      (.error (exitError "ls" ⟨false, some 3⟩ [110, 111, 33])) :=
  ⟨rfl, (@run_process_output "ls" 2 _ _ (Run.of_labels rfl)).1 _ rfl⟩

end ManInTheBox.Guest
