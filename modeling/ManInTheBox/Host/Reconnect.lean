import ManInTheBox.Host.Relay

/-! # Lost connections

The signaling socket can end in three places: while the agent connects, during authentication and
in the loop of the session. An error of the socket is retried in each of them. A close frame and
the end of the stream are a clean end in the loop, and an error of the handshake before it.
-/

namespace ManInTheBox.Host.Signaling

open Library

variable {Connection Channel : Type}

/-! ## The end of the socket -/

namespace Happening

/-- A close frame, or the end of the stream. -/
def closesSocket : Happening → Bool
  | .receive none _ | .receive (some (.ok .close)) _ => true
  | _ => false

/-- The socket is closed, or an operation on it fails. -/
def endsSocket : Happening → Bool
  | .connect (.error _) _ | .sent (.error _) | .receive (some (.error _)) _ => true
  | happening => happening.closesSocket

/-- What is received when the socket ends. -/
theorem receive_of_endsSocket {message : Next} {draws : ℕ → ℕ}
    (h : (receive message draws).endsSocket = true) :
    message = none ∨ message = some (.ok .close) ∨ ∃ error, message = some (.error error) := by
  match message with
  | none => exact .inl rfl
  | some (.ok .close) => exact .inr (.inl rfl)
  | some (.error error) => exact .inr (.inr ⟨error, rfl⟩)
  | some (.ok (.text _)) | some (.ok (.binary _)) | some (.ok (.ping _)) | some (.ok (.pong _))
  | some (.ok .frame) => cases h

theorem closesSocket_cases {happening : Happening} (h : happening.closesSocket = true) :
    ∃ message draws, happening = .receive message draws ∧
      (message = none ∨ message = some (.ok .close)) := by
  unfold closesSocket at h
  split at h
  · exact ⟨_, _, rfl, .inl rfl⟩
  · exact ⟨_, _, rfl, .inr rfl⟩
  · cases h

end Happening

def Session.authenticates : Session Connection Channel → Bool
  | .authenticating _ => true
  | _ => false

section Sessions

variable {outside : Outside Connection Channel} {options : AgentOptions}
  {session : Session Connection Channel} {happening : Happening}
  {progress : Progress Connection Channel}

/-- Only a socket that is closed during authentication ends a session with an error that is not of
the socket. -/
theorem next_endsSocket (h : session.next outside options happening = some progress)
    (hends : happening.endsSocket = true)
    (hopen : session.authenticates = true → happening.closesSocket = false) :
    progress = .inr (.ok ()) ∨ ∃ error, progress = .inr (.error (.webSocket error)) := by
  cases session with
  | connecting =>
    cases happening with
    | connect result draws =>
      cases result with
      | error error => exact .inr ⟨error, (Option.some.inj h).symm⟩
      | ok => cases hends
    | sent | receive | report | tick | shutdown => cases h
  | sending client sent =>
    cases happening with
    | sent result =>
      cases result with
      | error error => exact .inr ⟨error, (Option.some.inj h).symm⟩
      | ok => cases hends
    | connect | receive | report | tick | shutdown => cases h
  | authenticating client =>
    cases happening with
    | receive message draws =>
      rcases Happening.receive_of_endsSocket hends with rfl | rfl | ⟨error, rfl⟩
      · cases hopen rfl
      · cases hopen rfl
      · exact .inr ⟨error, (Option.some.inj h).symm⟩
    | connect | sent | report | tick | shutdown => cases h
  | serving context =>
    cases happening with
    | receive message draws =>
      rcases Happening.receive_of_endsSocket hends with rfl | rfl | ⟨error, rfl⟩
      · exact .inl (Option.some.inj h).symm
      · exact .inl (Option.some.inj h).symm
      · exact .inr ⟨error, (Option.some.inj h).symm⟩
    | connect | sent => cases h
    | report | tick | shutdown => cases hends

theorem next_closesSocket (h : session.next outside options happening = some progress)
    (hauthenticates : session.authenticates = true) (hcloses : happening.closesSocket = true) :
    progress = .inr (.error (.pake "signaling socket closed during authentication")) := by
  obtain ⟨message, draws, rfl, rfl | rfl⟩ := Happening.closesSocket_cases hcloses <;>
    cases session with
    | authenticating client => exact (Option.some.inj h).symm
    | connecting | sending | serving => cases hauthenticates

end Sessions

/-! ## The delay -/

/-- The delay of a run that goes on lies between the first one and the longest one. -/
def RunState.Waits : RunState Connection Channel → Prop
  | .attempting delay _ | .sleeping delay =>
    RECONNECT_DELAY_INITIAL ≤ delay ∧ delay ≤ RECONNECT_DELAY_MAX
  | .returned _ => True

theorem waits_initial :
    (RunState.sleeping RECONNECT_DELAY_INITIAL : RunState Connection Channel).Waits :=
  ⟨le_rfl, by decide⟩

theorem RunState.Waits.head {delay : ℕ}
    (h : (RunState.sleeping delay : RunState Connection Channel).Waits) (shutdown : Bool) :
    (RunState.head shutdown delay : RunState Connection Channel).Waits := by
  cases shutdown with
  | true => trivial
  | false => exact h

theorem RunState.Waits.nextReconnectDelay {delay : ℕ}
    (h : (RunState.sleeping delay : RunState Connection Channel).Waits) :
    (RunState.sleeping (nextReconnectDelay delay) : RunState Connection Channel).Waits := by
  obtain ⟨hlow, -⟩ := h
  constructor
  · exact le_min (by omega) (by decide)
  · exact min_le_right _ _

theorem RunState.Waits.afterSession {delay : ℕ}
    (h : (RunState.sleeping delay : RunState Connection Channel).Waits) (shutdown : Bool)
    (result : Except AgentError Unit) :
    (RunState.afterSession shutdown delay result : RunState Connection Channel).Waits := by
  cases result with
  | ok =>
    cases shutdown with
    | true => trivial
    | false => exact waits_initial
  | error error =>
    rw [RunState.afterSession]
    split
    · exact h
    · trivial

section Runs

variable {outside : Outside Connection Channel} {options : AgentOptions}

theorem RunState.Waits.step {run run' : RunState Connection Channel} {label : RunLabel}
    {output : Unit} (h : run.Waits)
    (taken : runStep outside options run label = some (run', output)) : run'.Waits := by
  obtain ⟨shutdown, event⟩ := label
  cases event with
  | happen happening =>
    obtain ⟨delay, session, progress, rfl, -, rfl⟩ := runStep_happen taken
    cases progress with
    | inl session => exact h
    | inr result => exact RunState.Waits.afterSession h shutdown result
  | wake =>
    obtain ⟨delay, rfl, rfl⟩ := runStep_wake taken
    exact RunState.Waits.head h.nextReconnectDelay shutdown

theorem AgentRun.waits {shutdown : Bool} {run : RunState Connection Channel}
    {history : List (Transition (RunState Connection Channel) RunLabel Unit)}
    (h : AgentRun outside options shutdown history run) : run.Waits :=
  h.invariant RunState.Waits (waits_initial.head shutdown)
    fun _ _ _ _ hwaits taken => hwaits.step taken

/-! ## Every lost connection -/

/-- The socket ends while no shutdown is requested. -/
def LosesSocket (t : Transition (RunState Connection Channel) RunLabel Unit) : Prop :=
  t.label.shutdown = false ∧
    ∃ happening, t.label.event = .happen happening ∧ happening.endsSocket = true

/-- A socket that is closed during authentication. -/
def ClosesHandshake (t : Transition (RunState Connection Channel) RunLabel Unit) : Prop :=
  (∃ delay client, t.source = .attempting delay (.authenticating client)) ∧
    ∃ happening, t.label.event = .happen happening ∧ happening.closesSocket = true

/-- The run sleeps, and then it connects again. -/
def Retries (outside : Outside Connection Channel) (options : AgentOptions)
    (t : Transition (RunState Connection Channel) RunLabel Unit) : Prop :=
  ∃ delay, RECONNECT_DELAY_INITIAL ≤ delay ∧ delay ≤ RECONNECT_DELAY_MAX ∧
    t.target = .sleeping delay ∧
    runStep outside options t.target ⟨false, .wake⟩ =
      some (.attempting (nextReconnectDelay delay) .connecting, ())

variable {t : Transition (RunState Connection Channel) RunLabel Unit}

theorem Retries.of_sleeping {delay : ℕ} (htarget : t.target = .sleeping delay)
    (hwaits : t.target.Waits) : Retries outside options t := by
  rw [htarget] at hwaits
  obtain ⟨hlow, hhigh⟩ := hwaits
  refine ⟨delay, hlow, hhigh, htarget, ?_⟩
  rw [htarget]
  rfl

theorem retries_of_losesSocket (hwaits : t.target.Waits)
    (taken : runStep outside options t.source t.label = some (t.target, t.output))
    (hloses : LosesSocket t) (hopen : ¬ ClosesHandshake t) : Retries outside options t := by
  obtain ⟨source, ⟨shutdown, event⟩, output, target⟩ := t
  obtain ⟨rfl, happening, rfl, hends⟩ := hloses
  obtain ⟨delay, session, progress, rfl, hnext, rfl⟩ := runStep_happen taken
  have hclean : session.authenticates = true → happening.closesSocket = false := by
    intro hauthenticates
    cases session with
    | authenticating client =>
      by_contra hcloses
      exact hopen ⟨⟨delay, client, rfl⟩, happening, rfl, by simpa using hcloses⟩
    | connecting | sending | serving => cases hauthenticates
  rcases next_endsSocket hnext hends hclean with rfl | ⟨error, rfl⟩
  · exact .of_sleeping rfl hwaits
  · exact .of_sleeping rfl hwaits

/-- A close during authentication is an error of the handshake, and `run` returns it. -/
theorem returned_of_closesHandshake
    (taken : runStep outside options t.source t.label = some (t.target, t.output))
    (hcloses : ClosesHandshake t) :
    t.target = .returned (.error (.pake "signaling socket closed during authentication")) := by
  obtain ⟨source, ⟨shutdown, event⟩, output, target⟩ := t
  obtain ⟨⟨delay, client, rfl⟩, happening, rfl, hcloses⟩ := hcloses
  obtain ⟨delay', session, progress, hsource, hnext, rfl⟩ := runStep_happen taken
  obtain ⟨rfl, rfl⟩ := RunState.attempting.inj hsource
  obtain rfl := next_closesSocket hnext rfl hcloses
  rfl

/-- A run retries every lost connection exactly when none is closed during authentication. -/
theorem lostConnections_retried_iff {shutdown : Bool} {run : RunState Connection Channel}
    {history : List (Transition (RunState Connection Channel) RunLabel Unit)}
    (h : AgentRun outside options shutdown history run) :
    (∀ t ∈ history, LosesSocket t → Retries outside options t) ↔
      ∀ t ∈ history, LosesSocket t → ¬ ClosesHandshake t := by
  constructor
  · intro hretries t ht hloses hcloses
    obtain ⟨-, taken⟩ := h.mem_step ht
    obtain ⟨delay, -, -, htarget, -⟩ := hretries t ht hloses
    rw [returned_of_closesHandshake taken hcloses] at htarget
    cases htarget
  · intro hopen t ht hloses
    obtain ⟨⟨pre, past⟩, taken⟩ := h.mem_step ht
    exact retries_of_losesSocket ((AgentRun.waits past).step taken) taken hloses
      (hopen t ht hloses)

end Runs

/-! ## An error and a close during authentication -/

/-- The labels that lead into authentication. -/
def intoHandshake : List RunLabel :=
  [⟨false, .happen (.connect (.ok ()) id)⟩, ⟨false, .happen (.sent (.ok ()))⟩]

/-- The socket fails during authentication, and the next connection is refused. -/
def failedHandshake : List RunLabel :=
  intoHandshake ++ [⟨false, .happen (.receive (some (.error "Connection reset")) id)⟩,
    ⟨false, .wake⟩, ⟨false, .happen (.connect (.error "Connection refused") id)⟩]

abbrev quietStep := runStep quietOutside ⟨"k7", none⟩

abbrev quietHead : RunState Unit Unit := .head false RECONNECT_DELAY_INITIAL

theorem lostConnections_retried_iff_failed :
    (∀ t ∈ trace quietStep quietHead failedHandshake,
        LosesSocket t → Retries quietOutside ⟨"k7", none⟩ t) ↔
      ∀ t ∈ trace quietStep quietHead failedHandshake, LosesSocket t → ¬ ClosesHandshake t :=
  lostConnections_retried_iff (Run.of_labels (by decide))

/-- The server closes the socket after the first message of the handshake. -/
theorem not_lostConnections_retried :
    ∃ history run, AgentRun quietOutside ⟨"k7", none⟩ false history run ∧
      ∃ t ∈ history, LosesSocket t ∧ ¬ Retries quietOutside ⟨"k7", none⟩ t ∧
        t.target = .returned (.error (.pake "signaling socket closed during authentication")) := by
  have past : AgentRun quietOutside ⟨"k7", none⟩ false (trace quietStep quietHead intoHandshake)
      (reached quietStep quietHead intoHandshake) := Run.of_labels (by decide)
  have taken : quietStep (reached quietStep quietHead intoHandshake)
      ⟨false, .happen (.receive (some (.ok .close)) id)⟩ =
        some (.returned (.error (.pake "signaling socket closed during authentication")), ()) :=
    rfl
  refine ⟨_, _, past.step taken, _, List.mem_append_right _ (List.mem_singleton_self _),
    ⟨rfl, _, rfl, rfl⟩, ?_, rfl⟩
  rintro ⟨delay, -, -, htarget, -⟩
  cases htarget

end ManInTheBox.Host.Signaling
