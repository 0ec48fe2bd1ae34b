import ManInTheBox.Host.Session

/-! # How a session ends

Whatever the threads do in between: once shutdown is requested at most one more poll
begins, the child is given exactly the inputs the policy asked for, and a session that
ends well has no child, reader thread or agent left and has told the box so, after all
output.
-/

namespace ManInTheBox.Host

open Library Emulator

namespace HostSession

variable {s t : HostSession} {label : SessionStep} {u : Unit}

section Simp

variable (s : HostSession) (event : HostEvent) (phase : LoopPhase)

@[simp] theorem goTo_phase : (s.goTo phase).phase = phase := rfl

@[simp] theorem goTo_shutdown : (s.goTo phase).shutdown = s.shutdown := rfl

@[simp] theorem goTo_childAlive : (s.goTo phase).childAlive = s.childAlive := rfl

@[simp] theorem goTo_agentRunning : (s.goTo phase).agentRunning = s.agentRunning := rfl

@[simp] theorem goTo_reader : (s.goTo phase).reader = s.reader := rfl

@[simp] theorem goTo_written : (s.goTo phase).written = s.written := rfl

@[simp] theorem goTo_events : (s.goTo phase).events = s.events := rfl

@[simp] theorem goTo_eventSender : (s.goTo phase).eventSender = s.eventSender := rfl

@[simp] theorem emit_phase : (s.emit event).phase = s.phase := by unfold emit; split_ifs <;> rfl

@[simp] theorem emit_shutdown : (s.emit event).shutdown = s.shutdown := by
  unfold emit
  split_ifs <;> rfl

@[simp] theorem emit_childAlive : (s.emit event).childAlive = s.childAlive := by
  unfold emit
  split_ifs <;> rfl

@[simp] theorem emit_agentRunning : (s.emit event).agentRunning = s.agentRunning := by
  unfold emit
  split_ifs <;> rfl

@[simp] theorem emit_reader : (s.emit event).reader = s.reader := by unfold emit; split_ifs <;> rfl

@[simp] theorem emit_written : (s.emit event).written = s.written := by
  unfold emit
  split_ifs <;> rfl

@[simp] theorem emit_eventSender : (s.emit event).eventSender = s.eventSender := by
  unfold emit
  split_ifs <;> rfl

theorem emit_events :
    (s.emit event).events = s.events ++ if s.eventSender then [event] else [] := by
  unfold emit
  split_ifs <;> simp

theorem mem_emit (hsender : s.eventSender = true) : event ∈ (s.emit event).events := by
  rw [emit_events, hsender]
  simp

end Simp

/-! ## What only goes one way -/

/-- Flags that are set stay set, threads that have ended do not come back, and events are only
added. -/
structure Later (s t : HostSession) : Prop where
  shutdown : s.shutdown = true → t.shutdown = true
  child : s.childAlive = false → t.childAlive = false
  agent : s.agentRunning = false → t.agentRunning = false
  reader : ∀ result, s.reader = .ended result → t.reader = .ended result
  sender : t.eventSender = s.eventSender
  events : s.events <+: t.events

theorem Later.refl (s : HostSession) : Later s s :=
  ⟨id, id, id, fun _ => id, rfl, List.prefix_refl _⟩

theorem Later.trans {r : HostSession} (h : Later r s) (h' : Later s t) : Later r t where
  shutdown := h'.shutdown ∘ h.shutdown
  child := h'.child ∘ h.child
  agent := h'.agent ∘ h.agent
  reader result := h'.reader result ∘ h.reader result
  sender := h'.sender.trans h.sender
  events := h.events.trans h'.events

theorem later_goTo (s : HostSession) (phase : LoopPhase) : Later s (s.goTo phase) :=
  ⟨id, id, id, fun _ => id, rfl, List.prefix_refl _⟩

theorem later_emit (s : HostSession) (event : HostEvent) : Later s (s.emit event) := by
  unfold emit
  split_ifs
  · exact ⟨id, id, id, fun _ => id, rfl, List.prefix_append _ _⟩
  · exact .refl s

theorem later_handle (s : HostSession) (result : PollResult) : Later s (s.handle result) := by
  cases result with
  | action action => cases action <;> exact later_goTo s _
  | error message => exact (later_emit s _).trans (later_goTo _ _)
  | trap message => exact later_goTo s _

theorem later_of_step (taken : s.step label = some (t, u)) : Later s t := by
  cases label
  case announceTerminate =>
    simp only [step] at taken
    split at taken
    · rename_i zookeeperId requests _
      obtain rfl := (Prod.mk.inj (Option.some.inj taken)).1
      have hrequests : Later s { s with requests } :=
        ⟨id, id, id, fun _ => id, rfl, List.prefix_refl _⟩
      exact hrequests.trans (later_emit _ _)
    · cases taken
  all_goals
    simp only [step] at taken
    repeat' split at taken
    all_goals cases taken
  all_goals
    first
    | exact later_goTo _ _
    | exact later_emit _ _
    | exact (later_emit _ _).trans (later_goTo _ _)
    | exact later_handle _ _
    -- A flag is set, a thread ends or a payload is written.
    | constructor <;> simp_all

/-! ## The way of the main loop -/

/-- What the loop does next when the policy has answered. -/
theorem handle_phase (s : HostSession) (result : PollResult) :
    (∃ inputs, result = .action (.perturb inputs) ∧
      (s.handle result).phase = .writing (payloadsOf inputs)) ∨
    (requestedBy (.pollReturns result) = [] ∧ ((s.handle result).phase = .waiting ∨
      ∃ error, (s.handle result).phase = .finished (.error error))) := by
  cases result with
  | action action =>
    cases action with
    | perturb inputs => exact .inl ⟨inputs, rfl, rfl⟩
    | wait => exact .inr ⟨rfl, .inl rfl⟩
  | error message => exact .inr ⟨rfl, .inr ⟨_, rfl⟩⟩
  | trap message => exact .inr ⟨rfl, .inr ⟨_, rfl⟩⟩

@[simp] theorem handle_written (s : HostSession) (result : PollResult) :
    (s.handle result).written = s.written := by
  cases result with
  | action action => cases action <;> rfl
  | error message => simp [handle]
  | trap message => rfl

/-- The child is asked about only if no shutdown has been seen. -/
theorem checkingChild_of_step (taken : s.step label = some (t, u))
    (hphase : t.phase = .checkingChild) : s.phase = .checkingChild ∨ s.shutdown = false := by
  cases label
  case pollReturns result =>
    simp only [step] at taken
    split at taken
    · obtain rfl := (Prod.mk.inj (Option.some.inj taken)).1
      rcases s.handle_phase result with ⟨inputs, -, hnext⟩ | ⟨-, hnext | ⟨error, hnext⟩⟩
      all_goals simp [hnext] at hphase
    · cases taken
  all_goals
    simp only [step] at taken
    repeat' split at taken
    all_goals cases taken
  all_goals simp_all

/-- A poll begins when the child is alive. -/
theorem polling_of_step (taken : s.step label = some (t, u)) (hphase : t.phase = .polling) :
    s.phase = .polling ∨ s.phase = .checkingChild ∧ label = .checkChild none := by
  cases label
  case pollReturns result =>
    simp only [step] at taken
    split at taken
    · obtain rfl := (Prod.mk.inj (Option.some.inj taken)).1
      rcases s.handle_phase result with ⟨inputs, -, hnext⟩ | ⟨-, hnext | ⟨error, hnext⟩⟩
      all_goals simp [hnext] at hphase
    · cases taken
  all_goals
    simp only [step] at taken
    repeat' split at taken
    all_goals cases taken
  all_goals simp_all

/-! ## What holds in each phase -/

/-- The main loop has been left in good order. -/
def Leaving : LoopPhase → Bool
  | .stopping | .terminating | .awaitingReader | .awaitingAgent _ | .disconnecting _
  | .finished (.ok _) => true
  | .waiting | .checkingAgent | .checkingShutdown | .checkingChild | .polling | .writing _
  | .finished (.error _) => false

/-- What has been brought to an end on the way out. -/
def Ended (s : HostSession) : LoopPhase → Prop
  | .terminating => s.shutdown = true
  | .awaitingReader => s.shutdown = true ∧ s.childAlive = false
  | .awaitingAgent (.ok _) =>
    s.shutdown = true ∧ s.childAlive = false ∧ s.reader = .ended (.ok ())
  | .disconnecting (.ok _) | .finished (.ok _) =>
    s.shutdown = true ∧ s.childAlive = false ∧ s.reader = .ended (.ok ()) ∧ s.agentRunning = false
  | _ => True

theorem Ended.later {phase : LoopPhase} (h : Ended s phase) (hlater : Later s t) :
    Ended t phase := by
  unfold Ended at h ⊢
  split
  · exact hlater.shutdown h
  · exact ⟨hlater.shutdown h.1, hlater.child h.2⟩
  · exact ⟨hlater.shutdown h.1, hlater.child h.2.1, hlater.reader _ h.2.2⟩
  · exact ⟨hlater.shutdown h.1, hlater.child h.2.1, hlater.reader _ h.2.2.1,
      hlater.agent h.2.2.2⟩
  · exact ⟨hlater.shutdown h.1, hlater.child h.2.1, hlater.reader _ h.2.2.1,
      hlater.agent h.2.2.2⟩
  · trivial

theorem Ended.step (h : Ended s s.phase) (taken : s.step label = some (t, u)) :
    Ended t t.phase := by
  have hlater := later_of_step taken
  cases label
  case pollReturns result =>
    simp only [step] at taken
    split at taken
    · obtain rfl := (Prod.mk.inj (Option.some.inj taken)).1
      rcases s.handle_phase result with ⟨inputs, -, hnext⟩ | ⟨-, hnext | ⟨error, hnext⟩⟩
      all_goals
        rw [hnext]
        trivial
    · cases taken
  case stop =>
    simp only [step] at taken
    split at taken
    · obtain rfl := (Prod.mk.inj (Option.some.inj taken)).1
      rfl
    · cases taken
  case terminate error =>
    simp only [step] at taken
    split at taken
    · obtain rfl := (Prod.mk.inj (Option.some.inj taken)).1
      trivial
    · rename_i hphase
      obtain rfl := (Prod.mk.inj (Option.some.inj taken)).1
      rw [hphase] at h
      exact ⟨h, rfl⟩
    · cases taken
  case joinReader =>
    simp only [step] at taken
    split at taken
    · rename_i result hphase hreader
      obtain rfl := (Prod.mk.inj (Option.some.inj taken)).1
      rw [hphase] at h
      cases result with
      | ok => exact ⟨h.1, h.2, hreader⟩
      | error => trivial
    · cases taken
  case joinAgent =>
    simp only [step] at taken
    split at taken
    · rename_i result hphase
      split_ifs at taken with hagent
      obtain rfl := (Prod.mk.inj (Option.some.inj taken)).1
      rw [hphase] at h
      cases result with
      | ok => exact ⟨h.1, h.2.1, h.2.2, by simpa using hagent⟩
      | error => trivial
    · cases taken
  case disconnect =>
    simp only [step] at taken
    split at taken
    · rename_i result hphase
      obtain rfl := (Prod.mk.inj (Option.some.inj taken)).1
      rw [hphase] at h
      cases result with
      | ok => exact Ended.later h hlater
      | error => trivial
    · cases taken
  case childExits | requestTerminate | closeWindow =>
    simp only [step] at taken
    cases taken
    exact Ended.later h hlater
  case output | readerEnds | agentFails | agentEnds | announceTerminate =>
    have hphase : t.phase = s.phase := by
      simp only [step] at taken
      repeat' split at taken
      all_goals cases taken
      all_goals simp
    rw [hphase]
    exact h.later hlater
  all_goals
    simp only [step] at taken
    repeat' split at taken
    all_goals cases taken
  all_goals simp [Ended]

/-! ## What the box is told -/

theorem events_of_step (taken : s.step label = some (t, u)) :
    t.events = s.events ∨
    (∃ reason, t.events = s.events ++ [.sessionEnded reason]) ∨
    (∃ chunk, s.reader = .running ∧ t.events = s.events ++ [.terminalOutput chunk]) ∨
    (∃ result, s.phase = .disconnecting result ∧ t.phase = .finished result ∧
      t.events = s.events ++ [.disconnected]) := by
  have hemit (s : HostSession) (event : HostEvent) :
      (s.emit event).events = s.events ∨ (s.emit event).events = s.events ++ [event] := by
    rw [emit_events]
    split_ifs <;> simp
  cases label
  case pollReturns result =>
    simp only [step] at taken
    split at taken
    · obtain rfl := (Prod.mk.inj (Option.some.inj taken)).1
      cases result with
      | action action => cases action <;> exact .inl rfl
      | error message => exact (hemit s _).imp_right fun h => .inl ⟨_, h⟩
      | trap message => exact .inl rfl
    · cases taken
  case output chunk =>
    simp only [step] at taken
    split at taken
    · rename_i hreader
      obtain rfl := (Prod.mk.inj (Option.some.inj taken)).1
      exact (hemit s _).imp_right fun h => .inr (.inl ⟨chunk, hreader, h⟩)
    · cases taken
  case disconnect =>
    simp only [step] at taken
    split at taken
    · rename_i result hphase
      obtain rfl := (Prod.mk.inj (Option.some.inj taken)).1
      exact (hemit s _).imp_right fun h => .inr (.inr ⟨result, hphase, rfl, h⟩)
    · cases taken
  case announceTerminate =>
    simp only [step] at taken
    split at taken
    · obtain rfl := (Prod.mk.inj (Option.some.inj taken)).1
      exact (hemit _ _).imp_right fun h => .inl ⟨_, h⟩
    · cases taken
  case checkShutdown | checkChild =>
    simp only [step] at taken
    repeat' split at taken
    all_goals cases taken
    all_goals first
      | exact .inl rfl
      | exact (hemit s _).imp_right fun h => .inl ⟨_, h⟩
  all_goals
    simp only [step] at taken
    repeat' split at taken
    all_goals cases taken
  all_goals exact .inl rfl

/-- The loop is left in good order by telling the box why. -/
theorem leaving_of_step (taken : s.step label = some (t, u)) (hleaving : Leaving t.phase) :
    Leaving s.phase ∨
    (s.eventSender = true → ∃ reason, .sessionEnded reason ∈ t.events) := by
  cases label
  case pollReturns result =>
    simp only [step] at taken
    split at taken
    · obtain rfl := (Prod.mk.inj (Option.some.inj taken)).1
      rcases s.handle_phase result with ⟨inputs, -, hnext⟩ | ⟨-, hnext | ⟨error, hnext⟩⟩
      all_goals
        rw [hnext] at hleaving
        cases hleaving
    · cases taken
  case checkShutdown | checkChild =>
    simp only [step] at taken
    repeat' split at taken
    all_goals cases taken
    all_goals first
      | exact .inr fun hsender => ⟨_, s.mem_emit _ hsender⟩
      | cases hleaving
  all_goals
    simp only [step] at taken
    repeat' split at taken
    all_goals cases taken
  all_goals simp_all [Leaving]

theorem finished_of_step (taken : s.step label = some (t, u))
    (hphase : t.phase = .finished (.ok ())) :
    s.phase = .finished (.ok ()) ∨
    s.phase = .disconnecting (.ok ()) ∧
      t.events = s.events ++ if s.eventSender then [.disconnected] else [] := by
  cases label
  case pollReturns result =>
    simp only [step] at taken
    split at taken
    · obtain rfl := (Prod.mk.inj (Option.some.inj taken)).1
      rcases s.handle_phase result with ⟨inputs, -, hnext⟩ | ⟨-, hnext | ⟨error, hnext⟩⟩
      all_goals
        rw [hnext] at hphase
        cases hphase
    · cases taken
  case disconnect =>
    simp only [step] at taken
    split at taken
    · rename_i result hresult
      obtain rfl := (Prod.mk.inj (Option.some.inj taken)).1
      cases hphase
      exact .inr ⟨hresult, emit_events s _⟩
    · cases taken
  all_goals
    simp only [step] at taken
    repeat' split at taken
    all_goals cases taken
  all_goals simp_all

theorem phase_of_finished (taken : s.step label = some (t, u)) {result : HostResult}
    (hphase : s.phase = .finished result) : t.phase = .finished result := by
  cases label
  all_goals
    simp only [step, hphase] at taken
    repeat' split at taken
    all_goals cases taken
  all_goals simp [hphase]

/-! ## Invariants of a run -/

/-- The bytes that were asked for and not given to the child yet. -/
def Unsent (bytes : Bytes) : LoopPhase → Prop
  | .writing todo => bytes = todo.flatten
  | .finished (.error _) => True
  | _ => bytes = []

/-- The child has been given the inputs asked for, up to those in hand. -/
def Typed (history : List HostTransition) (s : HostSession) : Prop :=
  ∃ unsent, s.written.flatten ++ unsent = bytesOf (requested history) ∧ Unsent unsent s.phase

theorem requested_append (history : List HostTransition) (transition : HostTransition) :
    requested (history ++ [transition]) = requested history ++ requestedBy transition.label := by
  simp [requested]

theorem bytesOf_append (inputs later : List Input) :
    bytesOf (inputs ++ later) = bytesOf inputs ++ bytesOf later := by
  simp [bytesOf]

theorem Typed.step {history : List HostTransition} (h : Typed history s)
    (taken : s.step label = some (t, u)) : Typed (history ++ [⟨s, label, u, t⟩]) t := by
  obtain ⟨unsent, hbytes, hunsent⟩ := h
  unfold Typed
  rw [requested_append, bytesOf_append, ← hbytes]
  cases label
  case pollReturns result =>
    simp only [HostSession.step] at taken
    split at taken
    · rename_i hphase
      obtain rfl := (Prod.mk.inj (Option.some.inj taken)).1
      rw [hphase] at hunsent
      obtain rfl : unsent = [] := hunsent
      rcases s.handle_phase result with ⟨inputs, rfl, hnext⟩ | ⟨hnone, hnext⟩
      · refine ⟨bytesOf inputs, by simp [requestedBy], ?_⟩
        rw [hnext]
        exact (flatten_payloadsOf inputs).symm
      · refine ⟨[], by simp [hnone, bytesOf], ?_⟩
        rcases hnext with hnext | ⟨error, hnext⟩
        all_goals
          rw [hnext]
          trivial
    · cases taken
  case writePayload =>
    simp only [HostSession.step] at taken
    split at taken
    · rename_i hphase
      obtain rfl := (Prod.mk.inj (Option.some.inj taken)).1
      rw [hphase] at hunsent
      exact ⟨unsent, by simp [requestedBy, bytesOf], hunsent⟩
    · rename_i payload todo hphase
      obtain rfl := (Prod.mk.inj (Option.some.inj taken)).1
      rw [hphase] at hunsent
      obtain rfl : unsent = (payload :: todo).flatten := hunsent
      exact ⟨todo.flatten, by simp [requestedBy, bytesOf], rfl⟩
    · cases taken
  case writeFails count message =>
    simp only [HostSession.step] at taken
    split at taken
    · rename_i payload todo hphase
      obtain rfl := (Prod.mk.inj (Option.some.inj taken)).1
      rw [hphase] at hunsent
      obtain rfl : unsent = (payload :: todo).flatten := hunsent
      refine ⟨payload.drop count ++ todo.flatten, ?_, trivial⟩
      calc
        (s.written ++ [payload.take count]).flatten ++ (payload.drop count ++ todo.flatten)
        _ = s.written.flatten ++ (payload.take count ++ payload.drop count ++ todo.flatten) := by
          simp only [List.flatten_append, List.flatten_singleton, List.append_assoc]
        _ = s.written.flatten ++ (payload :: todo).flatten ++ bytesOf [] := by
          rw [List.take_append_drop]
          simp [bytesOf]
    · cases taken
  case disconnect =>
    simp only [HostSession.step] at taken
    split at taken
    · rename_i result hphase
      obtain rfl := (Prod.mk.inj (Option.some.inj taken)).1
      rw [hphase] at hunsent
      refine ⟨unsent, by simp [requestedBy, bytesOf], ?_⟩
      cases result with
      | ok => exact hunsent
      | error => trivial
    · cases taken
  all_goals
    simp only [HostSession.step] at taken
    repeat' split at taken
    all_goals cases taken
  all_goals
    refine ⟨unsent, by simp [requestedBy, bytesOf], ?_⟩
    simp_all [Unsent]

/-- At most one poll has begun late, and none can any more after it. -/
def PolledOnce (history : List HostTransition) (s : HostSession) : Prop :=
  history.countP latePoll = 0 ∨
  history.countP latePoll = 1 ∧ s.shutdown = true ∧ s.phase ≠ .checkingChild

theorem source_of_latePoll (taken : s.step label = some (t, u))
    (hlate : latePoll ⟨s, label, u, t⟩ = true) :
    s.phase = .checkingChild ∧ s.shutdown = true ∧ t.phase = .polling := by
  unfold latePoll at hlate
  split at hlate
  · rename_i hlabel hpolling
    obtain rfl : label = .checkChild none := hlabel
    refine ⟨?_, hlate, hpolling⟩
    rcases polling_of_step taken hpolling with hphase | ⟨hphase, -⟩
    · simp [HostSession.step, hphase] at taken
    · exact hphase
  · cases hlate

theorem PolledOnce.step {history : List HostTransition} (h : PolledOnce history s)
    (taken : s.step label = some (t, u)) : PolledOnce (history ++ [⟨s, label, u, t⟩]) t := by
  unfold PolledOnce
  rw [List.countP_append, List.countP_singleton]
  have hlater := later_of_step taken
  by_cases hlate : latePoll ⟨s, label, u, t⟩ = true
  · obtain ⟨hphase, hshutdown, hpolling⟩ := source_of_latePoll taken hlate
    rcases h with hzero | ⟨-, -, hchild⟩
    · refine .inr ⟨by rw [hzero, if_pos hlate], hlater.shutdown hshutdown, ?_⟩
      simp [hpolling]
    · exact absurd hphase hchild
  · rw [if_neg hlate]
    rcases h with hzero | ⟨hone, hshutdown, hchild⟩
    · exact .inl hzero
    · refine .inr ⟨hone, hlater.shutdown hshutdown, fun hphase => ?_⟩
      rcases checkingChild_of_step taken hphase with hphase | hshutdown'
      · exact hchild hphase
      · simp [hshutdown] at hshutdown'

/-- What the box has been told so far. -/
structure Told (eventSender : Bool) (s : HostSession) : Prop where
  sender : s.eventSender = eventSender
  disconnected : .disconnected ∈ s.events → ∃ result, s.phase = .finished result
  reason : eventSender = true → Leaving s.phase = true → ∃ reason, .sessionEnded reason ∈ s.events
  finished : eventSender = true → s.phase = .finished (.ok ()) →
    ∃ before after, s.events = before ++ .disconnected :: after ∧ .disconnected ∉ before ∧
      (∃ reason, .sessionEnded reason ∈ before) ∧
      ∀ event ∈ after, ∃ reason, event = .sessionEnded reason

theorem Told.step {eventSender : Bool} (h : Told eventSender s) (hended : Ended s s.phase)
    (taken : s.step label = some (t, u)) : Told eventSender t where
  sender := (later_of_step taken).sender.trans h.sender
  disconnected hmem := by
    have hpast (hmem : .disconnected ∈ s.events) : ∃ result, t.phase = .finished result :=
      (h.disconnected hmem).imp fun result => phase_of_finished taken
    rcases events_of_step taken with heq | ⟨reason, heq⟩ | ⟨chunk, -, heq⟩ | ⟨result, -, hphase, -⟩
    · exact hpast (heq ▸ hmem)
    · exact hpast (by simpa [heq] using hmem)
    · exact hpast (by simpa [heq] using hmem)
    · exact ⟨result, hphase⟩
  reason hsender hleaving := by
    rcases leaving_of_step taken hleaving with hpast | hnow
    · obtain ⟨reason, hmem⟩ := h.reason hsender hpast
      exact ⟨reason, (later_of_step taken).events.subset hmem⟩
    · exact hnow (h.sender.trans hsender)
  finished hsender hphase := by
    rcases finished_of_step taken hphase with hpast | ⟨hdisconnecting, hevents⟩
    · obtain ⟨before, after, hsplit, honce, hreason, hafter⟩ := h.finished hsender hpast
      rw [hpast] at hended
      rcases events_of_step taken with
        heq | ⟨reason, heq⟩ | ⟨chunk, hrunning, -⟩ | ⟨result, hdisconnecting, -⟩
      · exact ⟨before, after, heq.trans hsplit, honce, hreason, hafter⟩
      · refine ⟨before, after ++ [.sessionEnded reason], by simp [heq, hsplit], honce, hreason,
          fun event hmem => ?_⟩
        rcases List.mem_append.mp hmem with hmem | hmem
        · exact hafter event hmem
        · exact ⟨reason, List.mem_singleton.mp hmem⟩
      · -- The reader thread has been joined.
        rw [hended.2.2.1] at hrunning
        cases hrunning
      · rw [hpast] at hdisconnecting
        cases hdisconnecting
    · have hnot : .disconnected ∉ s.events := by
        intro hmem
        obtain ⟨result, hfinished⟩ := h.disconnected hmem
        rw [hdisconnecting] at hfinished
        cases hfinished
      have hreason := h.reason hsender (by rw [hdisconnecting]; rfl)
      refine ⟨s.events, [], ?_, hnot, hreason, by simp⟩
      rw [hevents, h.sender, hsender]
      rfl

theorem ended_and_told {eventSender agentRunning : Bool} {history : List HostTransition}
    (run : SessionRun eventSender agentRunning history s) :
    Ended s s.phase ∧ Told eventSender s := by
  refine run.invariant (fun s => Ended s s.phase ∧ Told eventSender s) ?_ ?_
  · exact ⟨trivial, ⟨rfl, by simp [start], by simp [start, Leaving], by simp [start]⟩⟩
  · rintro s label t u ⟨hended, htold⟩ taken
    exact ⟨hended.step taken, htold.step hended taken⟩

end HostSession

open HostSession in
/-- However the threads of a session take turns: at most one poll begins once shutdown has been
requested, the child is given the inputs the policy asked for, in order, up to those in hand, and a
session that has ended well has ended its child, its reader thread and its agent and told the box
the reason, then that it is disconnected, and no output after that. -/
theorem session_teardown {eventSender agentRunning : Bool} {history : List HostTransition}
    {s : HostSession} (run : SessionRun eventSender agentRunning history s) :
    history.countP latePoll ≤ 1 ∧
    (∃ unsent, s.written.flatten ++ unsent = bytesOf (requested history) ∧
      Unsent unsent s.phase) ∧
    (.disconnected ∈ s.events → ∃ result, s.phase = .finished result) ∧
    (s.phase = .finished (.ok ()) →
      s.shutdown = true ∧ s.childAlive = false ∧ s.reader = .ended (.ok ()) ∧
      s.agentRunning = false ∧
      (eventSender = true → ∃ before after, s.events = before ++ .disconnected :: after ∧
        .disconnected ∉ before ∧ (∃ reason, .sessionEnded reason ∈ before) ∧
        ∀ event ∈ after, ∃ reason, event = .sessionEnded reason)) := by
  obtain ⟨hended, htold⟩ := ended_and_told run
  have hpolled : PolledOnce history s := run.historyInvariant PolledOnce (.inl rfl)
    fun _ _ _ _ _ _ h taken => h.step taken
  have htyped : Typed history s := run.historyInvariant Typed
    ⟨[], rfl, show Unsent [] LoopPhase.waiting from rfl⟩ fun _ _ _ _ _ _ h taken => h.step taken
  refine ⟨?_, htyped, htold.disconnected, fun hphase => ?_⟩
  · rcases hpolled with hzero | ⟨hone, -⟩
    · exact hzero.trans_le zero_le_one
    · exact hone.le
  · rw [hphase] at hended
    obtain ⟨hshutdown, hchild, hreader, hagent⟩ := hended
    exact ⟨hshutdown, hchild, hreader, hagent, fun hsender => htold.finished hsender hphase⟩

/-- The window is closed when the flag has just been read, and the inputs of one more poll are still
written. -/
def closingSteps : List SessionStep :=
  [.tick, .checkAgent, .checkShutdown, .closeWindow, .checkChild none,
    .pollReturns (.action (.perturb [.key .enter])), .output [36], .writePayload, .writePayload,
    .tick, .checkAgent, .checkShutdown, .stop, .terminate none, .output [37], .readerEnds (.ok ()),
    .joinReader, .joinAgent, .disconnect]

theorem session_teardown_closing :
    (reached HostSession.step (HostSession.start true false) closingSteps).events =
      [.terminalOutput [36], .sessionEnded "shutdown requested by application",
        .terminalOutput [37], .disconnected] ∧
    (trace HostSession.step (HostSession.start true false) closingSteps).countP latePoll = 1 ∧
    (trace HostSession.step (HostSession.start true false) closingSteps).countP latePoll ≤ 1 :=
  ⟨rfl, rfl, (@session_teardown true false _ _ (Run.of_labels rfl)).1⟩

end ManInTheBox.Host
