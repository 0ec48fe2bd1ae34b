import ManInTheBox.Server.RoomTable

/-! # The two sliding-window limits

The queues that the server keeps are pruned by many operations at many moments.
Against the history of a run they are nevertheless exact: an attempt passes
exactly when fewer than the limit of the earlier ones that passed are younger
than the window.
-/

namespace ManInTheBox.Server

open Library

variable {app : AppState} {history : List ServerTransition}

/-- The step is an authentication attempt of the IP that passed. -/
def acceptedAuth (ip : IpAddr) (t : ServerTransition) : Bool :=
  match t.label.op, t.output with
  | .checkAuthRateLimit ip', .checked (.ok _) => ip' = ip
  | _, _ => false

/-- The step created the room. -/
def createdRoom (roomHandle : String) (t : ServerTransition) : Bool :=
  match t.label.op, t.output with
  | .storeRoom r _, .checked (.ok _) => r = roomHandle
  | _, _ => false

/-- When the steps satisfying `p` were taken, oldest first. -/
def timesOf (p : ServerTransition → Bool) (history : List ServerTransition) : List ℕ :=
  (history.filter p).map fun t => t.label.now

theorem timesOf_concat (p : ServerTransition → Bool) (history : List ServerTransition)
    (t : ServerTransition) : timesOf p (history ++ [t]) =
      if p t = true then timesOf p history ++ [t.label.now] else timesOf p history := by
  by_cases h : p t = true <;> simp [timesOf, h]

/-- The steps since the room was created last. -/
def sinceCreation (roomHandle : String) (history : List ServerTransition) :
    List ServerTransition :=
  history.foldl (fun life t => if createdRoom roomHandle t then [] else life ++ [t]) []

theorem sinceCreation_concat (roomHandle : String) (history : List ServerTransition)
    (t : ServerTransition) : sinceCreation roomHandle (history ++ [t]) =
      if createdRoom roomHandle t = true then [] else sinceCreation roomHandle history ++ [t] := by
  simp [sinceCreation]

/-- The moments of the passed signals in the present life of the room. -/
abbrev signalTimes (roomHandle : String) (history : List ServerTransition) : List ℕ :=
  timesOf (passedSignal roomHandle) (sinceCreation roomHandle history)

/-- How many of the stamps are younger than the window at `now`. -/
def countRecent (window now : ℕ) (times : List ℕ) : ℕ :=
  times.countP fun s => decide (now - s < window)

theorem countRecent_eq (window now : ℕ) (times : List ℕ) :
    countRecent window now times =
      times.countP fun s => !(eventWindow window).expired now s := by
  simp [countRecent, eventWindow]

/-! ## A queue against the moments it should hold -/

/-- The queue agrees with the moments recorded for it, and these are past, ordered and limited. -/
structure Metered (window limit clock : ℕ) (queue times : List ℕ) : Prop where
  agrees : (eventWindow window).Agrees clock queue times
  limited : (eventWindow window).Limited limit times
  past : ∀ time ∈ times, time ≤ clock
  ordered : times.Pairwise (· ≤ ·)

namespace Metered

variable {window limit clock now : ℕ} {queue times : List ℕ}

theorem empty (window limit clock : ℕ) : Metered window limit clock [] [] where
  agrees := .refl _ _ _
  limited := .nil _ _
  past := by simp
  ordered := .nil

theorem mono (h : Metered window limit clock queue times) (hle : clock ≤ now) :
    Metered window limit now queue times where
  agrees := h.agrees.mono hle
  limited := h.limited
  past time htime := (h.past time htime).trans hle
  ordered := h.ordered

theorem prune (h : Metered window limit clock queue times) (hle : clock ≤ now) :
    Metered window limit now (pruneEventWindow queue window now) times :=
  { h.mono hle with agrees := h.agrees.drop hle }

theorem length_prune (h : Metered window limit clock queue times) (hle : clock ≤ now) :
    (pruneEventWindow queue window now).length = countRecent window now times := by
  rw [countRecent_eq]
  exact h.agrees.length_live hle h.ordered

theorem push (h : Metered window limit now queue times)
    (hroom : countRecent window now times < limit) :
    Metered window limit now (queue ++ [now]) (times ++ [now]) where
  agrees := h.agrees.push now
  limited := h.limited.concat (by rwa [← countRecent_eq])
  past := by
    intro time htime
    rcases List.mem_append.mp htime with htime | htime
    · exact h.past time htime
    · exact (List.mem_singleton.mp htime).le
  ordered := by
    rw [List.pairwise_append]
    refine ⟨h.ordered, List.pairwise_singleton _ _, ?_⟩
    intro time htime now' hnow'
    rw [List.mem_singleton.mp hnow']
    exact h.past time htime

end Metered

/-- How many of the moments lie in the half-open interval of the given length. -/
def countWithin (start length : ℕ) (times : List ℕ) : ℕ :=
  times.countP fun time => decide (start ≤ time ∧ time < start + length)

/-- Over a half-open interval as long as the window at most `limit` of limited moments lie. -/
theorem limited_interval {window limit : ℕ} {times : List ℕ}
    (h : (eventWindow window).Limited limit times) (start : ℕ) :
    countWithin start window times ≤ limit := by
  apply h.countP_le
  intro now stamp hnow hstamp
  simp only [decide_eq_true_eq] at hnow hstamp
  simp only [eventWindow, Bool.not_eq_false', decide_eq_true_eq]
  omega

/-! ## The server's queues -/

variable {s t : ServerState} {call : Call} {outcome : Outcome}

abbrev AuthMetered (app : AppState) (history : List ServerTransition) (s : ServerState)
    (ip : IpAddr) : Prop :=
  Metered app.config.authRateWindow app.config.authRateLimit s.clock (authEvents s.inner ip)
    (timesOf (acceptedAuth ip) history)

/-- An attempt passes exactly when fewer than the limit of the passed ones are recent, and the
queue then records it. -/
theorem AuthMetered.step {ip : IpAddr} (h : AuthMetered app history s ip)
    (taken : app.step s call = some (t, outcome)) :
    AuthMetered app (history ++ [⟨s, call, outcome, t⟩]) t ip ∧
    (call.op = .checkAuthRateLimit ip → (outcome = .checked (.ok ()) ↔
      countRecent app.config.authRateWindow call.now (timesOf (acceptedAuth ip) history) <
        app.config.authRateLimit)) := by
  obtain ⟨hclock, htime, happlied⟩ := AppState.step_eq_some taken
  obtain ⟨now, op⟩ := call
  have hpruned := h.prune hclock
  have hlength := h.length_prune hclock
  rw [AuthMetered, htime, timesOf_concat]
  by_cases hop : ∃ ip', op = .checkAuthRateLimit ip'
  · obtain ⟨ip', rfl⟩ := hop
    cases happlied with
    | checkAuthRateLimit hcheck =>
      obtain ⟨hmine, hother⟩ := checkAuthRateLimit_cases hcheck
      by_cases hip : ip' = ip
      · subst hip
        rw [hlength] at hmine
        rcases hmine with ⟨hlimit, rfl, hevents⟩ | ⟨hlimit, rfl, hevents⟩
        · rw [hevents]
          exact ⟨by simpa [acceptedAuth] using hpruned, fun _ => by simpa using hlimit⟩
        · rw [hevents]
          exact ⟨by simpa [acceptedAuth] using hpruned.push hlimit, fun _ => by simpa using hlimit⟩
      · rw [hother ip (Ne.symm hip)]
        have hnot : ∀ result, acceptedAuth ip ⟨s, ⟨now, .checkAuthRateLimit ip'⟩,
            .checked result, t⟩ = false := by
          intro result
          cases result <;> simp [acceptedAuth, hip]
        refine ⟨by simpa [hnot] using hpruned, fun heq => ?_⟩
        exact absurd (Operation.checkAuthRateLimit.inj heq) hip
  · rw [not_exists] at hop
    rw [authEvents_of_applied happlied hop]
    have hnot : acceptedAuth ip ⟨s, ⟨now, op⟩, outcome, t⟩ = false := by
      cases op <;> first | rfl | exact absurd rfl (hop _)
    exact ⟨by simpa [hnot] using hpruned, fun heq => absurd heq (hop ip)⟩

/-- While the room exists its queue is metered; its passed signals are limited even after it
has gone. -/
structure SignalsMetered (app : AppState) (history : List ServerTransition) (s : ServerState)
    (roomHandle : String) : Prop where
  queue : ∀ room, s.inner.rooms.lookup roomHandle = some room →
    Metered app.config.roomSignalRateWindow app.config.roomSignalRateLimit s.clock
      room.signalEvents (signalTimes roomHandle history)
  limited : (eventWindow app.config.roomSignalRateWindow).Limited app.config.roomSignalRateLimit
    (signalTimes roomHandle history)

theorem signalTimes_concat (roomHandle : String) (history : List ServerTransition)
    (t : ServerTransition) : signalTimes roomHandle (history ++ [t]) =
      if createdRoom roomHandle t = true then []
      else if passedSignal roomHandle t = true then signalTimes roomHandle history ++ [t.label.now]
      else signalTimes roomHandle history := by
  rw [signalTimes, sinceCreation_concat]
  split_ifs with hcreated hpassed
  · rfl
  · rw [timesOf_concat, if_pos hpassed]
  · rw [timesOf_concat, if_neg hpassed]

/-- Routing a signal never fails for a reason that precedes it. -/
theorem routeSignal_passed (room : RoomState) (senderId peerId : String) (payload : Value) :
    routeSignal room senderId peerId payload ≠ .error .channelNotFound ∧
      routeSignal room senderId peerId payload ≠ .error .roomSignalRateLimit := by
  rw [routeSignal]
  repeat' split
  all_goals simp

/-- A step that neither creates the room nor signals in it leaves its queue alone. -/
theorem SignalsMetered.idle {roomHandle : String} (h : SignalsMetered app history s roomHandle)
    (taken : app.step s call = some (t, outcome))
    (hsignal : ∀ senderId peerId payload,
      call.op ≠ .forwardSignal roomHandle senderId peerId payload)
    (hstore : ∀ file, call.op ≠ .storeRoom roomHandle file) :
    SignalsMetered app (history ++ [⟨s, call, outcome, t⟩]) t roomHandle := by
  obtain ⟨hclock, htime, happlied⟩ := AppState.step_eq_some taken
  obtain ⟨now, op⟩ := call
  have hnotpassed : passedSignal roomHandle ⟨s, ⟨now, op⟩, outcome, t⟩ = false := by
    cases happlied with
    | @forwardSignal r senderId peerId payload result inner' hop =>
      have hr : r ≠ roomHandle := fun hr => hsignal senderId peerId payload (by rw [hr])
      simp [passedSignal, hr]
    | _ => rfl
  have hnotcreated : createdRoom roomHandle ⟨s, ⟨now, op⟩, outcome, t⟩ = false := by
    cases happlied with
    | @storeRoom r file result inner' hop =>
      have hr : r ≠ roomHandle := fun hr => hstore file (by rw [hr])
      cases result <;> simp [createdRoom, hr]
    | _ => rfl
  have htimes : signalTimes roomHandle (history ++ [⟨s, ⟨now, op⟩, outcome, t⟩]) =
      signalTimes roomHandle history := by
    rw [signalTimes_concat]
    simp [hnotpassed, hnotcreated]
  constructor
  · intro room' hroom'
    rw [htimes, htime]
    cases apply_origin happlied hroom' with
    | kept room before file active signals =>
      have hqueue := (h.queue room (lookup_of_prune before)).mono hclock
      rcases signals with hsame | ⟨senderId, peerId, payload, hop⟩
      · rw [hsame]
        exact hqueue
      · exact absurd hop (hsignal senderId peerId payload)
    | created file hop absent fresh => exact absurd hop (hstore file)
  · rw [htimes]
    exact h.limited

/-- A room that has just been created starts with an empty queue. -/
theorem SignalsMetered.store {roomHandle : String} {file : Bytes}
    (h : SignalsMetered app history s roomHandle)
    (taken : app.step s call = some (t, outcome)) (hop : call.op = .storeRoom roomHandle file) :
    SignalsMetered app (history ++ [⟨s, call, outcome, t⟩]) t roomHandle := by
  obtain ⟨hclock, htime, happlied⟩ := AppState.step_eq_some taken
  obtain ⟨now, op⟩ := call
  obtain ⟨clock, inner'⟩ := t
  dsimp only at hop hclock htime happlied
  subst hop htime
  have hrefused (e : ServerError) (hinner : inner' = pruneExpiredRooms app.config clock s.inner) :
      SignalsMetered app (history ++ [⟨s, ⟨clock, .storeRoom roomHandle file⟩,
        .checked (.error e), ⟨clock, inner'⟩⟩]) ⟨clock, inner'⟩ roomHandle := by
    have htimes : signalTimes roomHandle (history ++ [⟨s, ⟨clock, .storeRoom roomHandle file⟩,
        .checked (.error e), ⟨clock, inner'⟩⟩]) = signalTimes roomHandle history := by
      rw [signalTimes_concat]
      simp [passedSignal, createdRoom]
    constructor
    · intro room hroom
      rw [htimes]
      subst hinner
      exact (h.queue room (lookup_of_prune hroom)).mono hclock
    · rw [htimes]
      exact h.limited
  cases happlied with
  | storeRoom hstore =>
    rcases storeRoom_cases hstore with ⟨rfl, hinner, -⟩ | ⟨rfl, hinner, -⟩ | ⟨rfl, -, -, rfl⟩
    · exact hrefused _ hinner
    · exact hrefused _ hinner
    · constructor
      · intro room hroom
        rw [AList.lookup_insert] at hroom
        rw [← Option.some.inj hroom, signalTimes_concat, if_pos (by simp [createdRoom])]
        exact .empty _ _ _
      · rw [signalTimes_concat, if_pos (by simp [createdRoom])]
        exact .nil _ _

/-- While the room exists, a call passes its rate check exactly when fewer than the limit of the
passed ones are recent, and the queue then records it. -/
theorem SignalsMetered.signal {roomHandle senderId peerId : String} {payload : Value}
    (h : SignalsMetered app history s roomHandle)
    (taken : app.step s call = some (t, outcome))
    (hop : call.op = .forwardSignal roomHandle senderId peerId payload) :
    SignalsMetered app (history ++ [⟨s, call, outcome, t⟩]) t roomHandle ∧
    ((prunedRoom app call.now s.inner roomHandle).isSome →
      (passedSignal roomHandle ⟨s, call, outcome, t⟩ = true ↔
        countRecent app.config.roomSignalRateWindow call.now (signalTimes roomHandle history) <
          app.config.roomSignalRateLimit)) := by
  obtain ⟨hclock, htime, happlied⟩ := AppState.step_eq_some taken
  obtain ⟨now, op⟩ := call
  obtain ⟨clock, inner'⟩ := t
  dsimp only at hop hclock htime happlied
  subst hop htime
  have htimes := signalTimes_concat roomHandle history
    ⟨s, ⟨clock, .forwardSignal roomHandle senderId peerId payload⟩, outcome, ⟨clock, inner'⟩⟩
  rw [if_neg (by simp [createdRoom])] at htimes
  cases happlied with
  | forwardSignal hforward =>
    rcases forwardSignal_cases hforward with
      ⟨rfl, rfl, hnone⟩ | ⟨room, hroom, ⟨hlimit, rfl, rfl⟩ | ⟨hlimit, rfl, rfl⟩⟩
    · rw [if_neg (by simp [passedSignal])] at htimes
      refine ⟨⟨fun room' hroom' => ?_, htimes ▸ h.limited⟩, fun hsome => ?_⟩
      · rw [hnone] at hroom'
        cases hroom'
      · rw [prunedRoom, hnone] at hsome
        cases hsome
    · have hmetered := h.queue room (lookup_of_prune hroom)
      rw [hmetered.length_prune hclock] at hlimit
      rw [if_neg (by simp [passedSignal])] at htimes
      refine ⟨⟨fun room' hroom' => ?_, htimes ▸ h.limited⟩, fun _ => ?_⟩
      · rw [AList.lookup_insert] at hroom'
        rw [← Option.some.inj hroom', htimes]
        exact hmetered.prune hclock
      · simpa [passedSignal] using hlimit
    · have hmetered := h.queue room (lookup_of_prune hroom)
      rw [hmetered.length_prune hclock] at hlimit
      have hpassed := routeSignal_passed room senderId peerId payload
      have hpushed := (hmetered.prune hclock).push hlimit
      rw [if_pos (by simp [passedSignal, hpassed])] at htimes
      refine ⟨⟨fun room' hroom' => ?_, htimes ▸ hpushed.limited⟩, fun _ => ?_⟩
      · rw [AList.lookup_insert] at hroom'
        rw [← Option.some.inj hroom', htimes]
        exact hpushed
      · simpa [passedSignal, hpassed] using hlimit

theorem SignalsMetered.step {roomHandle : String} (h : SignalsMetered app history s roomHandle)
    (taken : app.step s call = some (t, outcome)) :
    SignalsMetered app (history ++ [⟨s, call, outcome, t⟩]) t roomHandle := by
  by_cases hsignal : ∃ senderId peerId payload,
      call.op = .forwardSignal roomHandle senderId peerId payload
  · obtain ⟨senderId, peerId, payload, hop⟩ := hsignal
    exact (h.signal taken hop).1
  · by_cases hstore : ∃ file, call.op = .storeRoom roomHandle file
    · obtain ⟨file, hop⟩ := hstore
      exact h.store taken hop
    · exact h.idle taken (fun _ _ _ hop => hsignal ⟨_, _, _, hop⟩) fun _ hop => hstore ⟨_, hop⟩

theorem authMetered_of_run {s : ServerState} (run : app.ServerRun history s) (ip : IpAddr) :
    AuthMetered app history s ip := by
  apply run.historyInvariant fun history s => AuthMetered app history s ip
  · exact .empty _ _ _
  · intro history s call t outcome _ h taken
    exact (AuthMetered.step h taken).1

theorem signalsMetered_of_run {s : ServerState} (run : app.ServerRun history s)
    (roomHandle : String) : SignalsMetered app history s roomHandle := by
  apply run.historyInvariant fun history s => SignalsMetered app history s roomHandle
  · constructor
    · intro room hroom
      cases hroom
    · exact .nil _ _
  · intro history s call t outcome _ h taken
    exact h.step taken

/-- Both limits are exact at every step of every run, and over every half-open interval as long
as the window no more than the limit passes. -/
theorem sliding_window_limits {s : ServerState} (run : app.ServerRun history s) :
    (∀ past t later, history = past ++ t :: later →
      (∀ ip, t.label.op = .checkAuthRateLimit ip → (t.output = .checked (.ok ()) ↔
        countRecent app.config.authRateWindow t.label.now (timesOf (acceptedAuth ip) past) <
          app.config.authRateLimit)) ∧
      ∀ roomHandle senderId peerId payload,
        t.label.op = .forwardSignal roomHandle senderId peerId payload →
        (prunedRoom app t.label.now t.source.inner roomHandle).isSome →
        (passedSignal roomHandle t = true ↔
          countRecent app.config.roomSignalRateWindow t.label.now (signalTimes roomHandle past) <
            app.config.roomSignalRateLimit)) ∧
    (∀ ip start, countWithin start app.config.authRateWindow (timesOf (acceptedAuth ip) history) ≤
      app.config.authRateLimit) ∧
    ∀ roomHandle start, countWithin start app.config.roomSignalRateWindow
      (signalTimes roomHandle history) ≤ app.config.roomSignalRateLimit := by
  refine ⟨?_, fun ip start => ?_, fun roomHandle start => ?_⟩
  · rintro past t later rfl
    obtain ⟨before, taken⟩ := run.cut
    constructor
    · intro ip hop
      exact ((authMetered_of_run before ip).step taken).2 hop
    · intro roomHandle senderId peerId payload hop
      exact ((signalsMetered_of_run before roomHandle).signal taken hop).2
  · exact limited_interval (authMetered_of_run run ip).limited start
  · exact limited_interval (signalsMetered_of_run run roomHandle).limited start

/-- With a limit of one attempt a minute, the second attempt passes when the first is a whole
minute old and not a nanosecond earlier. -/
theorem sliding_window_limits_boundary : ∃ (app : AppState) (history : List ServerTransition),
    app.config.authRateLimit = 1 ∧ history.length = 3 ∧
    timesOf (acceptedAuth 7) history = [0, 60000000000] ∧ ∀ start,
      countWithin start app.config.authRateWindow (timesOf (acceptedAuth 7) history) ≤ 1 := by
  let app : AppState := ⟨idealPake, { SecurityConfig.default with authRateLimit := 1 }⟩
  have h : exec app.step ServerState.initial
      [⟨0, .checkAuthRateLimit 7⟩, ⟨59999999999, .checkAuthRateLimit 7⟩,
        ⟨60000000000, .checkAuthRateLimit 7⟩] = some (_, _) := rfl
  have run : app.ServerRun _ _ := Run.of_exec h
  exact ⟨app, _, rfl, rfl, rfl, (sliding_window_limits run).2.1 7⟩

end ManInTheBox.Server
