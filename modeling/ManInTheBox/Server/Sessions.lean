import ManInTheBox.Server.Effects
import ManInTheBox.Server.IdealPake

/-! # Connections and the handles they own

A connection registers at most once and, when that succeeded, unregisters at
most once, under the room, role and id of its own registration. Around the
membership operations any other operation may run. The invariant of these runs
is that the rooms hold exactly the handles of the connections that are
registered at the moment, each where its own `register` put it.
-/

namespace ManInTheBox.Server

open Library

inductive Membership
  | fresh
  | registered (roomHandle : String) (role : ClientRole) (clientId : String)
  | departed
  deriving DecidableEq, Repr

structure Sessions where
  clock : ℕ
  inner : StateInner
  status : ConnId → Membership

def Sessions.initial : Sessions := ⟨0, .empty, fun _ => .fresh⟩

inductive SessionAction
  | register (c : ConnId) (roomHandle : String) (role : ClientRole)
      (preferredClientId : Option String)
  | unregister (c : ConnId)
  | signal (c : ConnId) (peerId : String) (payload : Value)
  | call (op : Operation)

structure SessionLabel where
  now : ℕ
  action : SessionAction

def Operation.changesMembership : Operation → Bool
  | .register _ _ _ _ => true
  | .unregister _ _ _ => true
  | _ => false

/-- The operation that an action performs, if the connection may take it. -/
def operationOf (status : ConnId → Membership) : SessionAction → Option Operation
  | .register c roomHandle role preferredClientId =>
    if status c = .fresh then some (.register roomHandle role preferredClientId ⟨c⟩) else none
  | .unregister c =>
    match status c with
    | .registered roomHandle role clientId => some (.unregister roomHandle role clientId)
    | _ => none
  | .signal c peerId payload =>
    match status c with
    | .registered roomHandle _ clientId => some (.forwardSignal roomHandle clientId peerId payload)
    | _ => none
  | .call op => if op.changesMembership then none else some op

def statusAfter (status : ConnId → Membership) : SessionAction → Outcome → ConnId → Membership
  | .register c roomHandle role _, .registered (.ok outcome) =>
    Function.update status c (.registered roomHandle role outcome.clientId)
  | .register c _ _ _, _ => Function.update status c .departed
  | .unregister c, _ => Function.update status c .departed
  | _, _ => status

def AppState.sessionStep (app : AppState) (s : Sessions) (label : SessionLabel) :
    Option (Sessions × Operation × Outcome) :=
  if s.clock ≤ label.now then
    (operationOf s.status label.action).map fun op =>
      let r := app.apply label.now op s.inner
      (⟨label.now, r.2, statusAfter s.status label.action r.1⟩, op, r.1)
  else none

abbrev SessionTransition := Transition Sessions SessionLabel (Operation × Outcome)

abbrev AppState.SessionRun (app : AppState) := Run app.sessionStep Sessions.initial

/-- The server as its connections see it is a run of the server's operations. -/
theorem serverRun_of_sessionRun {app : AppState} {history : List SessionTransition}
    {s : Sessions} (run : app.SessionRun history s) :
    ∃ history', app.ServerRun history' ⟨s.clock, s.inner⟩ := by
  apply run.project (fun s => (⟨s.clock, s.inner⟩ : ServerState))
  intro s label t output taken
  right
  simp only [AppState.sessionStep] at taken
  split_ifs at taken with hclock
  obtain ⟨op, -, heq⟩ := Option.map_eq_some_iff.mp taken
  obtain ⟨rfl, -⟩ := Prod.mk.inj heq
  refine ⟨⟨label.now, op⟩, (app.apply label.now op s.inner).1, ?_⟩
  rw [AppState.step, if_pos hclock]

/-! ## The steps of a connection -/

/-- What a step does: a connection joins, is refused, leaves or signals, or an operation runs
that concerns no membership. -/
inductive SessionEffect (app : AppState) (now : ℕ) (s t : Sessions) :
    SessionAction → Operation → Outcome → Prop
  | joined {c roomHandle role preferredClientId outcome}
      (fresh : s.status c = .fresh)
      (call : register app.config now roomHandle role preferredClientId ⟨c⟩ s.inner =
        (.ok outcome, t.inner))
      (status : t.status = Function.update s.status c
        (.registered roomHandle role outcome.clientId)) :
      SessionEffect app now s t (.register c roomHandle role preferredClientId)
        (.register roomHandle role preferredClientId ⟨c⟩) (.registered (.ok outcome))
  | refused {c roomHandle role preferredClientId error}
      (fresh : s.status c = .fresh)
      (call : register app.config now roomHandle role preferredClientId ⟨c⟩ s.inner =
        (.error error, t.inner))
      (status : t.status = Function.update s.status c .departed) :
      SessionEffect app now s t (.register c roomHandle role preferredClientId)
        (.register roomHandle role preferredClientId ⟨c⟩) (.registered (.error error))
  | left {c roomHandle role clientId outcome}
      (registered : s.status c = .registered roomHandle role clientId)
      (call : unregister app.config now roomHandle role clientId s.inner = (outcome, t.inner))
      (status : t.status = Function.update s.status c .departed) :
      SessionEffect app now s t (.unregister c) (.unregister roomHandle role clientId)
        (.unregistered outcome)
  | signalled {c roomHandle role clientId peerId payload result}
      (registered : s.status c = .registered roomHandle role clientId)
      (call : forwardSignal app.config now roomHandle clientId peerId payload s.inner =
        (result, t.inner))
      (status : t.status = s.status) :
      SessionEffect app now s t (.signal c peerId payload)
        (.forwardSignal roomHandle clientId peerId payload) (.forwarded result)
  | called {op outcome} (membership : op.changesMembership = false)
      (call : Applied app now s.inner op outcome t.inner) (status : t.status = s.status) :
      SessionEffect app now s t (.call op) op outcome

theorem AppState.sessionStep_eq_some {app : AppState} {s t : Sessions} {label : SessionLabel}
    {op : Operation} {outcome : Outcome}
    (h : app.sessionStep s label = some (t, op, outcome)) :
    s.clock ≤ label.now ∧ t.clock = label.now ∧
      SessionEffect app label.now s t label.action op outcome := by
  simp only [AppState.sessionStep] at h
  split_ifs at h with hclock
  obtain ⟨op', hop, heq⟩ := Option.map_eq_some_iff.mp h
  obtain ⟨rfl, hrest⟩ := Prod.mk.inj heq
  obtain ⟨rfl, rfl⟩ := Prod.mk.inj hrest
  refine ⟨hclock, rfl, ?_⟩
  obtain ⟨now, action⟩ := label
  cases action with
  | register c roomHandle role preferredClientId =>
    simp only [operationOf] at hop
    split_ifs at hop with hfresh
    obtain rfl := Option.some.inj hop
    rcases hresult : register app.config now roomHandle role preferredClientId ⟨c⟩ s.inner with
      ⟨result, inner'⟩
    cases result with
    | ok outcome =>
      simp only [AppState.apply, hresult]
      exact .joined hfresh hresult rfl
    | error error =>
      simp only [AppState.apply, hresult]
      exact .refused hfresh hresult rfl
  | unregister c =>
    simp only [operationOf] at hop
    split at hop
    · rename_i roomHandle role clientId hstatus
      obtain rfl := Option.some.inj hop
      exact .left hstatus rfl rfl
    · cases hop
  | signal c peerId payload =>
    simp only [operationOf] at hop
    split at hop
    · rename_i roomHandle role clientId hstatus
      obtain rfl := Option.some.inj hop
      exact .signalled hstatus rfl rfl
    · cases hop
  | call op =>
    simp only [operationOf] at hop
    split_ifs at hop with hop'
    obtain rfl := Option.some.inj hop
    exact .called (Bool.eq_false_iff.mpr hop') (AppState.applied rfl) rfl

/-- An operation other than `register` and `unregister` changes nobody's membership. -/
theorem handleAt_of_applied {app : AppState} {now : ℕ} {inner inner' : StateInner}
    {op : Operation} {outcome : Outcome} (h : Applied app now inner op outcome inner')
    (hop : op.changesMembership = false) (roomHandle : String) (role : ClientRole) (id : String) :
    handleAt inner' roomHandle role id = handleAt inner roomHandle role id := by
  cases h with
  | register h => cases hop
  | unregister h => cases hop
  | candidateLoginForRoom h => rw [candidateLoginForRoom_inner h, handleAt_prune]
  | storeRoom h => exact storeRoom_handleAt h roomHandle role id
  | ensureRoomCapacity h => rw [(ensureRoomCapacity_cases h).1, handleAt_prune]
  | checkAuthRateLimit h =>
    rw [← handleAt_prune app.config now inner, handleAt, checkAuthRateLimit_rooms h, handleAt]
  | forwardSignal h => exact forwardSignal_handleAt h roomHandle role id

/-! ## The invariant -/

/-- The step is the `register` that gave the connection its id. -/
def JoinedAs (t : SessionTransition) (c : ConnId) (roomHandle : String) (role : ClientRole)
    (clientId : String) : Prop :=
  ∃ preferredClientId outcome, t.label.action = .register c roomHandle role preferredClientId ∧
    t.output = (.register roomHandle role preferredClientId ⟨c⟩, .registered (.ok outcome)) ∧
    outcome.clientId = clientId

/-- The rooms hold the handles of the registered connections, each under one role, and the
history knows where each of them came from. -/
structure Seated (history : List SessionTransition) (s : Sessions) : Prop where
  handles : ∀ roomHandle role id c, handleAt s.inner roomHandle role id = some ⟨c⟩ ↔
    s.status c = .registered roomHandle role id
  oneRole : ∀ roomHandle role id, (handleAt s.inner roomHandle role id).isSome →
    handleAt s.inner roomHandle role.peer id = none
  joined : ∀ c roomHandle role id, s.status c = .registered roomHandle role id →
    ∃ t ∈ history, JoinedAs t c roomHandle role id
  present : ∀ c, s.status c ≠ .departed → ∀ t ∈ history, t.label.action ≠ .unregister c

namespace Seated

variable {app : AppState} {history : List SessionTransition} {s t : Sessions}
  {label : SessionLabel} {op : Operation} {outcome : Outcome}

/-- A step that changes neither the membership nor the status of a connection. -/
theorem of_unchanged (h : Seated history s)
    (hhandles : ∀ r role id, handleAt t.inner r role id = handleAt s.inner r role id)
    (hstatus : t.status = s.status) (haction : ∀ c, label.action ≠ .unregister c) :
    Seated (history ++ [⟨s, label, (op, outcome), t⟩]) t where
  handles r role id c := by rw [hhandles, hstatus, h.handles]
  oneRole r role id := by rw [hhandles, hhandles]; exact h.oneRole r role id
  joined c r role id hc := by
    rw [hstatus] at hc
    obtain ⟨u, hu, hjoined⟩ := h.joined c r role id hc
    exact ⟨u, List.mem_append_left _ hu, hjoined⟩
  present c hc u hu := by
    rw [hstatus] at hc
    rcases List.mem_append.mp hu with hu | hu
    · exact h.present c hc u hu
    · rw [List.mem_singleton.mp hu]
      exact haction c

/-- A connection that the step does not touch joined before the step and has not left since. -/
theorem untouched (h : Seated history s) {c c' : ConnId} {m : Membership}
    (status : t.status = Function.update s.status c m) (hc : c' ≠ c)
    (haction : label.action ≠ .unregister c') :
    (∀ roomHandle role id, t.status c' = .registered roomHandle role id →
      ∃ u ∈ history ++ [⟨s, label, (op, outcome), t⟩], JoinedAs u c' roomHandle role id) ∧
    (t.status c' ≠ .departed → ∀ u ∈ history ++ [⟨s, label, (op, outcome), t⟩],
      u.label.action ≠ .unregister c') := by
  have hsame : t.status c' = s.status c' := by rw [status, Function.update_of_ne hc]
  rw [hsame]
  constructor
  · intro roomHandle role id hregistered
    obtain ⟨u, hu, hjoined⟩ := h.joined c' roomHandle role id hregistered
    exact ⟨u, List.mem_append_left _ hu, hjoined⟩
  · intro hpresent u hu
    rcases List.mem_append.mp hu with hu | hu
    · exact h.present c' hpresent u hu
    · rw [List.mem_singleton.mp hu]
      exact haction

theorem join (h : Seated history s) {now : ℕ} {c : ConnId} {roomHandle : String}
    {role : ClientRole} {preferredClientId : Option String} {outcome : RegisterOutcome}
    (fresh : s.status c = .fresh)
    (call : register app.config now roomHandle role preferredClientId ⟨c⟩ s.inner =
      (.ok outcome, t.inner))
    (status : t.status = Function.update s.status c
      (.registered roomHandle role outcome.clientId)) :
    Seated (history ++ [⟨s, ⟨now, .register c roomHandle role preferredClientId⟩,
      (.register roomHandle role preferredClientId ⟨c⟩, .registered (.ok outcome)), t⟩]) t := by
  obtain ⟨hfree, hpoint, -, -⟩ := register_ok call
  have hself : t.status c = .registered roomHandle role outcome.clientId := by
    rw [status, Function.update_self]
  constructor
  · intro r role' id c'
    rw [hpoint]
    by_cases hc : c' = c
    · subst hc
      rw [hself]
      split_ifs with hat
      · simp [hat]
      · rw [h.handles, fresh]
        simp only [Membership.registered.injEq, reduceCtorEq, false_iff]
        intro hsame
        exact hat ⟨hsame.1.symm, hsame.2.1.symm, hsame.2.2.symm⟩
    · rw [status, Function.update_of_ne hc]
      split_ifs with hat
      · obtain ⟨rfl, rfl, rfl⟩ := hat
        rw [← h.handles, hfree]
        simp [Ne.symm hc]
      · exact h.handles r role' id c'
  · intro r role' id
    rw [hpoint, hpoint]
    by_cases hat : r = roomHandle ∧ id = outcome.clientId
    · obtain ⟨rfl, rfl⟩ := hat
      rw [hfree, hfree]
      cases role <;> cases role' <;> simp [ClientRole.peer]
    · rw [if_neg fun hall => hat ⟨hall.1, hall.2.2⟩, if_neg fun hall => hat ⟨hall.1, hall.2.2⟩]
      exact h.oneRole r role' id
  · intro c' r role' id hc'
    by_cases hc : c' = c
    · subst hc
      rw [hself] at hc'
      obtain ⟨rfl, rfl, rfl⟩ := Membership.registered.inj hc'
      exact ⟨_, List.mem_append_right _ (List.mem_singleton_self _), preferredClientId, outcome,
        rfl, rfl, rfl⟩
    · exact (h.untouched status hc (by simp)).1 r role' id hc'
  · intro c' hc' u hu
    by_cases hc : c' = c
    · subst hc
      rcases List.mem_append.mp hu with hu | hu
      · exact h.present c' (by simp [fresh]) u hu
      · simp [List.mem_singleton.mp hu]
    · exact (h.untouched status hc (by simp)).2 hc' u hu

/-- A connection that is not registered loses nothing by departing. -/
theorem refuse (h : Seated history s) {now : ℕ} {c : ConnId} {roomHandle : String}
    {role : ClientRole} {preferredClientId : Option String} (fresh : s.status c = .fresh)
    (hhandles : ∀ r role id, handleAt t.inner r role id = handleAt s.inner r role id)
    (status : t.status = Function.update s.status c .departed) :
    Seated (history ++ [⟨s, ⟨now, .register c roomHandle role preferredClientId⟩,
      (op, outcome), t⟩]) t := by
  have hself : t.status c = .departed := by rw [status, Function.update_self]
  constructor
  · intro r role' id c'
    rw [hhandles, h.handles]
    by_cases hc : c' = c
    · subst hc
      simp [hself, fresh]
    · rw [status, Function.update_of_ne hc]
  · intro r role' id
    rw [hhandles, hhandles]
    exact h.oneRole r role' id
  · intro c' r role' id hc'
    by_cases hc : c' = c
    · subst hc
      simp [hself] at hc'
    · exact (h.untouched status hc (by simp)).1 r role' id hc'
  · intro c' hc' u hu
    by_cases hc : c' = c
    · subst hc
      exact absurd hself hc'
    · exact (h.untouched status hc (by simp)).2 hc' u hu

theorem leave (h : Seated history s) {now : ℕ} {c : ConnId} {roomHandle clientId : String}
    {role : ClientRole} {left : UnregisterOutcome}
    (registered : s.status c = .registered roomHandle role clientId)
    (call : unregister app.config now roomHandle role clientId s.inner = (left, t.inner))
    (status : t.status = Function.update s.status c .departed) :
    Seated (history ++ [⟨s, ⟨now, .unregister c⟩, (op, outcome), t⟩]) t := by
  have hpoint := (unregister_spec call).1
  have hown := (h.handles roomHandle role clientId c).mpr registered
  have hself : t.status c = .departed := by rw [status, Function.update_self]
  constructor
  · intro r role' id c'
    rw [hpoint]
    by_cases hc : c' = c
    · subst hc
      rw [hself]
      split_ifs with hat
      · simp
      · rw [h.handles, registered]
        simp only [Membership.registered.injEq, iff_false]
        intro hsame
        exact hat ⟨hsame.1.symm, hsame.2.1.symm, hsame.2.2.symm⟩
    · rw [status, Function.update_of_ne hc]
      split_ifs with hat
      · obtain ⟨rfl, rfl, rfl⟩ := hat
        rw [← h.handles, hown]
        simp [Ne.symm hc]
      · exact h.handles r role' id c'
  · intro r role' id hsome
    rw [hpoint] at hsome ⊢
    split_ifs at hsome with hat
    · cases hsome
    · split_ifs
      · rfl
      · exact h.oneRole r role' id hsome
  · intro c' r role' id hc'
    by_cases hc : c' = c
    · subst hc
      simp [hself] at hc'
    · exact (h.untouched status hc (by simpa using Ne.symm hc)).1 r role' id hc'
  · intro c' hc' u hu
    by_cases hc : c' = c
    · subst hc
      exact absurd hself hc'
    · exact (h.untouched status hc (by simpa using Ne.symm hc)).2 hc' u hu

theorem step (h : Seated history s)
    (taken : app.sessionStep s label = some (t, op, outcome)) :
    Seated (history ++ [⟨s, label, (op, outcome), t⟩]) t := by
  obtain ⟨-, -, heffect⟩ := AppState.sessionStep_eq_some taken
  obtain ⟨now, action⟩ := label
  dsimp only at heffect
  cases heffect with
  | joined fresh call status => exact h.join fresh call status
  | refused fresh call status =>
    apply h.refuse fresh _ status
    intro r role id
    rw [(register_error call).2.1, handleAt_prune]
  | left registered call status => exact h.leave registered call status
  | signalled registered call status =>
    exact h.of_unchanged (forwardSignal_handleAt call) status (by simp)
  | called membership call status =>
    exact h.of_unchanged (handleAt_of_applied call membership) status (by simp)

end Seated

theorem seated_of_run {app : AppState} {history : List SessionTransition} {s : Sessions}
    (run : app.SessionRun history s) : Seated history s := by
  apply run.historyInvariant Seated
  · constructor <;> simp [Sessions.initial]
  · intro history s label t output _ h taken
    exact h.step taken

/-! ## Ownership of the handles -/

/-- The membership after the step is the membership before it, but for one point. -/
def ReplacesOnly (t : SessionTransition) (roomHandle : String) (role : ClientRole) (id : String)
    (handle : Option ClientHandle) : Prop :=
  ∀ r role' id', handleAt t.target.inner r role' id' =
    if r = roomHandle ∧ role' = role ∧ id' = id then handle
    else handleAt t.source.inner r role' id'

structure OwnHandles (past : List SessionTransition) (t : SessionTransition) : Prop where
  register : ∀ roomHandle role preferredClientId handle outcome,
    t.output = (.register roomHandle role preferredClientId handle, .registered (.ok outcome)) →
      (∀ role', handleAt t.source.inner roomHandle role' outcome.clientId = none) ∧
      ReplacesOnly t roomHandle role outcome.clientId (some handle)
  unregister : ∀ c, t.label.action = .unregister c → ∃ roomHandle role clientId,
    (∃ u ∈ past, JoinedAs u c roomHandle role clientId) ∧
    t.output.1 = .unregister roomHandle role clientId ∧
    handleAt t.source.inner roomHandle role clientId = some ⟨c⟩ ∧
    ReplacesOnly t roomHandle role clientId none
  others : t.output.1.changesMembership = false → ∀ roomHandle role id,
    handleAt t.target.inner roomHandle role id = handleAt t.source.inner roomHandle role id

theorem Seated.ownHandles {app : AppState} {past : List SessionTransition}
    {t : SessionTransition} (h : Seated past t.source)
    (taken : app.sessionStep t.source t.label = some (t.target, t.output)) :
    OwnHandles past t := by
  obtain ⟨s, ⟨now, action⟩, ⟨op, outcome⟩, s'⟩ := t
  obtain ⟨-, -, heffect⟩ := AppState.sessionStep_eq_some taken
  dsimp only at h heffect
  constructor
  · rintro roomHandle role preferredClientId handle outcome heq
    obtain ⟨rfl, rfl⟩ := Prod.mk.inj heq
    cases heffect with
    | joined fresh call status =>
      obtain ⟨hfree, hpoint, -, -⟩ := register_ok call
      exact ⟨hfree, hpoint⟩
    | called membership call status => cases membership
  · rintro c rfl
    cases heffect with
    | @left _ roomHandle role clientId outcome registered call status =>
      exact ⟨roomHandle, role, clientId, h.joined c roomHandle role clientId registered, rfl,
        (h.handles roomHandle role clientId c).mpr registered, (unregister_spec call).1⟩
  · intro hop
    dsimp only at hop
    cases heffect with
    | joined => cases hop
    | refused => cases hop
    | left => cases hop
    | signalled registered call status => exact forwardSignal_handleAt call
    | called membership call status => exact handleAt_of_applied call membership

theorem Seated.disjoint {history : List SessionTransition} {s : Sessions}
    (h : Seated history s) {roomHandle : String} {room : RoomState}
    (hroom : s.inner.rooms.lookup roomHandle = some room) :
    room.agents.keys.Disjoint room.zookeepers.keys := by
  intro id hagent hzookeeper
  have hone := h.oneRole roomHandle .agent id
  rw [handleAt_of_lookup hroom, handleAt_of_lookup hroom] at hone
  have hnone := hone (AList.lookup_isSome.mpr (AList.mem_keys.mpr hagent))
  exact AList.lookup_eq_none.mp hnone (AList.mem_keys.mpr hzookeeper)

/-- Over every run the two maps of a room hold different ids, `register` only ever fills a free
point, and every connection that unregisters removes what its own `register` put there. -/
theorem connections_own_their_handles {app : AppState} {history : List SessionTransition}
    {s : Sessions} (run : app.SessionRun history s) :
    (∀ roomHandle room, s.inner.rooms.lookup roomHandle = some room →
      room.agents.keys.Disjoint room.zookeepers.keys) ∧
    ∀ past t later, history = past ++ t :: later → OwnHandles past t := by
  constructor
  · intro roomHandle room hroom
    exact (seated_of_run run).disjoint hroom
  · rintro past t later rfl
    exact (seated_of_run run.cut.1).ownHandles run.cut.2

/-- An agent whose alias is the next generated id, and a zookeeper that then needs one and leaves
again. -/
theorem connections_own_their_handles_alias :
    ∃ history s, idealApp.SessionRun history s ∧ history.length = 4 ∧
    s.status 1 = .registered "room" .agent "zookeeper-1" ∧
    (handleAt s.inner "room" .agent "zookeeper-1").isSome ∧
    ∀ past t later, history = past ++ t :: later → OwnHandles past t := by
  have h : (exec idealApp.sessionStep Sessions.initial
      [⟨0, .call (.storeRoom "room" [7])⟩, ⟨1, .register 1 "room" .agent (some "zookeeper-1")⟩,
        ⟨2, .register 2 "room" .zookeeper none⟩, ⟨3, .unregister 2⟩]).isSome := rfl
  have run := Run.of_labels h
  exact ⟨_, _, run, rfl, rfl, rfl, (connections_own_their_handles run).2⟩

end ManInTheBox.Server
