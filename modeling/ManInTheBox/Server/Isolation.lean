import ManInTheBox.Server.Sessions

/-! # Rooms do not leak into each other

Every message that an operation hands to a client handle comes from a register,
an unregister or a signal in the room in which that client is registered, and a
signal reaches exactly the client it names, under the name of its sender.
-/

namespace ManInTheBox.Server

open Library

/-- The room whose clients an operation may send to. -/
def Operation.roomHandle? : Operation → Option String
  | .register roomHandle _ _ _ => some roomHandle
  | .unregister roomHandle _ _ => some roomHandle
  | .forwardSignal roomHandle _ _ _ => some roomHandle
  | _ => none

/-- The messages that a step hands to client handles; a client that registers is handed its own
initial messages. -/
def delivered : Operation × Outcome → List (ClientHandle × ServerMessage)
  | (.register _ _ _ handle, .registered (.ok outcome)) =>
    outcome.initialMessages.map (handle, ·) ++ outcome.broadcasts
  | (_, .unregistered outcome) => outcome.broadcasts
  | (_, .forwarded (.ok delivery)) => [delivery]
  | _ => []

/-- The connection joined the room and has not unregistered. -/
def RegisteredIn (history : List SessionTransition) (c : ConnId) (roomHandle : String) : Prop :=
  (∃ t ∈ history, ∃ role clientId, JoinedAs t c roomHandle role clientId) ∧
    ∀ t ∈ history, t.label.action ≠ .unregister c

structure DeliveredWithin (past : List SessionTransition) (t : SessionTransition)
    (roomHandle : String) (receiver : ClientHandle) (message : ServerMessage) : Prop where
  producer : t.output.1.roomHandle? = some roomHandle
  member : RegisteredIn (past ++ [t]) receiver.connection roomHandle
  signal : ∀ peerId payload, message = .signal peerId payload →
    ∃ requestedId senderRole receiverRole sender,
      t.output.1 = .forwardSignal roomHandle peerId requestedId payload ∧
      handleAt t.source.inner roomHandle senderRole peerId = some sender ∧
      (∀ c requestedId' payload', t.label.action = .signal c requestedId' payload' →
        sender = ⟨c⟩ ∧ requestedId' = requestedId) ∧
      handleAt t.source.inner roomHandle receiverRole requestedId = some receiver ∧
      ¬(senderRole = .agent ∧ receiverRole = .agent)

theorem Seated.registeredIn {history : List SessionTransition} {s : Sessions}
    (h : Seated history s) {roomHandle : String} {role : ClientRole} {id : String}
    {handle : ClientHandle} (hhandle : handleAt s.inner roomHandle role id = some handle) :
    RegisteredIn history handle.connection roomHandle := by
  have hstatus := (h.handles roomHandle role id handle.connection).mp hhandle
  obtain ⟨t, ht, hjoined⟩ := h.joined _ _ _ _ hstatus
  exact ⟨⟨t, ht, role, id, hjoined⟩, h.present _ (by simp [hstatus])⟩

/-- A forwarded signal goes to a member of the room, under the id of another member. -/
theorem forwardSignal_delivery {config : SecurityConfig} {now : ℕ} {inner inner' : StateInner}
    {roomHandle senderId peerId : String} {payload : Value} {receiver : ClientHandle}
    {message : ServerMessage}
    (h : forwardSignal config now roomHandle senderId peerId payload inner =
      (.ok (receiver, message), inner')) :
    message = .signal senderId payload ∧ ∃ senderRole receiverRole sender,
      handleAt inner roomHandle senderRole senderId = some sender ∧
      handleAt inner roomHandle receiverRole peerId = some receiver ∧
      ¬(senderRole = .agent ∧ receiverRole = .agent) := by
  rcases forwardSignal_cases h with ⟨herror, -⟩ | ⟨room, hroom, ⟨-, herror, -⟩ | ⟨-, hroute, -⟩⟩
  · cases herror
  · cases herror
  · obtain ⟨hmessage, senderRole, receiverRole, sender, -, -, hsender, hreceiver, hagents⟩ :=
      routeSignal_ok hroute.symm
    refine ⟨hmessage, senderRole, receiverRole, sender, ?_, ?_, hagents⟩
    · rw [← handleAt_prune config now, handleAt_of_lookup hroom, hsender]
    · rw [← handleAt_prune config now, handleAt_of_lookup hroom, hreceiver]

/-- In a room whose ids each have one role, the role under which an id is found is its role. -/
theorem Seated.role_unique {history : List SessionTransition} {s : Sessions}
    (h : Seated history s) {roomHandle : String} {role role' : ClientRole} {id : String}
    {handle handle' : ClientHandle} (hrole : handleAt s.inner roomHandle role id = some handle)
    (hrole' : handleAt s.inner roomHandle role' id = some handle') : role' = role := by
  rcases ClientRole.eq_or_eq_peer role role' with heq | rfl
  · exact heq
  · have hnone := h.oneRole roomHandle role id (Option.isSome_of_eq_some hrole)
    rw [hnone] at hrole'
    cases hrole'

theorem Seated.deliveredWithin {app : AppState} {past : List SessionTransition}
    {t : SessionTransition} (h : Seated past t.source)
    (taken : app.sessionStep t.source t.label = some (t.target, t.output))
    {receiver : ClientHandle} {message : ServerMessage}
    (hdelivered : (receiver, message) ∈ delivered t.output) :
    ∃ roomHandle, DeliveredWithin past t roomHandle receiver message := by
  have hafter : Seated (past ++ [t]) t.target := h.step taken
  obtain ⟨s, ⟨now, action⟩, ⟨op, outcome⟩, s'⟩ := t
  obtain ⟨-, -, heffect⟩ := AppState.sessionStep_eq_some taken
  dsimp only at h hafter heffect hdelivered
  cases heffect with
  | @joined c roomHandle role preferredClientId outcome fresh call status =>
    obtain ⟨-, hpoint, ⟨agents, zookeepers, hinitial, -, -⟩, hbroadcasts⟩ := register_ok call
    simp only [delivered, hinitial, List.map_cons, List.map_nil, List.mem_append,
      List.mem_singleton, hbroadcasts] at hdelivered
    refine ⟨roomHandle, rfl, ?_, ?_⟩
    · rcases hdelivered with heq | ⟨-, id, hid⟩
      · obtain ⟨rfl, -⟩ := Prod.mk.inj heq
        exact hafter.registeredIn ((hpoint roomHandle role outcome.clientId).trans (by simp))
      · apply hafter.registeredIn ((hpoint roomHandle role.peer id).trans _)
        rw [if_neg (by simp [role.peer_ne]), hid]
    · rintro peerId payload rfl
      simp at hdelivered
  | refused fresh call status => simp [delivered] at hdelivered
  | @left c roomHandle role clientId outcome registered call status =>
    obtain ⟨hpoint, hbroadcasts⟩ := unregister_spec call
    simp only [delivered, hbroadcasts] at hdelivered
    obtain ⟨rfl, -, id, hid⟩ := hdelivered
    refine ⟨roomHandle, rfl, ?_, by simp⟩
    apply hafter.registeredIn ((hpoint roomHandle role.peer id).trans _)
    rw [if_neg (by simp [role.peer_ne]), hid]
  | @signalled c roomHandle role clientId peerId payload result registered call status =>
    cases result with
    | error e => simp [delivered] at hdelivered
    | ok delivery =>
      obtain rfl := List.mem_singleton.mp hdelivered
      obtain ⟨rfl, senderRole, receiverRole, sender, hsender, hreceiver, hagents⟩ :=
        forwardSignal_delivery call
      refine ⟨roomHandle, rfl, ?_, ?_⟩
      · exact hafter.registeredIn ((forwardSignal_handleAt call _ _ _).trans hreceiver)
      · intro peerId' payload' heq
        obtain ⟨rfl, rfl⟩ := ServerMessage.signal.inj heq
        refine ⟨peerId, senderRole, receiverRole, sender, rfl, hsender, ?_, hreceiver, hagents⟩
        intro c' requestedId' payload' haction
        obtain ⟨rfl, rfl, rfl⟩ := SessionAction.signal.inj haction
        have hown := (h.handles roomHandle role clientId c).mpr registered
        obtain rfl := h.role_unique hown hsender
        exact ⟨Option.some.inj (hsender.symm.trans hown), rfl⟩
  | @called op outcome membership call status =>
    cases call with
    | register => cases membership
    | unregister => cases membership
    | @forwardSignal roomHandle senderId peerId payload result inner' call =>
      cases result with
      | error e => simp [delivered] at hdelivered
      | ok delivery =>
        obtain rfl := List.mem_singleton.mp hdelivered
        obtain ⟨rfl, senderRole, receiverRole, sender, hsender, hreceiver, hagents⟩ :=
          forwardSignal_delivery call
        refine ⟨roomHandle, rfl, ?_, ?_⟩
        · exact hafter.registeredIn ((forwardSignal_handleAt call _ _ _).trans hreceiver)
        · intro peerId' payload' heq
          obtain ⟨rfl, rfl⟩ := ServerMessage.signal.inj heq
          exact ⟨peerId, senderRole, receiverRole, sender, rfl, hsender, by simp, hreceiver, hagents⟩
    | _ => simp [delivered] at hdelivered

/-- Every message handed to a client handle, in every run, stays within one room. -/
theorem messages_stay_in_their_room {app : AppState} {history : List SessionTransition}
    {s : Sessions} (run : app.SessionRun history s) :
    ∀ past t later, history = past ++ t :: later →
      ∀ receiver message, (receiver, message) ∈ delivered t.output →
        ∃ roomHandle, DeliveredWithin past t roomHandle receiver message := by
  rintro past t later rfl receiver message hdelivered
  exact (seated_of_run run.cut.1).deliveredWithin run.cut.2 hdelivered

/-- A zookeeper signals an agent that chose the name under which it is reached. -/
theorem messages_stay_in_their_room_signal : ∃ past t,
    (⟨1⟩, .signal "zookeeper-1" ⟨"{}"⟩) ∈ delivered t.output ∧
    ∃ roomHandle, DeliveredWithin past t roomHandle ⟨1⟩ (.signal "zookeeper-1" ⟨"{}"⟩) := by
  let labels : List SessionLabel :=
    [⟨0, .call (.storeRoom "room" [7])⟩, ⟨1, .register 1 "room" .agent (some "keeper")⟩,
      ⟨2, .register 2 "room" .zookeeper none⟩, ⟨3, .signal 2 "keeper" ⟨"{}"⟩⟩]
  have run : idealApp.SessionRun (trace _ _ labels) (reached _ _ labels) := Run.of_labels rfl
  have hne : trace idealApp.sessionStep Sessions.initial labels ≠ [] := by rintro ⟨⟩
  have hmem : (⟨1⟩, .signal "zookeeper-1" ⟨"{}"⟩) ∈
      delivered ((trace idealApp.sessionStep Sessions.initial labels).getLast hne).output :=
    List.mem_singleton.mpr rfl
  have hsplit := (List.dropLast_append_getLast hne).symm
  exact ⟨_, _, hmem, messages_stay_in_their_room run _ _ [] hsplit _ _ hmem⟩

end ManInTheBox.Server
