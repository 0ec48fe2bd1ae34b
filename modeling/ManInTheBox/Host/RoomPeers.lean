import ManInTheBox.Host.Peers
import ManInTheBox.Server.MembershipViews

/-! # The peers of the agent and the zookeepers of its room

The server tells the agent who is in the room through the queue of its connection. Between the table
of the server and that of the agent are the broadcasts that have yet to be enqueued and the frames
that the agent has yet to read; there is nothing else.
-/

namespace ManInTheBox.Host.Signaling

open Library Server

/-! ## Connected once -/

section Server

variable {app : AppState} {served : List SystemTransition} {s t : System} {label : Label}
  {shown : Shown}

/-- Only a task that awaits its `Connected` enqueues one. -/
theorem enqueues_connected {c receiver : ConnId} {task : Task} {message : Server.ServerMessage}
    {resume : Bool → Task} (h : Enqueues c task receiver message resume) (hsound : task.Sound s)
    (hconnected : message.isConnected = true) : task.awaitsConnected = true := by
  cases h with
  | initial => rfl
  | joined =>
    rw [(hsound.2 _ _ List.mem_cons_self).1] at hconnected
    cases hconnected
  | answer =>
    rcases hsound with rfl | ⟨error, rfl⟩ <;> cases hconnected
  | forward =>
    obtain ⟨senderId, payload, role, rfl, -⟩ := hsound
    cases hconnected
  | left =>
    obtain ⟨roomHandle, role, id, hall⟩ := hsound
    rw [(hall _ _ List.mem_cons_self).1] at hconnected
    cases hconnected

/-- The `Connected` messages in a queue, with the one that its owner has yet to enqueue. -/
def connectedCount (s : System) (c : ConnId) : ℕ :=
  (s.queue c).placed.countP Server.ServerMessage.isConnected +
    if (s.task c).awaitsConnected = true then 1 else 0

/-- A message that is enqueued is one more `Connected` in its queue at most. -/
theorem countP_placed_deliver {receiver : ConnId} {message : Server.ServerMessage}
    {queue : Queue} {sent : Bool}
    (send : (s.queue receiver).trySend (s.task receiver).isClosed message = (queue, sent))
    (c : ConnId) :
    (Function.update s.queue receiver queue c).placed.countP Server.ServerMessage.isConnected ≤
      (s.queue c).placed.countP Server.ServerMessage.isConnected +
        if c = receiver ∧ message.isConnected = true then 1 else 0 := by
  by_cases hreceiver : c = receiver
  · subst hreceiver
    rw [Function.update_self]
    rcases Queue.trySend_cases send with ⟨hsame, -⟩ | ⟨-, happend, -⟩
    · rw [hsame]
      exact Nat.le_add_right _ _
    · rw [happend, List.countP_append, List.countP_singleton]
      simp
  · rw [Function.update_of_ne hreceiver]
    exact Nat.le_add_right _ _

theorem connectedCount_step (h : ∀ c, connectedCount s c ≤ 1) (hout : Outbound s)
    (taken : app.socketStep s label = some (t, shown)) (c : ConnId) : connectedCount t c ≤ 1 := by
  have hbefore := h c
  obtain ⟨request, hrequest, hserved⟩ := AppState.socketStep_eq_some taken
  have htask (hne : c ≠ label.connection) := AppState.task_of_ne taken hne
  rw [connectedCount] at hbefore ⊢
  cases hserved with
  | goto after =>
    by_cases hc : c = label.connection
    · subst hc
      simp only [after, Function.update_self, (Task.request_goto hrequest).not_awaiting,
        Bool.false_eq_true, if_false, add_zero]
      exact le_trans (Nat.le_add_right _ _) hbefore
    · rw [htask hc]
      simpa only [after] using hbefore
  | perform past call clock task_eq queue =>
    by_cases hc : c = label.connection
    · subst hc
      rw [queue]
      split_ifs with hawaits
      · rw [task_eq, Function.update_self] at hawaits
        have hfresh :=
          (Task.request_perform hrequest).placed_of_awaits (AppState.applied call) hawaits
        rw [hout.placed_of_fresh hfresh]
        simp
      · exact le_trans (Nat.le_add_right _ _) hbefore
    · rw [htask hc, queue]
      exact hbefore
  | @deliver receiver message resume sent queue send after =>
    have henqueues := (Task.request_deliver hrequest).2
    have hawaits := henqueues.not_awaiting (hout.sound _) sent
    have hplaced : ((t.queue c).placed.countP Server.ServerMessage.isConnected) ≤
        (s.queue c).placed.countP Server.ServerMessage.isConnected +
          if c = receiver ∧ message.isConnected = true then 1 else 0 := by
      simpa only [after] using countP_placed_deliver send c
    by_cases hc : c = label.connection
    · subst hc
      have hnow : (t.task label.connection).awaitsConnected = false := by
        simpa [after] using hawaits
      rw [hnow]
      split_ifs at hplaced with hconnected
      · rw [enqueues_connected henqueues (hout.sound _) hconnected.2, if_pos rfl] at hbefore
        simpa using hplaced.trans hbefore
      · simpa using hplaced.trans (le_trans (Nat.le_add_right _ _) hbefore)
    · rw [htask hc]
      rw [if_neg] at hplaced
      · exact le_trans (Nat.add_le_add_right hplaced _) hbefore
      · rintro ⟨rfl, hconnected⟩
        rw [henqueues.not_connected (hout.sound _) hc] at hconnected
        cases hconnected
  | take next after =>
    by_cases hc : c = label.connection
    · subst hc
      simpa [after, Queue.advance] using hbefore
    · rw [htask hc]
      simpa [after, Function.update_of_ne hc] using hbefore

/-- No client is told twice that it is connected. -/
theorem connectedCount_of_run (run : app.SystemRun served s) (c : ConnId) :
    connectedCount s c ≤ 1 := by
  refine run.historyInvariant (fun _ s => ∀ c, connectedCount s c ≤ 1) ?_ ?_ c
  · intro c
    exact Nat.zero_le _
  · intro history s label t shown run h taken
    exact connectedCount_step h (outbound_of_run run) taken

end Server

/-! ## Frames -/

/-- A message of the server as the agent reads it: only the payload of a signal may be refused. -/
def Serde.read (serde : Serde) : Server.ServerMessage → Except String ServerMessage
  | .pakeRegistrationRequired => .ok .pakeRegistrationRequired
  | .pakeRegistrationResponse registrationResponse =>
    .ok (.pakeRegistrationResponse registrationResponse)
  | .pakeCredentialCandidates candidates => .ok (.pakeCredentialCandidates candidates)
  | .connected clientId _ agents zookeepers => .ok (.connected clientId agents zookeepers)
  | .peerJoined role clientId => .ok (.peerJoined role clientId)
  | .peerLeft role clientId => .ok (.peerLeft role clientId)
  | .signal peerId payload => (serde.payload payload).map (.signal peerId)
  | .error message => .ok (.error message)
  | .pong => .ok .pong

/-- What the server writes of these messages is what the agent reads. -/
def Serde.Faithful (serde : Serde) (messages : List Server.ServerMessage) : Prop :=
  ∀ message ∈ messages, serde.fromStr (serde.toString message) = serde.read message

/-- The text frames that a session has received. -/
def textFrames {Connection Channel : Type}
    (history : List (SessionTransition Connection Channel)) : List String :=
  history.filterMap fun taken =>
    match taken.label with
    | .receive (some (.ok (.text text))) _ => some text
    | _ => none

section Frames

variable {Connection Channel : Type} {serde : Serde} {messages : List Server.ServerMessage}
  {history : List (SessionTransition Connection Channel)}

/-- What the agent can read of the messages. -/
def Serde.readAll (serde : Serde) (messages : List Server.ServerMessage) : List ServerMessage :=
  messages.filterMap fun message => (serde.read message).toOption

theorem Serde.readAll_concat (message : Server.ServerMessage) :
    serde.readAll (messages ++ [message]) =
      serde.readAll messages ++ ((serde.read message).toOption).toList := by
  rw [Serde.readAll, List.filterMap_append, Serde.readAll]
  cases hread : (serde.read message).toOption <;> simp [hread]

theorem heard_eq : heard serde history =
    (textFrames history).filterMap fun text => (serde.fromStr text).toOption := by
  rw [heard, textFrames, List.filterMap_filterMap]
  apply List.filterMap_congr
  intro taken _
  cases taken.label with
  | receive received draws =>
    rcases received with _ | _ | message
    · rfl
    · rfl
    · cases message <;> rfl
  | connect | sent | report | tick | shutdown => rfl

theorem heard_of_frames (hfaithful : serde.Faithful messages)
    (h : textFrames history = messages.map serde.toString) :
    heard serde history = serde.readAll messages := by
  rw [heard_eq, h, List.filterMap_map, Serde.readAll]
  apply List.filterMap_congr
  intro message hmem
  rw [Function.comp_apply, hfaithful message hmem]

/-- Reading a message changes neither what it tells about the zookeepers nor whether it is a
`Connected`. -/
theorem read_message (message : Server.ServerMessage) :
    (∃ read, (serde.read message).toOption = some read ∧
      read.notice = message.notice .zookeeper ∧ read.isConnected = message.isConnected) ∨
    (serde.read message).toOption = none ∧ message.notice .zookeeper = .ignore ∧
      message.isConnected = false := by
  cases message with
  | signal peerId payload =>
    cases hpayload : serde.payload payload with
    | ok read => exact .inl ⟨.signal peerId read, by rw [Serde.read, hpayload]; rfl, rfl, rfl⟩
    | error error => exact .inr ⟨by rw [Serde.read, hpayload]; rfl, rfl, rfl⟩
  | peerJoined role clientId => cases role <;> exact .inl ⟨_, rfl, rfl, rfl⟩
  | peerLeft role clientId => cases role <;> exact .inl ⟨_, rfl, rfl, rfl⟩
  | _ => exact .inl ⟨_, rfl, rfl, rfl⟩

/-- The agent sees the zookeepers as the messages tell, whatever it could not read. -/
structure SameView (read : List ServerMessage) (messages : List Server.ServerMessage) : Prop where
  view : viewOf (read.map ServerMessage.notice) = membersSeen .zookeeper messages
  appears : ∀ id, appearances id (read.map ServerMessage.notice) =
    appearances id (messages.map (Server.ServerMessage.notice .zookeeper))
  count : read.countP ServerMessage.isConnected =
    messages.countP Server.ServerMessage.isConnected

theorem sameView_readAll (serde : Serde) (messages : List Server.ServerMessage) :
    SameView (serde.readAll messages) messages := by
  induction messages using List.reverseRecOn with
  | nil => exact ⟨rfl, fun _ => rfl, rfl⟩
  | append_singleton messages message ih =>
    obtain ⟨hview, happears, hcount⟩ := ih
    rw [membersSeen] at hview
    rw [Serde.readAll_concat]
    rcases @read_message serde message with
      ⟨read, hread, hnotice, hconnected⟩ | ⟨hread, hignore, hplain⟩
    · rw [hread, Option.toList_some]
      refine ⟨?_, fun id => ?_, ?_⟩
      · simp only [membersSeen, List.map_append, List.map_singleton, viewOf_concat, hview, hnotice]
      · simp only [List.map_append, List.map_singleton, appearances_concat, hview, happears,
          hnotice]
      · simp only [List.countP_append, List.countP_singleton, hcount, hconnected]
    · rw [hread, Option.toList_none, List.append_nil]
      refine ⟨?_, fun id => ?_, ?_⟩
      · simp only [membersSeen, List.map_append, List.map_singleton, viewOf_concat, hview, hignore,
          Notice.apply]
      · simp only [List.map_append, List.map_singleton, appearances_concat, happears, hignore,
          Notice.appears, Notice.apply, not_and_self, if_false, add_zero]
      · simp only [List.countP_append, List.countP_singleton, hcount, hplain, Bool.false_eq_true,
          if_false, add_zero]

end Frames

/-! ## The two tables -/

/-- The handshake tells nothing about the zookeepers. -/
theorem handshake_quiet {handshake : List Server.ServerMessage}
    (h : ∀ message ∈ handshake, (handshakeMessage message).isSome = true)
    (rest : List Server.ServerMessage) :
    membersSeen .zookeeper (handshake ++ rest) = membersSeen .zookeeper rest ∧
      (∀ id, appearances id ((handshake ++ rest).map (Server.ServerMessage.notice .zookeeper)) =
        appearances id (rest.map (Server.ServerMessage.notice .zookeeper))) ∧
      (handshake ++ rest).countP Server.ServerMessage.isConnected =
        rest.countP Server.ServerMessage.isConnected := by
  induction handshake with
  | nil => exact ⟨rfl, fun _ => rfl, rfl⟩
  | cons message handshake ih =>
    obtain ⟨hview, happears, hcount⟩ := ih fun m hm => h m (List.mem_cons_of_mem _ hm)
    have hquiet : message.notice .zookeeper = .ignore ∧ message.isConnected = false := by
      have hsome := h message List.mem_cons_self
      cases message with
      | connected | peerJoined | peerLeft | signal => cases hsome
      | _ => exact ⟨rfl, rfl⟩
    refine ⟨?_, fun id => ?_, ?_⟩
    · rw [← hview, membersSeen, List.cons_append, List.map_cons, hquiet.1]
      rfl
    · rw [← happears, List.cons_append, List.map_cons, hquiet.1]
      simp [appearances, Notice.apply, Notice.appears]
    · rw [List.cons_append, List.countP_cons_of_neg (by simp [hquiet.2]), hcount]

theorem notice_eq_add {message : Server.ServerMessage} {role : ClientRole} {id : String}
    (h : message.notice role = .add id) : message = .peerJoined role id := by
  cases message with
  | peerJoined role' id' =>
    rw [Server.ServerMessage.notice] at h
    split_ifs at h with hrole
    cases h
    rw [hrole]
  | peerLeft role' id' =>
    rw [Server.ServerMessage.notice] at h
    split_ifs at h
  | _ => cases h

theorem notice_eq_remove {message : Server.ServerMessage} {role : ClientRole} {id : String}
    (h : message.notice role = .remove id) : message = .peerLeft role id := by
  cases message with
  | peerLeft role' id' =>
    rw [Server.ServerMessage.notice] at h
    split_ifs at h with hrole
    cases h
    rw [hrole]
  | peerJoined role' id' =>
    rw [Server.ServerMessage.notice] at h
    split_ifs at h
  | _ => cases h

theorem notice_eq_reset {message : Server.ServerMessage} {role : ClientRole} {members : List String}
    (h : message.notice role = .reset members) : message.isConnected = true := by
  cases message with
  | connected => rfl
  | peerJoined role' id' | peerLeft role' id' =>
    rw [Server.ServerMessage.notice] at h
    split_ifs at h
  | _ => cases h

section Room

variable {app : AppState} {served : List SystemTransition} {s : System}
  {outside : Outside Connection Channel} {options : AgentOptions}
  {history : List (SessionTransition Connection Channel)}
  {context : ServerMessageContext Connection Channel}

/-- At every moment of a run of the server that enqueues its broadcasts in order, and of a session
of an agent that has read the first of the messages in its queue: the agent keeps a peer for every
zookeeper in its room, and only for those, up to the announcements and farewells that are still on
their way. A zookeeper has been sent one offer each time it came, and the last one is that of the
connection which is kept, so that its answer is for this connection. -/
theorem peers_follow_room (server : app.SystemRun served s)
    (horder : ∀ taken ∈ served, ¬ OutOfOrder taken.source taken.label) {z : ConnId}
    {roomHandle agentId : String}
    (hz : (s.task z).membership = .registered roomHandle .agent agentId)
    (hpenalized : (s.queue z).penalized = false)
    (run : OpenSession outside options history (.serving context))
    {handshake read unread : List Server.ServerMessage}
    (hfaithful : outside.serde.Faithful (handshake ++ read))
    (hhandshake : ∀ message ∈ handshake, (handshakeMessage message).isSome = true)
    (hframes : textFrames history = (handshake ++ read).map outside.serde.toString)
    (hplaced : (s.queue z).placed = read ++ unread) :
    (∀ id c, handleAt s.inner roomHandle .zookeeper id = some ⟨c⟩ →
      (context.peers.lookup id).isSome = true ∨
        (⟨z⟩, .peerJoined .zookeeper id) ∈ (s.task c).broadcasts ∨
        .peerJoined .zookeeper id ∈ unread) ∧
    (∀ id, handleAt s.inner roomHandle .zookeeper id = none →
      (context.peers.lookup id).isSome = true →
        (∃ c, (⟨z⟩, .peerLeft .zookeeper id) ∈ (s.task c).broadcasts) ∨
        .peerLeft .zookeeper id ∈ unread) ∧
    (∀ id, (signalsTo id context.signalTx).length =
      appearances id (read.map (Server.ServerMessage.notice .zookeeper))) ∧
    Current outside.webrtc context := by
  obtain ⟨hserving, htracked⟩ := knows_of_run run
  obtain ⟨hview, happears, hcount⟩ := sameView_readAll outside.serde (handshake ++ read)
  obtain ⟨hview', happears', hcount'⟩ := handshake_quiet hhandshake read
  rw [← heard_of_frames hfaithful hframes] at hview happears hcount
  have honce := connectedCount_of_run server z
  rw [connectedCount, hplaced, List.countP_append] at honce
  have hread : 0 < read.countP Server.ServerMessage.isConnected := by
    rw [← hcount', ← hcount, List.countP_pos_iff]
    exact List.any_eq_true.mp hserving
  obtain ⟨hpeers, hoffers, hcurrent⟩ := htracked (by omega)
  have hmessages : s.messagesOf z = read ++ unread := by
    have hawaits : (s.task z).awaitsConnected = false := by
      by_contra htrue
      rw [if_pos (by simpa using htrue)] at honce
      omega
    rw [System.messagesOf, Task.initialMessages_of_not_awaiting hawaits, List.append_nil, hplaced]
  have hreset (members : List String) :
      .reset members ∉ unread.map (Server.ServerMessage.notice .zookeeper) := by
    intro hmem
    obtain ⟨message, hmem, hnotice⟩ := List.mem_map.mp hmem
    have hpos : 0 < unread.countP Server.ServerMessage.isConnected :=
      List.countP_pos_iff.mpr ⟨message, hmem, notice_eq_reset hnotice⟩
    omega
  have hviewed : Viewed s z roomHandle .zookeeper :=
    converging_of_run server horder z roomHandle .agent agentId hz hpenalized
  have hall : membersSeen .zookeeper (s.messagesOf z) =
      viewOf (read.map (Server.ServerMessage.notice .zookeeper) ++
        unread.map (Server.ServerMessage.notice .zookeeper)) := by
    rw [hmessages, membersSeen, List.map_append]
  have hpeer (id : String) : (context.peers.lookup id).isSome = true ↔
      id ∈ viewOf (read.map (Server.ServerMessage.notice .zookeeper)) := by
    rw [hpeers, hview, hview', membersSeen]
  refine ⟨fun id c hid => ?_, fun id hid hkept => ?_, fun id => ?_, hcurrent⟩
  · rcases hviewed.present id c hid with hpending | ⟨hseen, -⟩
    · exact .inr (.inl hpending)
    · by_cases hkept : id ∈ viewOf (read.map (Server.ServerMessage.notice .zookeeper))
      · exact .inl ((hpeer id).mpr hkept)
      · rw [hall] at hseen
        obtain ⟨message, hmem, hnotice⟩ :=
          List.mem_map.mp (add_mem_of_appears hreset hkept hseen)
        exact .inr (.inr (notice_eq_add hnotice ▸ hmem))
  · by_cases hseen : id ∈ membersSeen .zookeeper (s.messagesOf z)
    · exact .inl (hviewed.absent id hid hseen)
    · rw [hall] at hseen
      obtain ⟨message, hmem, hnotice⟩ :=
        List.mem_map.mp (remove_mem_of_disappears hreset ((hpeer id).mp hkept) hseen)
      exact .inr (notice_eq_remove hnotice ▸ hmem)
  · rw [hoffers, happears, happears']

end Room

/-- An agent opens the room, and a zookeeper enters it. -/
def zookeeperEnters : List Label :=
  Scenario.createRoom 0 1 "room" [7] (some "a") ++ [Scenario.register 0 1, Scenario.enqueue 1] ++
    Scenario.beginLogin 1 2 .zookeeper "room" [7] none ++
    [Scenario.finishLogin 2 [7], Scenario.register 2 2] ++ List.replicate 2 (Scenario.enqueue 2)

def connectedText : String := "\x7b\"type\":\"connected\",\"client_id\":\"a\",\"role\":\"agent\"," ++
  "\"agents\":[],\"zookeepers\":[]\x7d"

def joinedText : String :=
  "\x7b\"type\":\"peer_joined\",\"role\":\"zookeeper\",\"client_id\":\"zookeeper-1\"\x7d"

/-- serde_json on these two frames. -/
def roomSerde : Serde where
  toString
    | .connected _ _ _ _ => connectedText
    | .peerJoined _ _ => joinedText
    | _ => ""
  fromStr text :=
    if text = connectedText then .ok (.connected "a" [] [])
    else if text = joinedText then .ok (.peerJoined .zookeeper "zookeeper-1")
    else .error "EOF while parsing a value"
  payload _ := .error "EOF while parsing a value"

def roomOutside : Outside Unit Unit := ⟨idealCrates, roomSerde, quietWebRtc⟩

def agentListens : List Happening :=
  [.connect (.ok ()) id, .sent (.ok ()), .receive (some (.ok (.text connectedText))) id, .tick,
    .receive (some (.ok (.text joinedText))) id]

theorem peers_follow_room_enters :
    ∃ context : ServerMessageContext Unit Unit,
      reached (Session.step roomOutside ⟨"k7", none⟩) .connecting agentListens =
        .serving context ∧
      (signalsTo "zookeeper-1" context.signalTx).length = 1 ∧ Current quietWebRtc context := by
  have server : idealApp.SystemRun (trace _ _ zookeeperEnters) (reached _ _ zookeeperEnters) :=
    Run.of_labels rfl
  have hconnections : ∀ t ∈ trace idealApp.socketStep System.initial zookeeperEnters,
      t.label.connection ∈ [1, 2] := by
    decide
  have horder := not_outOfOrder_of_connections server _ hconnections (by decide)
  refine ⟨_, rfl, ?_⟩
  have run := @Run.of_labels _ _ _ (Session.step roomOutside ⟨"k7", none⟩) Session.connecting
    agentListens rfl
  have hfaithful : roomSerde.Faithful
      [.connected "a" .agent [] [], .peerJoined .zookeeper "zookeeper-1"] := by
    intro message hmem
    fin_cases hmem <;> decide
  obtain ⟨-, -, hoffers, hcurrent⟩ := @peers_follow_room Unit Unit idealApp _ _ roomOutside
    ⟨"k7", none⟩ _ _ server horder 1 "room" "a" rfl rfl run []
    [.connected "a" .agent [] [], .peerJoined .zookeeper "zookeeper-1"] [] hfaithful (by simp) rfl rfl
  exact ⟨hoffers "zookeeper-1", hcurrent⟩

end ManInTheBox.Host.Signaling
