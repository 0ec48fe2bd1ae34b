import ManInTheBox.Host.Relay
import ManInTheBox.Library.Fallible
import ManInTheBox.Library.View

/-! # The peers of the agent

The agent keeps a WebRTC connection to each zookeeper of its room. It learns of them from the
frames of the server only, and offers a connection to each of them once.
-/

namespace ManInTheBox.Host.Signaling

open Library Server

variable {Connection Channel : Type}

/-! ## The table of peers -/

/-- The signals for one peer. -/
def signalsTo (id : String) (signals : List (String × SignalingPayload)) :
    List (String × SignalingPayload) :=
  signals.filter (·.1 = id)

/-- The last signal to every peer offers the connection that is kept for it. -/
def Current (webrtc : WebRtc Connection Channel)
    (context : ServerMessageContext Connection Channel) : Prop :=
  ∀ id peer, context.peers.lookup id = some peer →
    ∃ sdp, webrtc.localDescription peer.connection = some sdp ∧
      (signalsTo id context.signalTx).getLast? = some (id, .offer sdp)

section Table

variable {webrtc : WebRtc Connection Channel} {draw : ℕ}
  {context context' : ServerMessageContext Connection Channel} {id other : String}

theorem orError_eq_ok {α : Type} {error : String → AgentError} {result : Except String α}
    {value : α} (h : orError error result = .ok value) : result = .ok value := by
  cases result with
  | ok value' =>
    cases h
    rfl
  | error message => cases h

/-- What `ensure_peer` does when it does not fail. -/
theorem ensurePeer_cases (h : ensurePeer webrtc draw id context = .ok context') :
    (context.peers.lookup id).isSome = true ∧ context' = context ∨
    context.peers.lookup id = none ∧ ∃ peer sdp,
      webrtc.localDescription peer.connection = some sdp ∧
      context' = ⟨context.signalTx ++ [(id, .offer sdp)], context.peers.insert id peer⟩ := by
  rw [ensurePeer] at h
  split_ifs at h with hknown
  · cases h
    exact .inl ⟨hknown, rfl⟩
  · right
    refine ⟨by simpa using hknown, ?_⟩
    obtain ⟨connection, -, h⟩ := bind_eq_ok.mp h
    obtain ⟨dataChannel, -, h⟩ := bind_eq_ok.mp h
    obtain ⟨offer, -, h⟩ := bind_eq_ok.mp h
    obtain ⟨-, -, h⟩ := bind_eq_ok.mp h
    split at h
    · cases h
    · rename_i sdp hdescription
      cases h
      exact ⟨⟨connection, dataChannel⟩, sdp, hdescription, rfl⟩

theorem signalsTo_append (signals rest : List (String × SignalingPayload)) :
    signalsTo id (signals ++ rest) = signalsTo id signals ++ signalsTo id rest :=
  List.filter_append ..

/-- Of the ids, those that were no peers are peers now and have been sent one offer each. -/
structure Meets (webrtc : WebRtc Connection Channel) (ids : List String)
    (context context' : ServerMessageContext Connection Channel) : Prop where
  peers : ∀ id, (context'.peers.lookup id).isSome = true ↔
    (context.peers.lookup id).isSome = true ∨ id ∈ ids
  offers : ∀ id, (signalsTo id context'.signalTx).length =
    (signalsTo id context.signalTx).length +
      if context.peers.lookup id = none ∧ id ∈ ids then 1 else 0
  current : Current webrtc context → Current webrtc context'

theorem Meets.refl (context : ServerMessageContext Connection Channel) :
    Meets webrtc [] context context := by
  constructor <;> simp

theorem Meets.trans {context'' : ServerMessageContext Connection Channel} {ids ids' : List String}
    (h : Meets webrtc ids context context') (h' : Meets webrtc ids' context' context'') :
    Meets webrtc (ids ++ ids') context context'' := by
  refine ⟨fun id => ?_, fun id => ?_, h'.current ∘ h.current⟩
  · rw [h'.peers, h.peers, List.mem_append, or_assoc]
  · have hpeers := h.peers id
    simp only [h'.offers, h.offers, List.mem_append]
    cases hbefore : context.peers.lookup id with
    | some peer =>
      have hafter : context'.peers.lookup id ≠ none := by
        rw [← Option.isSome_iff_ne_none, hpeers, hbefore]
        simp
      simp [hafter]
    | none =>
      by_cases hmem : id ∈ ids
      · have hafter : context'.peers.lookup id ≠ none := by
          rw [← Option.isSome_iff_ne_none, hpeers]
          exact .inr hmem
        simp [hafter, hmem]
      · have hafter : context'.peers.lookup id = none := by
          rw [← Option.not_isSome_iff_eq_none, hpeers, hbefore]
          simp [hmem]
        simp [hafter, hmem]

theorem ensurePeer_meets (h : ensurePeer webrtc draw id context = .ok context') :
    Meets webrtc [id] context context' := by
  rcases ensurePeer_cases h with ⟨hknown, rfl⟩ | ⟨hnone, peer, sdp, hdescription, rfl⟩
  · refine ⟨fun other => ?_, fun other => ?_, fun hcurrent => hcurrent⟩
    · simp only [List.mem_singleton, iff_self_or]
      rintro rfl
      exact hknown
    · rw [if_neg, add_zero]
      rintro ⟨hnone, hmem⟩
      obtain rfl := List.mem_singleton.mp hmem
      rw [hnone] at hknown
      cases hknown
  · have hnew : signalsTo id [(id, SignalingPayload.offer sdp)] = [(id, .offer sdp)] := by
      simp [signalsTo]
    have hold {other : String} (hne : other ≠ id) :
        signalsTo other [(id, SignalingPayload.offer sdp)] = [] := by
      simp [signalsTo, Ne.symm hne]
    refine ⟨fun other => ?_, fun other => ?_, fun hcurrent other peer' hpeer => ?_⟩
    all_goals by_cases hother : other = id
    · subst hother
      simp
    · simp [hother, AList.lookup_insert_ne hother]
    · rw [signalsTo_append, hother, hnew]
      simp [hnone]
    · rw [signalsTo_append, hold hother]
      simp [hother]
    · subst hother
      rw [AList.lookup_insert] at hpeer
      cases hpeer
      exact ⟨sdp, hdescription, by rw [signalsTo_append, hnew, List.getLast?_concat]⟩
    · rw [AList.lookup_insert_ne hother] at hpeer
      obtain ⟨sdp', hdescription', hlast⟩ := hcurrent other peer' hpeer
      exact ⟨sdp', hdescription', by rw [signalsTo_append, hold hother, List.append_nil, hlast]⟩

theorem handleConnected_meets {draws : ℕ → ℕ} {ids : List String} {start : ℕ}
    (h : (ids.zipIdx start).foldlM (fun context (id, i) => ensurePeer webrtc (draws i) id context)
      context = .ok context') : Meets webrtc ids context context' := by
  induction ids generalizing context start with
  | nil =>
    cases h
    exact .refl _
  | cons id ids ih =>
    rw [List.zipIdx_cons, List.foldlM_cons] at h
    obtain ⟨between, hfirst, hrest⟩ := bind_eq_ok.mp h
    exact (ensurePeer_meets hfirst).trans (ih hrest)

end Table

/-! ## What a session has been told -/

/-- What a message tells the agent about the zookeepers of its room. -/
def ServerMessage.notice : ServerMessage → Notice String
  | .connected _ _ zookeepers => .reset zookeepers
  | .peerJoined .zookeeper id => .add id
  | .peerLeft .zookeeper id => .remove id
  | _ => .ignore

def ServerMessage.isConnected : ServerMessage → Bool
  | .connected _ _ _ => true
  | _ => false

/-- The peers are the zookeepers that the messages tell of, each has been sent one offer whenever it
came into view, and the last one is that of its connection. -/
structure Tracked (webrtc : WebRtc Connection Channel) (messages : List ServerMessage)
    (context : ServerMessageContext Connection Channel) : Prop where
  peers : ∀ id, (context.peers.lookup id).isSome = true ↔
    id ∈ viewOf (messages.map ServerMessage.notice)
  offers : ∀ id, (signalsTo id context.signalTx).length =
    appearances id (messages.map ServerMessage.notice)
  current : Current webrtc context

section Messages

variable {webrtc : WebRtc Connection Channel} {draws : ℕ → ℕ} {messages : List ServerMessage}
  {message : ServerMessage} {context context' : ServerMessageContext Connection Channel}

theorem quiet_view (h : ∀ message ∈ messages, message.notice = .ignore) :
    viewOf (messages.map ServerMessage.notice) = [] ∧
      ∀ id, appearances id (messages.map ServerMessage.notice) = 0 := by
  induction messages using List.reverseRecOn with
  | nil => exact ⟨rfl, fun _ => rfl⟩
  | append_singleton messages message ih =>
    obtain ⟨hview, hnone⟩ := ih fun m hm => h m (List.mem_append_left _ hm)
    have hignore := h message List.mem_concat_self
    rw [List.map_append, List.map_singleton, viewOf_concat, hignore]
    refine ⟨hview, fun id => ?_⟩
    rw [appearances_concat, hnone, hview, Notice.appears]
    simp [Notice.apply]

theorem Tracked.of_connected (hquiet : ∀ message ∈ messages, message.notice = .ignore)
    {clientId : String} {agents zookeepers : List String}
    (h : handleServerMessage webrtc draws .new (.connected clientId agents zookeepers) =
      .ok context) : Tracked webrtc (messages ++ [.connected clientId agents zookeepers]) context := by
  have hmeets : Meets webrtc zookeepers .new context := handleConnected_meets h
  obtain ⟨hview, hnone⟩ := quiet_view hquiet
  refine ⟨fun id => ?_, fun id => ?_, hmeets.current ?_⟩
  · rw [hmeets.peers, List.map_append, List.map_singleton, ServerMessage.notice, viewOf_reset]
    simp [ServerMessageContext.new]
  · rw [hmeets.offers, List.map_append, List.map_singleton, appearances_concat, hnone, hview]
    simp [ServerMessageContext.new, signalsTo, Notice.appears, Notice.apply, ServerMessage.notice]
  · intro id peer hpeer
    simp [ServerMessageContext.new] at hpeer

theorem Tracked.ignore (h : Tracked webrtc messages context) (hignore : message.notice = .ignore) :
    Tracked webrtc (messages ++ [message]) context := by
  refine ⟨fun id => ?_, fun id => ?_, h.current⟩
  · rw [h.peers, List.map_append, List.map_singleton, hignore, viewOf_concat, Notice.apply]
  · rw [h.offers, List.map_append, List.map_singleton, hignore, appearances_concat]
    simp [Notice.appears, Notice.apply]

theorem Tracked.joined (h : Tracked webrtc messages context) {id : String}
    (hmeets : Meets webrtc [id] context context') :
    Tracked webrtc (messages ++ [.peerJoined .zookeeper id]) context' := by
  refine ⟨fun other => ?_, fun other => ?_, hmeets.current h.current⟩
  · rw [hmeets.peers, h.peers, List.map_append, List.map_singleton, ServerMessage.notice,
      mem_viewOf_add, List.mem_singleton, or_comm]
  · have hview := h.peers other
    rw [hmeets.offers, h.offers, List.map_append, List.map_singleton, appearances_concat,
      Notice.appears, ServerMessage.notice, Notice.apply]
    simp only [List.mem_insert_iff, ← hview, List.mem_singleton, Nat.add_left_cancel_iff]
    cases context.peers.lookup other <;> simp

theorem Tracked.left (h : Tracked webrtc messages context) (id : String) :
    Tracked webrtc (messages ++ [.peerLeft .zookeeper id])
      { context with peers := context.peers.erase id } := by
  refine ⟨fun other => ?_, fun other => ?_, fun other peer hpeer => ?_⟩
  · rw [List.map_append, List.map_singleton, ServerMessage.notice, mem_viewOf_remove, ← h.peers]
    by_cases hother : other = id
    · subst hother
      simp
    · simp [hother, AList.lookup_erase_ne hother]
  · rw [h.offers, List.map_append, List.map_singleton, appearances_concat, Notice.appears,
      ServerMessage.notice, Notice.apply, if_neg, add_zero]
    rintro ⟨hnot, hmem⟩
    exact hnot (List.mem_filter.mp hmem).1
  · by_cases hother : other = id
    · subst hother
      simp at hpeer
    · rw [AList.lookup_erase_ne hother] at hpeer
      exact h.current other peer hpeer

/-- One message more, other than a second `Connected`. -/
theorem Tracked.handleServerMessage (h : Tracked webrtc messages context)
    (hok : handleServerMessage webrtc draws context message = .ok context')
    (hplain : message.isConnected = false) : Tracked webrtc (messages ++ [message]) context' := by
  cases message with
  | connected => cases hplain
  | peerJoined role id =>
    cases role with
    | zookeeper => exact h.joined (ensurePeer_meets hok)
    | agent =>
      cases hok
      exact h.ignore rfl
  | peerLeft role id =>
    cases role with
    | zookeeper =>
      cases hok
      exact h.left id
    | agent =>
      cases hok
      exact h.ignore rfl
  | signal peerId payload =>
    have hsame : context' = context := by
      change handleSignal webrtc peerId payload context = .ok context' at hok
      rw [handleSignal] at hok
      split at hok
      · split at hok
        · obtain ⟨-, -, hok⟩ := bind_eq_ok.mp hok
          obtain ⟨-, -, hok⟩ := bind_eq_ok.mp hok
          cases hok
          rfl
        · cases hok
          rfl
      · cases hok
        rfl
    rw [hsame]
    exact h.ignore rfl
  | _ =>
    cases hok
    exact h.ignore rfl

end Messages

/-! ## A session that goes on -/

/-- The message in a text frame. -/
def Happening.message (serde : Serde) : Happening → Option ServerMessage
  | .receive (some (.ok (.text text))) _ => (serde.fromStr text).toOption
  | _ => none

section Sessions

variable (outside : Outside Connection Channel) (options : AgentOptions)

/-- A move of a session that does not end it. -/
def Session.step (session : Session Connection Channel) (happening : Happening) :
    Option (Session Connection Channel × Unit) :=
  match session.next outside options happening with
  | some (.inl session) => some (session, ())
  | _ => none

abbrev SessionTransition (Connection Channel : Type) :=
  Transition (Session Connection Channel) Happening Unit

abbrev OpenSession := Run (Session.step outside options) Session.connecting

/-- The messages that the agent has read in a session. -/
def heard (serde : Serde) (history : List (SessionTransition Connection Channel)) :
    List ServerMessage :=
  history.filterMap fun taken => taken.label.message serde

/-- What a session knows of the messages it has read, if it was told once that it is connected. -/
def Knows (webrtc : WebRtc Connection Channel) (messages : List ServerMessage) :
    Session Connection Channel → Prop
  | .serving context => messages.any ServerMessage.isConnected = true ∧
      (messages.countP ServerMessage.isConnected ≤ 1 → Tracked webrtc messages context)
  | _ => ∀ message ∈ messages, message.notice = .ignore ∧ message.isConnected = false

variable {outside options} {session session' : Session Connection Channel} {happening : Happening}
  {messages : List ServerMessage} {u : Unit}

theorem Session.step_eq_some (taken : session.step outside options happening = some (session', u)) :
    session.next outside options happening = some (.inl session') := by
  rw [Session.step] at taken
  split at taken
  · rename_i hnext
    rw [hnext, (Prod.mk.inj (Option.some.inj taken)).1]
  · cases taken

theorem orEnd_eq_inl {α : Type} {next : α → Session Connection Channel}
    {result : Except AgentError α} (h : orEnd next result = .inl session) :
    ∃ value, result = .ok value ∧ session = next value := by
  cases result with
  | ok value => exact ⟨value, rfl, (Sum.inl.inj h).symm⟩
  | error error => cases h

theorem afterEvent_eq_inl {event : Except AgentError (SessionDirective × _)}
    (h : afterEvent event = .inl session) :
    ∃ context, event = .ok (.continue, context) ∧ session = .serving context := by
  match event with
  | .ok (.continue, context) => exact ⟨context, rfl, (Sum.inl.inj h).symm⟩
  | .ok (.break, _) | .error _ => cases h

/-- A frame during the handshake is part of it, or the `Connected` that ends it. -/
theorem Knows.authenticateText {text : String} {draws : ℕ → ℕ} {client : ClientSession}
    (h : Knows outside.webrtc messages (.authenticating client : Session Connection Channel))
    (taken : authenticateText outside draws client text = .inl session') :
    Knows outside.webrtc
      (messages ++ ((outside.serde.fromStr text).toOption).toList) session' := by
  rw [Signaling.authenticateText] at taken
  split at taken
  · cases taken
  · rename_i clientId agents zookeepers hread
    obtain ⟨context, hok, rfl⟩ := orEnd_eq_inl taken
    rw [hread]
    refine ⟨by simp [Except.toOption, ServerMessage.isConnected], fun _ => ?_⟩
    exact Tracked.of_connected (fun message hmem => (h message hmem).1) hok
  · rename_i message hnot hread
    obtain ⟨⟨client', reply⟩, hok, rfl⟩ := orEnd_eq_inl taken
    rw [hread]
    have hmessage : message.notice = .ignore ∧ message.isConnected = false := by
      cases message with
      | connected clientId agents zookeepers => exact (hnot _ _ _ rfl).elim
      | peerJoined | peerLeft => cases hok
      | _ => exact ⟨rfl, rfl⟩
    have hall : ∀ m ∈ messages ++ [message], m.notice = .ignore ∧ m.isConnected = false := by
      intro m hm
      rcases List.mem_append.mp hm with hm | hm
      · exact h m hm
      · rw [List.mem_singleton.mp hm]
        exact hmessage
    cases reply <;> exact hall

theorem Knows.serving {message : Next} {draws : ℕ → ℕ}
    {context : ServerMessageContext Connection Channel}
    (h : Knows outside.webrtc messages (.serving context))
    (taken : afterEvent (handleWebsocketEvent outside.webrtc outside.serde draws message context) =
      .inl session') :
    Knows outside.webrtc
      (messages ++ ((Happening.receive message draws).message outside.serde).toList) session' := by
  obtain ⟨context', hevent, rfl⟩ := afterEvent_eq_inl taken
  have hplain (hnone : (Happening.receive message draws).message outside.serde = none)
      (hsame : context' = context) : Knows outside.webrtc
        (messages ++ ((Happening.receive message draws).message outside.serde).toList)
        (.serving context') := by
    rw [hnone, hsame, Option.toList_none, List.append_nil]
    exact h
  match message with
  | some (.ok (.text text)) =>
    obtain ⟨read, hread, hevent⟩ := bind_eq_ok.mp hevent
    obtain ⟨context'', hok, hevent⟩ := bind_eq_ok.mp hevent
    cases hevent
    obtain ⟨hsome, htracked⟩ := h
    rw [Happening.message, orError_eq_ok hread]
    refine ⟨by simp [hsome], fun hcount => ?_⟩
    rw [Except.toOption, Option.toList_some, List.countP_append] at hcount
    have hpos : 0 < messages.countP ServerMessage.isConnected := by
      rw [List.countP_pos_iff]
      exact List.any_eq_true.mp hsome
    refine (htracked (by omega)).handleServerMessage hok ?_
    by_contra htrue
    rw [List.countP_singleton, if_pos (by simpa using htrue)] at hcount
    omega
  | some (.ok (.ping _)) | some (.ok (.pong _)) | some (.ok (.binary _)) | some (.ok .frame) =>
    cases hevent
    exact hplain rfl rfl
  | some (.ok .close) | none | some (.error _) => cases hevent

theorem Knows.step (h : Knows outside.webrtc messages session)
    (taken : session.step outside options happening = some (session', u)) :
    Knows outside.webrtc (messages ++ (happening.message outside.serde).toList) session' := by
  have hnext := Session.step_eq_some taken
  cases session with
  | connecting =>
    cases happening with
    | connect result draws =>
      cases result with
      | error error => cases hnext
      | ok =>
        obtain ⟨⟨client, message⟩, -, rfl⟩ := orEnd_eq_inl (Option.some.inj hnext)
        simp only [Happening.message, Option.toList_none, List.append_nil]
        exact h
    | _ => cases hnext
  | sending client sent =>
    cases happening with
    | sent result =>
      cases result with
      | error error => cases hnext
      | ok =>
        cases hnext
        simp only [Happening.message, Option.toList_none, List.append_nil]
        exact h
    | _ => cases hnext
  | authenticating client =>
    cases happening with
    | receive message draws =>
      have hquiet (hnone : (Happening.receive message draws).message outside.serde = none) :
          Knows outside.webrtc (messages ++
            ((Happening.receive message draws).message outside.serde).toList)
            (.authenticating client : Session Connection Channel) := by
        rw [hnone, Option.toList_none, List.append_nil]
        exact h
      match message with
      | some (.ok (.text text)) => exact h.authenticateText (Option.some.inj hnext)
      | some (.ok (.ping _)) =>
        cases hnext
        exact hquiet rfl
      | some (.ok (.pong _)) =>
        cases hnext
        exact hquiet rfl
      | some (.ok .close) | some (.ok .frame) | some (.ok (.binary _)) | some (.error _) | none =>
        cases hnext
    | _ => cases hnext
  | serving context =>
    cases happening with
    | receive message draws => exact h.serving (Option.some.inj hnext)
    | report report =>
      cases report with
      | closed => cases hnext
      | message | lagged =>
        cases hnext
        simpa [Happening.message] using h
    | tick =>
      cases hnext
      simpa [Happening.message] using h
    | _ => cases hnext

theorem knows_of_run {history : List (SessionTransition Connection Channel)}
    (run : OpenSession outside options history session) :
    Knows outside.webrtc (heard outside.serde history) session := by
  refine run.historyInvariant
    (fun history session => Knows outside.webrtc (heard outside.serde history) session) ?_ ?_
  · intro message hmem
    cases hmem
  · intro history session happening session' u _ h taken
    have hgrown : heard outside.serde (history ++ [⟨session, happening, u, session'⟩]) =
        heard outside.serde history ++ (happening.message outside.serde).toList := by
      rw [heard, List.filterMap_append, heard]
      cases hmessage : happening.message outside.serde <;> simp [hmessage]
    rw [hgrown]
    exact h.step taken

end Sessions

end ManInTheBox.Host.Signaling
