import ManInTheBox.Host.Authenticate

/-! # The signaling sessions of the agent

`run` of `mitb-host` keeps one signaling session after the other: it connects, authenticates
and serves the room until the session ends, and then it either waits and connects again or
returns. What happens to a session comes from outside: a frame, the end of the socket, a
report, the request to shut down. The crates for WebRTC and JSON are outside the repository:
`WebRtc` and `Serde` list the calls into them.
-/

namespace ManInTheBox.Host.Signaling

open Library Server

/-! ## Messages and errors -/

inductive SignalingPayload
  | offer (sdp : String)
  | answer (sdp : String)
  deriving DecidableEq

/-- A message of the server as the agent reads it. -/
inductive ServerMessage
  | pakeRegistrationRequired
  | pakeRegistrationResponse (registrationResponse : String)
  | pakeCredentialCandidates (candidates : List PakeCredentialCandidate)
  | connected (clientId : String) (agents zookeepers : List String)
  | peerJoined (role : ClientRole) (clientId : String)
  | peerLeft (role : ClientRole) (clientId : String)
  | signal (peerId : String) (payload : SignalingPayload)
  | error (message : String)
  | pong
  deriving DecidableEq

/-- A `Pake` error is its text, or the message that it reports. -/
inductive AgentError
  | invalidServerAddr (text : String)
  | pake (message : String)
  | unexpected (message : ServerMessage)
  | webSocket (error : String)
  | json (error : String)
  | webRtc (error : String)
  deriving DecidableEq

def AgentError.isRetryable : AgentError → Bool
  | .webSocket _ => true
  | _ => false

inductive WsMessage
  | text (text : String)
  | binary (payload : Bytes)
  | ping (payload : Bytes)
  | pong (payload : Bytes)
  | close
  | frame
  deriving DecidableEq

/-- What `next` yields on a socket: nothing at the end of the stream. -/
abbrev Next := Option (Except String WsMessage)

/-- The calls into serde_json: the text of a message on the server, and on the agent the message in
a text and the payload in a JSON value. -/
structure Serde where
  toString : Server.ServerMessage → String
  fromStr : String → Except String ServerMessage
  payload : Value → Except String SignalingPayload

/-- The calls into webrtc; each new connection has a draw of its own. -/
structure WebRtc (Connection Channel : Type) where
  newPeerConnection : (draw : ℕ) → Except String Connection
  createDataChannel : Connection → Except String Channel
  createOffer : Connection → Except String String
  setLocalDescription : Connection → String → Except String Unit
  localDescription : Connection → Option String
  answer : (sdp : String) → Except String Unit
  setRemoteDescription : Connection → String → Except String Unit

variable {Connection Channel : Type}

/-! ## Messages of the server -/

structure AgentPeer (Connection Channel : Type) where
  connection : Connection
  dataChannel : Channel

/-- The peers, and the signals that wait for the writer of the socket. -/
structure ServerMessageContext (Connection Channel : Type) where
  signalTx : List (String × SignalingPayload)
  peers : Table String (AgentPeer Connection Channel)

namespace ServerMessageContext

def new : ServerMessageContext Connection Channel := ⟨[], ∅⟩

end ServerMessageContext

/-- A call whose error is that of the crate. -/
def orError {α : Type} (error : String → AgentError) : Except String α → Except AgentError α
  | .ok value => .ok value
  | .error message => .error (error message)

section Handlers

variable (webrtc : WebRtc Connection Channel)

def ensurePeer (draw : ℕ) (zookeeperId : String)
    (context : ServerMessageContext Connection Channel) :
    Except AgentError (ServerMessageContext Connection Channel) := do
  if (context.peers.lookup zookeeperId).isSome then return context
  let connection ← orError .webRtc (webrtc.newPeerConnection draw)
  let dataChannel ← orError .webRtc (webrtc.createDataChannel connection)
  let offer ← orError .webRtc (webrtc.createOffer connection)
  orError .webRtc (webrtc.setLocalDescription connection offer)
  match webrtc.localDescription connection with
  | none => throw (.invalidServerAddr "missing local description after offer")
  | some sdp =>
    return {
      signalTx := context.signalTx ++ [(zookeeperId, .offer sdp)]
      peers := context.peers.insert zookeeperId ⟨connection, dataChannel⟩ }

def handleSignal (peerId : String) (payload : SignalingPayload)
    (context : ServerMessageContext Connection Channel) :
    Except AgentError (ServerMessageContext Connection Channel) :=
  match context.peers.lookup peerId with
  | some peer =>
    match payload with
    | .answer sdp => do
      orError .webRtc (webrtc.answer sdp)
      orError .webRtc (webrtc.setRemoteDescription peer.connection sdp)
      return context
    | .offer _ => return context
  | none => return context

/-- `handle_server_message`. The audio and video state has no part in any of it. -/
def handleServerMessage (draws : ℕ → ℕ) (context : ServerMessageContext Connection Channel) :
    ServerMessage → Except AgentError (ServerMessageContext Connection Channel)
  | .connected _ _ zookeepers =>
    zookeepers.zipIdx.foldlM (fun context (id, i) => ensurePeer webrtc (draws i) id context) context
  | .peerJoined .zookeeper clientId => ensurePeer webrtc (draws 0) clientId context
  | .peerJoined .agent _ => return context
  | .peerLeft .zookeeper clientId => return { context with peers := context.peers.erase clientId }
  | .peerLeft .agent _ => return context
  | .signal peerId payload => handleSignal webrtc peerId payload context
  | .error _ | .pong => return context
  | .pakeRegistrationRequired | .pakeRegistrationResponse _ | .pakeCredentialCandidates _ =>
    return context

inductive SessionDirective
  | continue
  | break
  deriving DecidableEq

def handleWebsocketEvent (serde : Serde) (draws : ℕ → ℕ) (message : Next)
    (context : ServerMessageContext Connection Channel) :
    Except AgentError (SessionDirective × ServerMessageContext Connection Channel) :=
  match message with
  | some (.ok (.text text)) => do
    let serverMessage ← orError .json (serde.fromStr text)
    let context ← handleServerMessage webrtc draws context serverMessage
    return (.continue, context)
  | some (.ok .close) | none => return (.break, context)
  | some (.ok (.ping _)) | some (.ok (.pong _)) => return (.continue, context)
  | some (.ok (.binary _)) => return (.continue, context)
  | some (.ok .frame) => return (.continue, context)
  | some (.error error) => throw (.webSocket error)

end Handlers

/-! ## Authentication -/

section Authentication

variable (crates : Crates)

/-- `authenticate_websocket` up to its first send. -/
def authenticateStart (options : AgentOptions) (draws : ℕ → ℕ) :
    Except AgentError (ClientSession × ClientMessage) := do
  let client ← orError .pake (ClientSession.new options.secretCode)
  let (credentialRequest, client) ← orError .pake (client.startLogin crates.pake (draws 0))
  return (client, .pakeInit .agent (deriveRoomHandle crates.sha256 options.secretCode)
    (crates.encode credentialRequest) options.clientAlias)

/-- What a message of the handshake is answered with. -/
def authenticateMessage (draws : ℕ → ℕ) (client : ClientSession) :
    ServerMessage → Except AgentError (ClientSession × Option ClientMessage)
  | .pakeRegistrationRequired => do
    let (registrationRequest, client) ←
      orError .pake (client.startRegistration crates.pake (draws 0))
    return (client, some (.pakeRegistrationRequest (crates.encode registrationRequest)))
  | .pakeRegistrationResponse registrationResponse => do
    let registrationResponse ← orError .pake (crates.decode registrationResponse)
    let (registrationUpload, credentialRequest, client) ← orError .pake
      (client.finishRegistration crates.pake (draws 0) (draws 1) registrationResponse)
    return (client, some (.pakeRegistrationUpload (crates.encode registrationUpload)
      (crates.encode credentialRequest)))
  | .pakeCredentialCandidates candidates => do
    let (candidateId, credentialFinalization, client) ←
      orError .pake (Agent.selectLoginCandidate crates draws client none candidates)
    return (client, some (.pakeCredentialFinalization candidateId
      (crates.encode credentialFinalization)))
  | .error message => throw (.pake message)
  | .pong => return (client, none)
  | other => throw (.unexpected other)

/-- A message with a place in the handshake, as the agent reads it. -/
def handshakeMessage : Server.ServerMessage → Option ServerMessage
  | .pakeRegistrationRequired => some .pakeRegistrationRequired
  | .pakeRegistrationResponse registrationResponse =>
    some (.pakeRegistrationResponse registrationResponse)
  | .pakeCredentialCandidates candidates => some (.pakeCredentialCandidates candidates)
  | .error message => some (.error message)
  | .pong => some .pong
  | _ => none

/-- The agent of the handshake after a result of the session. -/
def agentProgress :
    Except AgentError (ClientSession × Option ClientMessage) → Option Agent.Progress
  | .ok (client, reply) => some (.waiting client, reply.toList)
  | .error (.pake error) => some (.failed (.pake error), [])
  | .error _ => none

variable {crates}

theorem agentProgress_orFail {α : Type} {result : Except String α}
    {answer : α → Except AgentError (ClientSession × Option ClientMessage)}
    {next : α → Agent.Progress}
    (h : ∀ value, agentProgress (answer value) = some (next value)) :
    agentProgress (orError .pake result >>= answer) = some (Agent.orFail result next) := by
  cases result with
  | ok value => exact h value
  | error error => rfl

/-- The session starts as the agent of the handshake does. -/
theorem agentProgress_start (options : AgentOptions) (draws : ℕ → ℕ) :
    agentProgress (do
        let (client, message) ← authenticateStart crates options draws
        return (client, some message)) =
      some (Agent.start crates options draws) := by
  rw [authenticateStart, bind_assoc, Agent.start]
  apply agentProgress_orFail
  intro client
  rw [bind_assoc]
  apply agentProgress_orFail
  intro login
  rfl

/-- The session answers a message of the handshake as the agent of the handshake does. -/
theorem agentProgress_message (draws : ℕ → ℕ) (client : ClientSession)
    {message : Server.ServerMessage} {message' : ServerMessage}
    (h : handshakeMessage message = some message') :
    agentProgress (authenticateMessage crates draws client message') =
      some (Agent.onMessage crates draws client message) := by
  cases message with
  | pakeRegistrationRequired =>
    obtain rfl := Option.some.inj h
    exact agentProgress_orFail fun _ => rfl
  | pakeRegistrationResponse registrationResponse =>
    obtain rfl := Option.some.inj h
    exact agentProgress_orFail fun _ => agentProgress_orFail fun _ => rfl
  | pakeCredentialCandidates candidates =>
    obtain rfl := Option.some.inj h
    exact agentProgress_orFail fun _ => rfl
  | error _ | pong =>
    obtain rfl := Option.some.inj h
    rfl
  | connected | peerJoined | peerLeft | signal => cases h

end Authentication

/-! ## One session -/

/-- What is being sent during authentication. -/
inductive Sent
  | message (message : ClientMessage)
  | pong (payload : Bytes)

inductive Session (Connection Channel : Type)
  | connecting
  | sending (client : ClientSession) (sent : Sent)
  | authenticating (client : ClientSession)
  | serving (context : ServerMessageContext Connection Channel)

inductive ReportEvent
  | message
  | lagged
  | closed
  deriving DecidableEq

/-- What happens to a session. The last one is the request to shut down, seen at the head of the
loop. -/
inductive Happening
  | connect (result : Except String Unit) (draws : ℕ → ℕ)
  | sent (result : Except String Unit)
  | receive (message : Next) (draws : ℕ → ℕ)
  | report (report : ReportEvent)
  | tick
  | shutdown

/-- A session goes on or ends. -/
abbrev Progress (Connection Channel : Type) := Session Connection Channel ⊕ Except AgentError Unit

/-- A computation that fails ends the session. -/
def orEnd {α : Type} (next : α → Session Connection Channel) :
    Except AgentError α → Progress Connection Channel
  | .ok value => .inl (next value)
  | .error error => .inr (.error error)

/-- The outside of the agent. -/
structure Outside (Connection Channel : Type) where
  crates : Crates
  serde : Serde
  webrtc : WebRtc Connection Channel

variable (outside : Outside Connection Channel) (options : AgentOptions)

/-- A text frame during authentication. -/
def authenticateText (draws : ℕ → ℕ) (client : ClientSession) (text : String) :
    Progress Connection Channel :=
  match outside.serde.fromStr text with
  | .error error => .inr (.error (.json error))
  | .ok (.connected clientId agents zookeepers) =>
    orEnd .serving
      (handleServerMessage outside.webrtc draws .new (.connected clientId agents zookeepers))
  | .ok message =>
    orEnd (fun (client, reply) =>
        match reply with
        | some reply => .sending client (.message reply)
        | none => .authenticating client)
      (authenticateMessage outside.crates draws client message)

/-- A frame during authentication, or the end of the stream. -/
def authenticateFrame (draws : ℕ → ℕ) (client : ClientSession) (message : Next) :
    Progress Connection Channel :=
  match message with
  | some (.ok (.text text)) => authenticateText outside draws client text
  | some (.ok (.ping payload)) => .inl (.sending client (.pong payload))
  | some (.ok (.pong _)) => .inl (.authenticating client)
  | some (.ok .close) | some (.ok .frame) =>
    .inr (.error (.pake "signaling socket closed during authentication"))
  | some (.ok (.binary _)) =>
    .inr (.error (.pake "unexpected binary websocket frame during authentication"))
  | some (.error error) => .inr (.error (.webSocket error))
  | none => .inr (.error (.pake "signaling socket closed during authentication"))

/-- The session after an event of its loop. -/
def afterEvent : Except AgentError (SessionDirective × ServerMessageContext Connection Channel) →
    Progress Connection Channel
  | .ok (.continue, context) => .inl (.serving context)
  | .ok (.break, _) => .inr (.ok ())
  | .error error => .inr (.error error)

/-- `run_signaling_session`, if what happens can happen where the session is. -/
def Session.next : Session Connection Channel → Happening → Option (Progress Connection Channel)
  | .connecting, .connect (.error error) _ => some (.inr (.error (.webSocket error)))
  | .connecting, .connect (.ok ()) draws =>
    some (orEnd (fun (client, message) => .sending client (.message message))
      (authenticateStart outside.crates options draws))
  | .sending _ _, .sent (.error error) => some (.inr (.error (.webSocket error)))
  | .sending client _, .sent (.ok ()) => some (.inl (.authenticating client))
  | .authenticating client, .receive message draws =>
    some (authenticateFrame outside draws client message)
  | .serving context, .receive message draws =>
    some (afterEvent
      (handleWebsocketEvent outside.webrtc outside.serde draws message context))
  | .serving _, .report .closed => some (.inr (.ok ()))
  | .serving context, .report _ => some (.inl (.serving context))
  | .serving context, .tick => some (.inl (.serving context))
  | .serving _, .shutdown => some (.inr (.ok ()))
  | _, _ => none

/-! ## One session after the other -/

/-- In seconds. -/
def RECONNECT_DELAY_INITIAL : ℕ := 1

def RECONNECT_DELAY_MAX : ℕ := 30

def nextReconnectDelay (delay : ℕ) : ℕ := min (delay * 2) RECONNECT_DELAY_MAX

/-- `run`, in a session, in its sleep or after it has returned. -/
inductive RunState (Connection Channel : Type)
  | attempting (delay : ℕ) (session : Session Connection Channel)
  | sleeping (delay : ℕ)
  | returned (result : Except AgentError Unit)

namespace RunState

/-- The head of the loop. -/
def head (shutdown : Bool) (delay : ℕ) : RunState Connection Channel :=
  if shutdown then .returned (.ok ()) else .attempting delay .connecting

/-- What becomes of the result of a session. -/
def afterSession (shutdown : Bool) (delay : ℕ) : Except AgentError Unit → RunState Connection Channel
  | .ok () => if shutdown then .returned (.ok ()) else .sleeping RECONNECT_DELAY_INITIAL
  | .error error =>
    if error.isRetryable && !shutdown then .sleeping delay else .returned (.error error)

end RunState

/-- The session moves, or the sleep is over. -/
inductive RunEvent
  | happen (happening : Happening)
  | wake

/-- An event of `run`, and whether a shutdown is requested by then. -/
structure RunLabel where
  shutdown : Bool
  event : RunEvent

/-- The run after a move of its session. -/
def afterProgress (shutdown : Bool) (delay : ℕ) :
    Progress Connection Channel → RunState Connection Channel
  | .inl session => .attempting delay session
  | .inr result => .afterSession shutdown delay result

def runStep (run : RunState Connection Channel) (label : RunLabel) :
    Option (RunState Connection Channel × Unit) :=
  match run, label.event with
  | .attempting delay session, .happen happening =>
    (session.next outside options happening).map fun progress =>
      (afterProgress label.shutdown delay progress, ())
  | .sleeping delay, .wake => some (.head label.shutdown (nextReconnectDelay delay), ())
  | _, _ => none

section Steps

variable {outside options} {shutdown : Bool} {delay : ℕ}

theorem runStep_happen {run run' : RunState Connection Channel} {happening : Happening}
    {output : Unit}
    (taken : runStep outside options run ⟨shutdown, .happen happening⟩ = some (run', output)) :
    ∃ delay session progress, run = .attempting delay session ∧
      session.next outside options happening = some progress ∧
      run' = afterProgress shutdown delay progress := by
  cases run with
  | attempting delay session =>
    obtain ⟨progress, hnext, hprogress⟩ := Option.map_eq_some_iff.mp taken
    exact ⟨delay, session, progress, rfl, hnext, (congrArg Prod.fst hprogress).symm⟩
  | sleeping | returned => cases taken

theorem runStep_wake {run run' : RunState Connection Channel} {output : Unit}
    (taken : runStep outside options run ⟨shutdown, .wake⟩ = some (run', output)) :
    ∃ delay, run = .sleeping delay ∧ run' = .head shutdown (nextReconnectDelay delay) := by
  cases run with
  | sleeping delay => exact ⟨delay, rfl, (congrArg Prod.fst (Option.some.inj taken)).symm⟩
  | attempting | returned => cases taken

theorem runStep_serving {message : Next} {draws : ℕ → ℕ}
    {context : ServerMessageContext Connection Channel} :
    runStep outside options (.attempting delay (.serving context))
        ⟨shutdown, .happen (.receive message draws)⟩ =
      some (afterProgress shutdown delay (afterEvent
        (handleWebsocketEvent outside.webrtc outside.serde draws message context)), ()) :=
  rfl

end Steps

/-- The runs of an agent whose shutdown flag is `shutdown` when it is spawned. -/
abbrev AgentRun (shutdown : Bool) :=
  Run (runStep outside options) (.head shutdown RECONNECT_DELAY_INITIAL)

end ManInTheBox.Host.Signaling
