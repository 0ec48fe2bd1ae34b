import ManInTheBox.Host.Authenticate
import ManInTheBox.Server.Socket

/-! # Agents at one server

Any number of agents, each connected to the server by a socket that loses and
reorders nothing. A step is one step of an agent or one step of the task that
serves its connection. The agents share a secret code; what the crates have to
do for a handshake to succeed is the hypothesis `PakeCorrect`.
-/

namespace ManInTheBox.Host

open Library Server

/-- The server, the agents, and what is under way on the sockets in both directions. -/
structure Meeting where
  system : System
  agent : ConnId → Agent
  toServer : ConnId → List ClientMessage
  toAgent : ConnId → List SocketFrame

/-- A step of an agent, or of the task of its connection. -/
inductive Act
  | start (draws : ℕ → ℕ)
  | read (draws : ℕ → ℕ)
  | accept (ip : IpAddr)
  | operate (rng : ℕ) (token : String)
  | receive (rng : ℕ) (token : String)
  | register
  | enqueue
  | take

structure MeetingLabel where
  now : ℕ
  connection : ConnId
  act : Act

/-- The move of the task, and what it leaves unread. Its source of tokens does not fail. -/
def Act.serverMove : Act → List ClientMessage → Option (Move × List ClientMessage)
  | .accept ip, inbox => some (.accept ip, inbox)
  | .operate rng token, inbox => some (.operate rng (.ok token), inbox)
  | .receive rng token, message :: inbox =>
    some (.receive (.message message) rng (.ok token), inbox)
  | .register, inbox => some (.register, inbox)
  | .enqueue, inbox => some (.enqueue, inbox)
  | .take, inbox => some (.take, inbox)
  | _, _ => none

/-- What an agent does: it starts, reads the next frame, or finds its socket closed. -/
def Agent.act (crates : Crates) (options : AgentOptions) (agent : Agent)
    (inbox : List SocketFrame) (closed : Bool) : Act → Option (Agent.Progress × List SocketFrame)
  | .start draws =>
    match agent with
    | .ready => some (Agent.start crates options draws, inbox)
    | _ => none
  | .read draws =>
    match agent, inbox with
    | .waiting client, frame :: rest => some (Agent.onFrame crates draws client frame, rest)
    | .waiting _, [] => if closed then some (Agent.onClose, []) else none
    | _, _ => none
  | _ => none

section

variable (app : AppState) (crates : Crates) (options : ConnId → AgentOptions)

/-- The agent of the connection has moved. -/
def Meeting.afterAgent (m : Meeting) (c : ConnId) (progress : Agent.Progress)
    (inbox : List SocketFrame) : Meeting where
  system := m.system
  agent := Function.update m.agent c progress.1
  toServer := Function.update m.toServer c (m.toServer c ++ progress.2)
  toAgent := Function.update m.toAgent c inbox

/-- The task of the connection has moved. -/
def Meeting.afterServer (m : Meeting) (c : ConnId) (system : System) (inbox : List ClientMessage)
    (frames : List SocketFrame) : Meeting where
  system := system
  agent := m.agent
  toServer := Function.update m.toServer c inbox
  toAgent := Function.update m.toAgent c (m.toAgent c ++ frames)

def meetingStep (m : Meeting) (label : MeetingLabel) : Option (Meeting × Shown) :=
  let c := label.connection
  match (m.agent c).act crates (options c) (m.toAgent c) (m.system.task c).isClosed label.act with
  | some (progress, inbox) => some (m.afterAgent c progress inbox, ⟨none, []⟩)
  | none =>
    match label.act.serverMove (m.toServer c) with
    | none => none
    | some (move, inbox) =>
      (app.socketStep m.system ⟨label.now, c, move⟩).map fun r =>
        (m.afterServer c r.1 inbox r.2.frames, r.2)

end

abbrev MeetingTransition := Transition Meeting MeetingLabel Shown

/-- The agents before they start, at a server in a given state. -/
def Meeting.opening (inner : StateInner) (clock : ℕ) : Meeting where
  system := ⟨clock, inner, fun _ => .idle, fun _ => .empty⟩
  agent _ := .ready
  toServer _ := []
  toAgent _ := []

/-- A step of the meeting is one of its agent or one of its task. -/
inductive Moved (app : AppState) (crates : Crates) (options : ConnId → AgentOptions) (m : Meeting)
    (label : MeetingLabel) : Meeting → Shown → Prop
  | agent {progress inbox}
      (act : (m.agent label.connection).act crates (options label.connection)
        (m.toAgent label.connection) (m.system.task label.connection).isClosed label.act =
          some (progress, inbox)) :
      Moved app crates options m label (m.afterAgent label.connection progress inbox) ⟨none, []⟩
  | server {move inbox system shown}
      (move_eq : label.act.serverMove (m.toServer label.connection) = some (move, inbox))
      (taken : app.socketStep m.system ⟨label.now, label.connection, move⟩ =
        some (system, shown)) :
      Moved app crates options m label
        (m.afterServer label.connection system inbox shown.frames) shown

theorem meetingStep_eq_some {app : AppState} {crates : Crates} {options : ConnId → AgentOptions}
    {m m' : Meeting} {label : MeetingLabel} {shown : Shown}
    (h : meetingStep app crates options m label = some (m', shown)) :
    Moved app crates options m label m' shown := by
  simp only [meetingStep] at h
  split at h
  · rename_i progress inbox hact
    cases h
    exact .agent hact
  · split at h
    · cases h
    · rename_i move inbox hmove
      obtain ⟨⟨system, shown'⟩, htaken, heq⟩ := Option.map_eq_some_iff.mp h
      cases heq
      exact .server hmove htaken

/-! ## The PAKE -/

/-- The file is what a server keeps of a registration with the secret code. -/
def RegisteredFor (crates : Crates) (pake : ServerPake) (secretCode identifier file : Bytes) :
    Prop :=
  ∃ rng request state response rng' upload,
    crates.pake.registrationStart rng secretCode = .ok (request, state) ∧
    pake.registrationResponse identifier request = .ok response ∧
    crates.pake.registrationFinish rng' state secretCode response = .ok upload ∧
    pake.finishRegistration upload = .ok file

/-- Base64 round trips, a registration between honest parties succeeds, and so does a login with
the same secret code against the file of a registration. -/
structure PakeCorrect (crates : Crates) (pake : ServerPake) (secretCode : Bytes) : Prop where
  decode_server : ∀ bytes, pake.decode (crates.encode bytes) = .ok bytes
  decode_agent : ∀ bytes, crates.decode (pake.encode bytes) = .ok bytes
  login_starts : ∀ rng, ∃ request state,
    crates.pake.loginStart rng secretCode = .ok (request, state)
  registration_starts : ∀ rng, ∃ request state,
    crates.pake.registrationStart rng secretCode = .ok (request, state)
  responds : ∀ rng request state identifier,
    crates.pake.registrationStart rng secretCode = .ok (request, state) →
      ∃ response, pake.registrationResponse identifier request = .ok response
  registers : ∀ rng request state identifier response rng',
    crates.pake.registrationStart rng secretCode = .ok (request, state) →
      pake.registrationResponse identifier request = .ok response →
      ∃ upload file, crates.pake.registrationFinish rng' state secretCode response = .ok upload ∧
        pake.finishRegistration upload = .ok file
  offers : ∀ identifier file rng request state rng',
    RegisteredFor crates pake secretCode identifier file →
      crates.pake.loginStart rng secretCode = .ok (request, state) →
      ∃ response, pake.credentialResponse ⟨rng', identifier, file, request⟩ = .ok response
  logs_in : ∀ identifier file rng request state rng' response rng'',
    RegisteredFor crates pake secretCode identifier file →
      crates.pake.loginStart rng secretCode = .ok (request, state) →
      pake.credentialResponse ⟨rng', identifier, file, request⟩ = .ok response →
      ∃ finalization,
        crates.pake.loginFinish rng'' state secretCode response = .ok finalization ∧
        pake.finish ⟨rng', identifier, file, request⟩ finalization = .ok ()

/-! ## The ideal PAKE -/

/-- The client of the ideal PAKE. -/
def idealClientPake : ClientPake where
  loginStart _ secretCode := .ok (secretCode, secretCode)
  registrationStart _ secretCode := .ok (secretCode, secretCode)
  registrationFinish _ _ secretCode _ := .ok secretCode
  loginFinish _ _ secretCode credentialResponse :=
    if credentialResponse = secretCode then .ok secretCode else .error "invalid secret code"

/-- The SHA-256 digest of the code "k7". -/
def digest : Bytes :=
  [251, 132, 140, 153, 185, 164, 62, 199, 134, 106, 35, 234, 0, 12, 25, 57, 161, 104, 245, 255, 23,
    49, 74, 11, 136, 199, 190, 113, 29, 126, 247, 208]

def idealCrates : Crates where
  encode := encodeBytes
  decode encoded := .ok (decodeBytes encoded)
  pake := idealClientPake
  sha256 _ := digest

theorem registeredFor_ideal {secretCode identifier file : Bytes}
    (h : RegisteredFor idealCrates idealPake secretCode identifier file) : file = secretCode := by
  obtain ⟨rng, request, state, response, rng', upload, -, -, hupload, hfile⟩ := h
  obtain rfl := Except.ok.inj hupload
  exact (Except.ok.inj hfile).symm

theorem idealCrates_correct (secretCode : Bytes) :
    PakeCorrect idealCrates idealPake secretCode where
  decode_server bytes := congrArg Except.ok (decodeBytes_encodeBytes bytes)
  decode_agent bytes := congrArg Except.ok (decodeBytes_encodeBytes bytes)
  login_starts _ := ⟨_, _, rfl⟩
  registration_starts _ := ⟨_, _, rfl⟩
  responds _ _ _ _ _ := ⟨_, rfl⟩
  registers _ _ _ _ _ _ _ _ := ⟨_, _, rfl, rfl⟩
  offers _ _ _ _ _ _ _ _ := ⟨_, rfl⟩
  logs_in identifier file rng request state rng' response rng'' hregistered _ hresponse := by
    obtain rfl := registeredFor_ideal hregistered
    obtain rfl := Except.ok.inj hresponse
    exact ⟨_, if_pos rfl, if_pos rfl⟩

end ManInTheBox.Host
