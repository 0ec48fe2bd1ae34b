import ManInTheBox.Library.Table

/-! # The signaling server's data

Rooms, client handles, messages and limits of `mitb-server`. Time stamps and
durations are natural numbers of nanoseconds, and `saturating_duration_since` is
truncated subtraction. The opaque-ke and base64
crates are outside the repository: `ServerPake` lists the calls the server
makes into them.
-/

namespace ManInTheBox.Server

open Library

abbrev Bytes := List UInt8
abbrev IpAddr := ℕ

/-- A connection is one run of `handle_socket`. -/
abbrev ConnId := ℕ

inductive ClientRole
  | agent
  | zookeeper
  deriving DecidableEq, Repr

namespace ClientRole

def asPrefix : ClientRole → String
  | .agent => "agent"
  | .zookeeper => "zookeeper"

/-- The role whose clients are told about a client of this role. -/
def peer : ClientRole → ClientRole
  | .agent => .zookeeper
  | .zookeeper => .agent

@[simp] theorem peer_peer (role : ClientRole) : role.peer.peer = role := by cases role <;> rfl

theorem peer_ne (role : ClientRole) : role.peer ≠ role := by cases role <;> decide

theorem eq_or_eq_peer (role role' : ClientRole) : role' = role ∨ role' = role.peer := by
  cases role <;> cases role' <;> simp [peer]

end ClientRole

/-- A JSON value, kept as its text: the server forwards payloads without looking inside. -/
structure Value where
  json : String
  deriving DecidableEq, Repr

structure PakeCredentialCandidate where
  candidateId : String
  credentialResponse : String
  deriving DecidableEq, Repr

inductive ClientMessage
  | pakeInit (role : ClientRole) (roomHandle credentialRequest : String)
      (clientAlias : Option String)
  | pakeRegistrationRequest (registrationRequest : String)
  | pakeRegistrationUpload (registrationUpload credentialRequest : String)
  | pakeCredentialFinalization (candidateId credentialFinalization : String)
  | signal (peerId : String) (payload : Value)
  | ping
  deriving DecidableEq, Repr

inductive ServerMessage
  | pakeRegistrationRequired
  | pakeRegistrationResponse (registrationResponse : String)
  | pakeCredentialCandidates (candidates : List PakeCredentialCandidate)
  | connected (clientId : String) (role : ClientRole) (agents zookeepers : List String)
  | peerJoined (role : ClientRole) (clientId : String)
  | peerLeft (role : ClientRole) (clientId : String)
  | signal (peerId : String) (payload : Value)
  | error (message : String)
  | pong
  deriving DecidableEq, Repr

/-- The outbound sender and the penalty flag of one connection. `handle_socket` creates the two
together and never shares them, so the connection names both. -/
structure ClientHandle where
  connection : ConnId
  deriving DecidableEq, Repr

abbrev Clients := Table String ClientHandle

structure RoomState where
  passwordFile : Bytes
  agents : Clients
  zookeepers : Clients
  lastActiveAt : ℕ
  signalEvents : List ℕ
  deriving DecidableEq

namespace RoomState

/-- The map that holds the clients of a role. -/
def clients (room : RoomState) : ClientRole → Clients
  | .agent => room.agents
  | .zookeeper => room.zookeepers

def withClients (room : RoomState) (role : ClientRole) (clients : Clients) : RoomState :=
  match role with
  | .agent => { room with agents := clients }
  | .zookeeper => { room with zookeepers := clients }

@[simp] theorem withClients_passwordFile (room : RoomState) (role : ClientRole)
    (clients : Clients) : (room.withClients role clients).passwordFile = room.passwordFile := by
  cases role <;> rfl

@[simp] theorem withClients_signalEvents (room : RoomState) (role : ClientRole)
    (clients : Clients) : (room.withClients role clients).signalEvents = room.signalEvents := by
  cases role <;> rfl

/-- No client of either role. -/
def vacant (room : RoomState) : Bool := room.agents.isEmpty && room.zookeepers.isEmpty

theorem vacant_iff {room : RoomState} :
    room.vacant = true ↔ ∀ role id, (room.clients role).lookup id = none := by
  rw [vacant, Bool.and_eq_true, Table.isEmpty_iff, Table.isEmpty_iff]
  constructor
  · rintro ⟨ha, hz⟩ role id
    cases role with
    | agent => exact ha id
    | zookeeper => exact hz id
  · exact fun h => ⟨h .agent, h .zookeeper⟩

end RoomState

structure StateInner where
  nextClientId : ℕ
  rooms : Table String RoomState
  authEventsByIp : Table IpAddr (List ℕ)
  deriving DecidableEq

/-- `StateInner::default()`. -/
def StateInner.empty : StateInner := ⟨0, ∅, ∅⟩

structure SecurityConfig where
  allowAgentRoomCreation : Bool
  maxRooms : ℕ
  roomTtl : ℕ
  authRateLimit : ℕ
  authRateWindow : ℕ
  roomSignalRateLimit : ℕ
  roomSignalRateWindow : ℕ

/-- The configuration of a server whose environment sets nothing. -/
def SecurityConfig.default : SecurityConfig where
  allowAgentRoomCreation := false
  maxRooms := 512
  roomTtl := 3600 * 1000000000
  authRateLimit := 30
  authRateWindow := 60 * 1000000000
  roomSignalRateLimit := 300
  roomSignalRateWindow := 10 * 1000000000

/-- A server login in progress. The state that opaque-ke keeps is determined by what
`start_login` was given, its random draw included. -/
structure ServerLoginSession where
  rng : ℕ
  credentialIdentifier : Bytes
  passwordFile : Bytes
  credentialRequest : Bytes
  deriving DecidableEq, Repr

/-- The calls into the PAKE and base64 crates. -/
structure ServerPake where
  encode : Bytes → String
  decode : String → Except String Bytes
  registrationResponse : (credentialIdentifier registrationRequest : Bytes) → Except String Bytes
  finishRegistration : (registrationUpload : Bytes) → Except String Bytes
  credentialResponse : ServerLoginSession → Except String Bytes
  finish : ServerLoginSession → (credentialFinalization : Bytes) → Except String Unit

/-- `ServerPake::start_login`. -/
def ServerPake.startLogin (pake : ServerPake) (rng : ℕ)
    (credentialIdentifier passwordFile credentialRequest : Bytes) :
    Except String (Bytes × ServerLoginSession) :=
  let session : ServerLoginSession := ⟨rng, credentialIdentifier, passwordFile, credentialRequest⟩
  (pake.credentialResponse session).map fun response => (response, session)

structure AppState where
  pake : ServerPake
  config : SecurityConfig

structure RegisterOutcome where
  clientId : String
  initialMessages : List ServerMessage
  broadcasts : List (ClientHandle × ServerMessage)
  deriving DecidableEq

structure UnregisterOutcome where
  broadcasts : List (ClientHandle × ServerMessage)
  deriving DecidableEq

structure PendingLogin where
  candidateId : String
  roomHandle : String
  credentialResponse : Bytes
  loginSession : ServerLoginSession
  deriving DecidableEq

structure CreatedRoom where
  roomHandle : String
  passwordFile : Bytes
  deriving DecidableEq

/-- The refusals of the operations on the shared state. -/
inductive ServerError
  | channelNotFound
  | roomQuotaExceeded
  | duplicateRoomHandle
  | tooManyAuthAttempts
  | roomSignalRateLimit
  | senderNotConnected (senderId : String)
  | peerNotConnected (peerId : String)
  | agentToAgent
  deriving DecidableEq, Repr

def ServerError.message : ServerError → String
  | .channelNotFound => "channel not found"
  | .roomQuotaExceeded => "room quota exceeded"
  | .duplicateRoomHandle => "generated duplicate room handle"
  | .tooManyAuthAttempts => "too many authentication attempts from this IP"
  | .roomSignalRateLimit => "room signaling rate limit exceeded"
  | .senderNotConnected senderId => "sender `" ++ senderId ++ "` is not connected"
  | .peerNotConnected peerId => "peer `" ++ peerId ++ "` is not connected"
  | .agentToAgent => "agent-to-agent signaling is not supported"

end ManInTheBox.Server
