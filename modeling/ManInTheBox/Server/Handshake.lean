import ManInTheBox.Server.Operation

/-! # The authentication handshake

`authenticate_socket` cut at the points where it waits: for the next message on
its socket, or for the mutex of the shared state. A position keeps the locals
that the rest of the function uses. `receive` continues from a message, `resume`
from the result of an operation, and both report what is sent on the socket.
-/

namespace ManInTheBox.Server

/-- What `socket.recv` may yield, a text frame already parsed. -/
inductive Received
  | message (message : ClientMessage)
  | invalid (error : String)
  | ping (payload : Bytes)
  | pong
  | binary
  | closed
  | timedOut

/-- What goes out on a socket. -/
inductive SocketFrame
  | message (message : ServerMessage)
  | pong (payload : Bytes)
  deriving DecidableEq, Repr

inductive Handshake
  | checkRateLimit (ip : IpAddr)
  | receiveInit
  | candidateLogin (role : ClientRole) (roomHandle : String) (credentialRequest : Bytes)
      (clientAlias : Option String)
  | ensureCapacity (role : ClientRole) (roomHandle : String) (clientAlias : Option String)
  | receiveRegistrationRequest (role : ClientRole) (roomHandle : String)
      (clientAlias : Option String)
  | receiveRegistrationUpload (role : ClientRole) (roomHandle : String)
      (clientAlias : Option String)
  | receiveFinalization (role : ClientRole) (clientAlias : Option String)
      (pendingLogins : List PendingLogin) (createdRoom : Option CreatedRoom)
  | storeRoom (role : ClientRole) (clientAlias : Option String) (pendingLogin : PendingLogin)
      (createdRoom : CreatedRoom)
  | authenticated (role : ClientRole) (clientAlias : Option String) (pendingLogin : PendingLogin)
  | refused
  deriving DecidableEq

/-! ## Text -/

/-- `char::is_whitespace`, the Unicode property White_Space. -/
def isWhitespace (c : Char) : Bool :=
  (9 ≤ c.toNat && c.toNat ≤ 13) || (8192 ≤ c.toNat && c.toNat ≤ 8202) ||
    c.toNat ∈ [32, 133, 160, 5760, 8232, 8233, 8239, 8287, 12288]

def trim (s : String) : String :=
  String.ofList ((s.toList.dropWhile isWhitespace).rdropWhile isWhitespace)

/-- `is_ascii_alphanumeric`, `-` or `_`. -/
def isHandleByte (byte : UInt8) : Bool :=
  (48 ≤ byte && byte ≤ 57) || (65 ≤ byte && byte ≤ 90) || (97 ≤ byte && byte ≤ 122) ||
    byte = 45 || byte = 95

def normalizeRoomHandle (roomHandle : String) : Except String String :=
  let roomHandle := trim roomHandle
  if roomHandle.isEmpty then .error "room handle must not be empty"
  else if 64 < (asBytes roomHandle).length then
    .error "room handle must be at most 64 characters"
  else if !(asBytes roomHandle).all isHandleByte then
    .error "room handle must use only letters, numbers, '-' or '_'"
  else .ok roomHandle

/-! ## Reading a message -/

def errorFrame (message : String) : SocketFrame := .message (.error message)

/-- `receive_message`: the message, or the frames sent before the handshake is given up. -/
def receiveMessage : Received → Except (List SocketFrame) ClientMessage
  | .message message => .ok message
  | .invalid error => .error [errorFrame ("invalid client message: " ++ error)]
  | .ping payload =>
    .error [.pong payload, errorFrame "expected text websocket frames during authentication"]
  | .pong => .error [errorFrame "expected text websocket frames during authentication"]
  | .binary => .error [errorFrame "expected text websocket frames during authentication"]
  | .closed => .error []
  | .timedOut => .error [errorFrame "authentication timed out waiting for next message (15s)"]

namespace Handshake

abbrev Progress := Handshake × List SocketFrame

/-- `send_socket_error` and `return None`. -/
def fail (error : String) : Progress := (.refused, [errorFrame error])

/-- Go on with the value, or fail with the error. -/
def orFail {α : Type} (result : Except String α) (next : α → Progress) : Progress :=
  match result with
  | .ok value => next value
  | .error error => fail error

/-- Send the candidates and wait for the finalization. -/
def offerCandidates (app : AppState) (role : ClientRole) (clientAlias : Option String)
    (pendingLogins : List PendingLogin) (createdRoom : Option CreatedRoom) : Progress :=
  (.receiveFinalization role clientAlias pendingLogins createdRoom,
    [.message (.pakeCredentialCandidates (pendingLogins.map fun pending =>
      ⟨pending.candidateId, app.pake.encode pending.credentialResponse⟩))])

/-- Only agents keep their alias. -/
def complete (role : ClientRole) (clientAlias : Option String) (pendingLogin : PendingLogin) :
    Handshake :=
  .authenticated role (if role = .agent then clientAlias else none) pendingLogin

def onInit (app : AppState) : ClientMessage → Progress
  | .pakeInit role roomHandle credentialRequest clientAlias =>
    orFail (normalizeRoomHandle roomHandle) fun roomHandle =>
    orFail (app.pake.decode credentialRequest) fun credentialRequest =>
    (.candidateLogin role roomHandle credentialRequest
      ((clientAlias.map trim).filter fun value => !value.isEmpty), [])
  | _ => fail "expected PAKE init message before other client messages"

def onRegistrationRequest (app : AppState) (role : ClientRole) (roomHandle : String)
    (clientAlias : Option String) : ClientMessage → Progress
  | .pakeRegistrationRequest registrationRequest =>
    orFail (app.pake.decode registrationRequest) fun registrationRequest =>
    orFail (app.pake.registrationResponse (asBytes roomHandle) registrationRequest) fun response =>
    (.receiveRegistrationUpload role roomHandle clientAlias,
      [.message (.pakeRegistrationResponse (app.pake.encode response))])
  | _ => fail "expected PAKE registration request"

def onRegistrationUpload (app : AppState) (role : ClientRole) (roomHandle : String)
    (clientAlias : Option String) (rng : ℕ) (token : Except String String) :
    ClientMessage → Progress
  | .pakeRegistrationUpload registrationUpload credentialRequest =>
    orFail (app.pake.decode registrationUpload) fun registrationUpload =>
    orFail (app.pake.decode credentialRequest) fun credentialRequest =>
    orFail (app.pake.finishRegistration registrationUpload) fun passwordFile =>
    orFail (app.pake.startLogin rng (asBytes roomHandle) passwordFile credentialRequest)
      fun login =>
    orFail token fun candidateId =>
    offerCandidates app role clientAlias [⟨candidateId, roomHandle, login.1, login.2⟩]
      (some ⟨roomHandle, passwordFile⟩)
  | _ => fail "expected PAKE registration upload"

/-- A room that this handshake registered is stored before the handshake returns. -/
def onFinalization (app : AppState) (role : ClientRole) (clientAlias : Option String)
    (pendingLogins : List PendingLogin) (createdRoom : Option CreatedRoom) :
    ClientMessage → Progress
  | .pakeCredentialFinalization candidateId credentialFinalization =>
    orFail (app.pake.decode credentialFinalization) fun credentialFinalization =>
    match pendingLogins.find? fun pending => pending.candidateId = candidateId with
    | none => fail "unknown PAKE login candidate"
    | some pendingLogin =>
      orFail (app.pake.finish pendingLogin.loginSession credentialFinalization) fun _ =>
      match createdRoom with
      | some createdRoom =>
        if createdRoom.roomHandle = pendingLogin.roomHandle then
          (.storeRoom role clientAlias pendingLogin createdRoom, [])
        else (complete role clientAlias pendingLogin, [])
      | none => (complete role clientAlias pendingLogin, [])
  | _ => fail "expected PAKE credential finalization"

/-- Continue with what arrived on the socket, at a position that waits for it. -/
def receive (app : AppState) (rng : ℕ) (token : Except String String) (received : Received) :
    Handshake → Option Progress
  | .receiveInit => some (go (onInit app))
  | .receiveRegistrationRequest role roomHandle clientAlias =>
    some (go (onRegistrationRequest app role roomHandle clientAlias))
  | .receiveRegistrationUpload role roomHandle clientAlias =>
    some (go (onRegistrationUpload app role roomHandle clientAlias rng token))
  | .receiveFinalization role clientAlias pendingLogins createdRoom =>
    some (go (onFinalization app role clientAlias pendingLogins createdRoom))
  | _ => none
where
  go (next : ClientMessage → Progress) : Progress :=
    match receiveMessage received with
    | .ok message => next message
    | .error frames => (.refused, frames)

/-- The operation on the shared state that comes next, at a position that waits for the mutex. -/
def operation (rng : ℕ) (token : Except String String) : Handshake → Option Operation
  | .checkRateLimit ip => some (.checkAuthRateLimit ip)
  | .candidateLogin _ roomHandle credentialRequest _ =>
    some (.candidateLoginForRoom roomHandle credentialRequest rng token)
  | .ensureCapacity _ _ _ => some .ensureRoomCapacity
  | .storeRoom _ _ _ createdRoom =>
    some (.storeRoom createdRoom.roomHandle createdRoom.passwordFile)
  | _ => none

/-- Go on after a check that passed, or fail with its refusal. -/
def afterCheck (result : Except ServerError Unit) (next : Progress) : Progress :=
  match result with
  | .ok _ => next
  | .error error => fail error.message

/-- Continue with the outcome of the operation. -/
def resume (app : AppState) : Handshake → Outcome → Progress
  | .checkRateLimit _, .checked result => afterCheck result (.receiveInit, [])
  | .candidateLogin role roomHandle _ clientAlias, .candidate result =>
    orFail result fun
      | some pending => offerCandidates app role clientAlias [pending] none
      | none =>
        if role = .zookeeper then fail "unknown secret code"
        else if !app.config.allowAgentRoomCreation then
          fail "agent-driven room creation is disabled by server policy"
        else (.ensureCapacity role roomHandle clientAlias, [])
  | .ensureCapacity role roomHandle clientAlias, .checked result =>
    afterCheck result (.receiveRegistrationRequest role roomHandle clientAlias,
      [.message .pakeRegistrationRequired])
  | .storeRoom role clientAlias pendingLogin _, .checked result =>
    afterCheck result (complete role clientAlias pendingLogin, [])
  | handshake, _ => (handshake, [])

end Handshake

example : normalizeRoomHandle "  room-abc123_DEF\n" = .ok "room-abc123_DEF" := by decide

end ManInTheBox.Server
