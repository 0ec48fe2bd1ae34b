import ManInTheBox.Server.Handshake

/-! # The agent's side of the handshake

`authenticate_websocket` of `mitb-host` with the `ClientSession` of `mitb-pake`.
The function sends its `PakeInit` and then answers one frame after the other; what
it keeps between two frames is the session. opaque-ke and sha2 are outside the
repository: `ClientPake` lists the calls of the session into the former.
-/

namespace ManInTheBox.Host

open Server

/-- The client calls into opaque-ke. A start yields the message and the state it keeps. -/
structure ClientPake where
  loginStart : (rng : ℕ) → (secretCode : Bytes) → Except String (Bytes × Bytes)
  registrationStart : (rng : ℕ) → (secretCode : Bytes) → Except String (Bytes × Bytes)
  registrationFinish : (rng : ℕ) → (state secretCode registrationResponse : Bytes) →
    Except String Bytes
  loginFinish : (rng : ℕ) → (state secretCode credentialResponse : Bytes) → Except String Bytes

structure ClientSession where
  secretCode : Bytes
  registrationState : Option Bytes
  loginState : Option Bytes

namespace ClientSession

def new (secretCode : String) : Except String ClientSession :=
  let secretCode := trim secretCode
  if secretCode.isEmpty then .error "missing secret code"
  else .ok ⟨asBytes secretCode, none, none⟩

variable (pake : ClientPake) (client : ClientSession)

def startLogin (rng : ℕ) : Except String (Bytes × ClientSession) := do
  let (credentialRequest, state) ← pake.loginStart rng client.secretCode
  pure (credentialRequest, { client with loginState := some state })

def startRegistration (rng : ℕ) : Except String (Bytes × ClientSession) := do
  let (registrationRequest, state) ← pake.registrationStart rng client.secretCode
  pure (registrationRequest, { client with registrationState := some state })

/-- The upload, and the request of the login that is started with it. -/
def finishRegistration (rng rng' : ℕ) (registrationResponse : Bytes) :
    Except String (Bytes × Bytes × ClientSession) := do
  match client.registrationState with
  | none => throw "registration was not started"
  | some state =>
    let upload ← pake.registrationFinish rng state client.secretCode registrationResponse
    let (credentialRequest, client) ←
      { client with registrationState := none }.startLogin pake rng'
    pure (upload, credentialRequest, client)

def finishLogin (rng : ℕ) (credentialResponse : Bytes) : Except String (Bytes × ClientSession) := do
  match client.loginState with
  | none => throw "login was not started"
  | some state =>
    let finalization ← pake.loginFinish rng state client.secretCode credentialResponse
    pure (finalization, { client with loginState := none })

variable {pake client} {rng rng' : ℕ} {request state response : Bytes}

theorem startLogin_ok (h : pake.loginStart rng client.secretCode = .ok (request, state)) :
    client.startLogin pake rng = .ok (request, { client with loginState := some state }) := by
  simp [startLogin, h, bind, Except.bind, pure, Except.pure]

theorem startRegistration_ok
    (h : pake.registrationStart rng client.secretCode = .ok (request, state)) :
    client.startRegistration pake rng =
      .ok (request, { client with registrationState := some state }) := by
  simp [startRegistration, h, bind, Except.bind, pure, Except.pure]

theorem finishRegistration_ok {upload state' : Bytes} (hstate : client.registrationState = some state)
    (hfinish : pake.registrationFinish rng state client.secretCode response = .ok upload)
    (hlogin : pake.loginStart rng' client.secretCode = .ok (request, state')) :
    client.finishRegistration pake rng rng' response =
      .ok (upload, request,
        { client with registrationState := none, loginState := some state' }) := by
  simp [finishRegistration, hstate, hfinish, startLogin, hlogin, bind, Except.bind, pure,
    Except.pure]

theorem finishLogin_ok {finalization : Bytes} (hstate : client.loginState = some state)
    (hfinish : pake.loginFinish rng state client.secretCode response = .ok finalization) :
    client.finishLogin pake rng response =
      .ok (finalization, { client with loginState := none }) := by
  simp [finishLogin, hstate, hfinish, bind, Except.bind, pure, Except.pure]

end ClientSession

/-! ## The room handle -/

def hexByte (byte : UInt8) : List Char :=
  [Nat.digitChar (byte.toNat / 16), Nat.digitChar (byte.toNat % 16)]

/-- `room-` and the first twelve bytes of the hash. -/
def deriveRoomHandle (sha256 : Bytes → Bytes) (secretCode : String) : String :=
  String.ofList
    (['r', 'o', 'o', 'm', '-'] ++ ((sha256 (asBytes secretCode)).take 12).flatMap hexByte)

def handleAlphabet : List Char :=
  ['0', '1', '2', '3', '4', '5', '6', '7', '8', '9', 'a', 'b', 'c', 'd', 'e', 'f', '-', 'r', 'o',
    'm']

theorem hexByte_mem (byte : UInt8) : ∀ c ∈ hexByte byte, c ∈ handleAlphabet := by
  have hdigit : ∀ n < 16, Nat.digitChar n ∈ handleAlphabet := by decide
  have hlow := hdigit (byte.toNat % 16) (Nat.mod_lt _ (by omega))
  have hhigh := hdigit (byte.toNat / 16) (by have := byte.toNat_lt; omega)
  simp [hexByte, hlow, hhigh]

theorem deriveRoomHandle_mem (sha256 : Bytes → Bytes) (secretCode : String) :
    ∀ c ∈ (deriveRoomHandle sha256 secretCode).toList, c ∈ handleAlphabet := by
  intro c hc
  rw [deriveRoomHandle, String.toList_ofList, List.mem_append] at hc
  rcases hc with hc | hc
  · simp only [List.mem_cons, List.not_mem_nil, or_false] at hc
    rcases hc with rfl | rfl | rfl | rfl | rfl <;> decide
  · obtain ⟨byte, -, hmem⟩ := List.mem_flatMap.mp hc
    exact hexByte_mem byte c hmem

theorem deriveRoomHandle_length (sha256 : Bytes → Bytes) (secretCode : String) :
    (deriveRoomHandle sha256 secretCode).toList.length ≤ 29 := by
  have hhex (bytes : Bytes) : (bytes.flatMap hexByte).length = 2 * bytes.length := by
    induction bytes with
    | nil => rfl
    | cons byte bytes ih =>
      simp only [List.flatMap_cons, List.length_append, ih, List.length_cons, hexByte,
        List.length_nil]
      omega
  have htake : ((sha256 (asBytes secretCode)).take 12).length ≤ 12 := List.length_take_le _ _
  rw [deriveRoomHandle, String.toList_ofList, List.length_append, hhex]
  simp
  omega

theorem trim_of_no_whitespace {s : String} (h : ∀ c ∈ s.toList, isWhitespace c = false) :
    trim s = s := by
  have hfront : s.toList.dropWhile isWhitespace = s.toList := by
    rw [List.dropWhile_eq_self_iff]
    intro hlength
    simp [h _ (List.getElem_mem hlength)]
  have hback : s.toList.rdropWhile isWhitespace = s.toList := by
    rw [List.rdropWhile_eq_self_iff]
    intro hne
    simp [h _ (List.getLast_mem hne)]
  rw [trim, hfront, hback, String.ofList_toList]

/-- The server takes a derived room handle as it is. -/
theorem normalizeRoomHandle_deriveRoomHandle (sha256 : Bytes → Bytes) (secretCode : String) :
    normalizeRoomHandle (deriveRoomHandle sha256 secretCode) =
      .ok (deriveRoomHandle sha256 secretCode) := by
  have hmem := deriveRoomHandle_mem sha256 secretCode
  have hlength := deriveRoomHandle_length sha256 secretCode
  have hempty : (deriveRoomHandle sha256 secretCode).isEmpty = false := by
    rw [deriveRoomHandle]
    simp [String.ext_iff]
  generalize deriveRoomHandle sha256 secretCode = roomHandle at *
  have hchars : ∀ c ∈ handleAlphabet, isWhitespace c = false ∧
      (String.utf8EncodeChar c).length = 1 ∧
      (String.utf8EncodeChar c).all isHandleByte = true := by
    rw [← List.forall_iff_forall_mem]
    simp only [handleAlphabet, List.forall_cons]
    decide
  have htrim := trim_of_no_whitespace fun c hc => (hchars c (hmem c hc)).1
  have hbytes : (asBytes roomHandle).length = roomHandle.toList.length := by
    rw [asBytes, List.length_flatMap, List.map_congr_left fun c hc => (hchars c (hmem c hc)).2.1]
    simp
  have hall : (asBytes roomHandle).all isHandleByte = true := by
    simp only [List.all_eq_true, asBytes, List.mem_flatMap]
    rintro byte ⟨c, hc, hbyte⟩
    exact List.all_eq_true.mp (hchars c (hmem c hc)).2.2 byte hbyte
  have hshort : ¬ 64 < (asBytes roomHandle).length := by omega
  simp [normalizeRoomHandle, htrim, hempty, hshort, hall]

/-! ## authenticate_websocket -/

structure AgentOptions where
  secretCode : String
  clientAlias : Option String

/-- The crates below the agent: base64, opaque-ke and sha2. -/
structure Crates where
  encode : Bytes → String
  decode : String → Except String Bytes
  pake : ClientPake
  sha256 : Bytes → Bytes

/-- A message that has no place in the handshake is reported with its content. -/
inductive AgentError
  | pake (message : String)
  | unexpected (message : ServerMessage)
  deriving DecidableEq

/-- The function before it runs, between two frames, and after it has returned. -/
inductive Agent
  | ready
  | waiting (client : ClientSession)
  | connected (message : ServerMessage)
  | failed (error : AgentError)

namespace Agent

variable (crates : Crates)

/-- The state of the agent and the messages it sends. -/
abbrev Progress := Agent × List ClientMessage

def orFail {α : Type} (result : Except String α) (next : α → Progress) : Progress :=
  match result with
  | .ok value => next value
  | .error error => (.failed (.pake error), [])

/-- `select_login_candidate`; the third argument is the error of the candidate before. -/
def selectLoginCandidate : (draws : ℕ → ℕ) → ClientSession → Option String →
    List PakeCredentialCandidate → Except String (String × Bytes × ClientSession)
  | _, _, error, [] => .error (error.getD "unknown secret code")
  | draws, client, _, candidate :: candidates =>
    match crates.decode candidate.credentialResponse with
    | .error error => .error error
    | .ok credentialResponse =>
      match client.finishLogin crates.pake (draws 0) credentialResponse with
      | .ok (finalization, client) => .ok (candidate.candidateId, finalization, client)
      | .error error =>
        selectLoginCandidate (fun n => draws (n + 1)) client (some error) candidates

/-- Everything up to the first frame. The draws are those of `RandomSource`. -/
def start (options : AgentOptions) (draws : ℕ → ℕ) : Progress :=
  orFail (ClientSession.new options.secretCode) fun client =>
  orFail (client.startLogin crates.pake (draws 0)) fun (credentialRequest, client) =>
  (.waiting client,
    [.pakeInit .agent (deriveRoomHandle crates.sha256 options.secretCode)
      (crates.encode credentialRequest) options.clientAlias])

def onMessage (draws : ℕ → ℕ) (client : ClientSession) : ServerMessage → Progress
  | .pakeRegistrationRequired =>
    orFail (client.startRegistration crates.pake (draws 0)) fun (registrationRequest, client) =>
    (.waiting client, [.pakeRegistrationRequest (crates.encode registrationRequest)])
  | .pakeRegistrationResponse registrationResponse =>
    orFail (crates.decode registrationResponse) fun registrationResponse =>
    orFail (client.finishRegistration crates.pake (draws 0) (draws 1) registrationResponse)
      fun (registrationUpload, credentialRequest, client) =>
    (.waiting client,
      [.pakeRegistrationUpload (crates.encode registrationUpload)
        (crates.encode credentialRequest)])
  | .pakeCredentialCandidates candidates =>
    orFail (selectLoginCandidate crates draws client none candidates)
      fun (candidateId, credentialFinalization, client) =>
    (.waiting client,
      [.pakeCredentialFinalization candidateId (crates.encode credentialFinalization)])
  | .connected clientId role agents zookeepers =>
    (.connected (.connected clientId role agents zookeepers), [])
  | .error message => (.failed (.pake message), [])
  | .pong => (.waiting client, [])
  | message => (.failed (.unexpected message), [])

def onFrame (draws : ℕ → ℕ) (client : ClientSession) : SocketFrame → Progress
  | .message message => onMessage crates draws client message
  | .pong _ => (.waiting client, [])

/-- The socket ends before the handshake does. -/
def onClose : Progress := (.failed (.pake "signaling socket closed during authentication"), [])

end Agent

end ManInTheBox.Host
