import ManInTheBox.Library.Table
import ManInTheBox.Host.Authenticate

/-! # The client session behind the page

The page keeps no session of its own. It calls the one that the compiled `mitb-pake` keeps
under a handle, with a request for each operation, and throws when the response is no success.
-/

namespace ManInTheBox.Page

open Library Server Host

inductive Request
  | create (secretCode : String)
  | destroy (handle : UInt32)
  | startLogin (handle : UInt32)
  | startRegistration (handle : UInt32)
  | finishRegistration (handle : UInt32) (registrationResponse : String)
  | finishLogin (handle : UInt32) (credentialResponse : String)

structure Response where
  ok : Bool := false
  error : Option String := none
  handle : Option UInt32 := none
  credentialRequest : Option String := none
  registrationRequest : Option String := none
  registrationUpload : Option String := none
  credentialFinalization : Option String := none

def okResponse : Response := { ok := true }

def errorResponse (error : String) : Response := { error := some error }

/-- What `mitb-pake` keeps between two calls. -/
structure Bridge where
  sessions : Table UInt32 ClientSession
  nextHandle : UInt32

/-- `sessions.get_mut(&handle)`, and what becomes of the session. -/
def Bridge.withSession (bridge : Bridge) (handle : UInt32)
    (f : ClientSession → Except String Response × ClientSession) :
    Except String Response × Bridge :=
  match bridge.sessions.lookup handle with
  | none => (.error "unknown session handle", bridge)
  | some session =>
    let (result, session) := f session
    (result, { bridge with sessions := bridge.sessions.insert handle session })

section

variable (crates : Crates) (draws : ℕ → ℕ)

def startLogin (session : ClientSession) : Except String Response × ClientSession :=
  match session.startLogin crates.pake (draws 0) with
  | .error error => (.error error, session)
  | .ok (credentialRequest, session) =>
    (.ok { ok := true, credentialRequest := some (crates.encode credentialRequest) }, session)

def startRegistration (session : ClientSession) : Except String Response × ClientSession :=
  match session.startRegistration crates.pake (draws 0) with
  | .error error => (.error error, session)
  | .ok (registrationRequest, session) =>
    (.ok { ok := true, registrationRequest := some (crates.encode registrationRequest) }, session)

/-- The state of the registration is taken, also when it cannot be finished. -/
def finishRegistration (response : Bytes) (session : ClientSession) :
    Except String Response × ClientSession :=
  match session.finishRegistration crates.pake (draws 0) (draws 1) response with
  | .error error => (.error error, { session with registrationState := none })
  | .ok (registrationUpload, credentialRequest, session) =>
    (.ok { ok := true
           registrationUpload := some (crates.encode registrationUpload)
           credentialRequest := some (crates.encode credentialRequest) }, session)

/-- The state of the login stays when it cannot be finished. -/
def finishLogin (response : Bytes) (session : ClientSession) :
    Except String Response × ClientSession :=
  match session.finishLogin crates.pake (draws 0) response with
  | .error error => (.error error, session)
  | .ok (credentialFinalization, session) =>
    (.ok { ok := true
           credentialFinalization := some (crates.encode credentialFinalization) }, session)

def processRequest (bridge : Bridge) : Request → Except String Response × Bridge
  | .create secretCode =>
    match ClientSession.new secretCode with
    | .error error => (.error error, bridge)
    | .ok session =>
      let handle := bridge.nextHandle
      (.ok { ok := true, handle := some handle },
        ⟨bridge.sessions.insert handle session, handle + 1⟩)
  | .destroy handle =>
    (.ok okResponse, { bridge with sessions := bridge.sessions.erase handle })
  | .startLogin handle => bridge.withSession handle (startLogin crates draws)
  | .startRegistration handle => bridge.withSession handle (startRegistration crates draws)
  | .finishRegistration handle registrationResponse =>
    match crates.decode registrationResponse with
    | .error error => (.error error, bridge)
    | .ok response => bridge.withSession handle (finishRegistration crates draws response)
  | .finishLogin handle credentialResponse =>
    match crates.decode credentialResponse with
    | .error error => (.error error, bridge)
    | .ok response => bridge.withSession handle (finishLogin crates draws response)

/-- `call` of the page, which throws for a response that is not ok. -/
def call (bridge : Bridge) (request : Request) : Except String Response × Bridge :=
  let (result, bridge) := processRequest crates draws bridge request
  let response := match result with
    | .ok response => response
    | .error error => errorResponse error
  if response.ok then
    (.ok response, bridge)
  else
    match response.error with
    | none => (.error "PAKE operation failed", bridge)
    | some error => (.error (if error.isEmpty then "PAKE operation failed" else error), bridge)

end

/-- `selectLoginCandidate` of the page; the third argument is the error that was caught last. -/
def selectLoginCandidate (crates : Crates) (handle : UInt32) :
    (draws : ℕ → ℕ) → Bridge → Option String → List PakeCredentialCandidate →
      Except String (String × Option String) × Bridge
  | _, bridge, lastError, [] => (.error (lastError.getD "unknown secret code"), bridge)
  | draws, bridge, _, candidate :: candidates =>
    match call crates draws bridge (.finishLogin handle candidate.credentialResponse) with
    | (.ok login, bridge) => (.ok (candidate.candidateId, login.credentialFinalization), bridge)
    | (.error error, bridge) =>
      selectLoginCandidate crates handle (fun n => draws (n + 1)) bridge (some error) candidates

/-! ## Calls -/

variable {crates : Crates} {draws : ℕ → ℕ} {bridge : Bridge} {handle : UInt32}

theorem call_of_ok {request : Request} {response : Response} {bridge' : Bridge}
    (h : processRequest crates draws bridge request = (.ok response, bridge'))
    (hok : response.ok = true) : call crates draws bridge request = (.ok response, bridge') := by
  rw [call, h]
  exact if_pos hok

theorem call_of_error {request : Request} {error : String} {bridge' : Bridge}
    (h : processRequest crates draws bridge request = (.error error, bridge')) :
    ∃ thrown, call crates draws bridge request = (.error thrown, bridge') := by
  rw [call, h]
  exact ⟨_, rfl⟩

end ManInTheBox.Page
