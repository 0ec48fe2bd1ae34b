import ManInTheBox.Host.Meeting

/-! # The joint positions of an agent and its task

Agent and task take turns, so what one of them is doing and what is under way on
the socket determine each other. `Position` lists the pairs; the lemmas below say
that the steps of either side lead from one to another, as long as the operations
on the shared state turn out well.
-/

namespace ManInTheBox.Host

open Server

section

variable (crates : Crates) (pake : ServerPake) (secretCode : Bytes) (roomHandle : String)

/-- The file is the outcome of a registration for the room. -/
abbrev GoodFile (file : Bytes) : Prop :=
  RegisteredFor crates pake secretCode (asBytes roomHandle) file

/-- The client waits for the answer to a login request of its own. -/
structure LoggingIn (client : ClientSession) (request : Bytes) : Prop where
  code : client.secretCode = secretCode
  started : ∃ rng state, client.loginState = some state ∧
    crates.pake.loginStart rng secretCode = .ok (request, state)

/-- The client has asked to register. -/
structure Registering (client : ClientSession) (request : Bytes) : Prop where
  code : client.secretCode = secretCode
  started : ∃ rng state, client.registrationState = some state ∧
    crates.pake.registrationStart rng secretCode = .ok (request, state)

/-- The login that the server has started from a good file answers the request of the client. -/
structure Offered (client : ClientSession) (pending : PendingLogin) : Prop where
  room : pending.roomHandle = roomHandle
  session : ∃ rng file request, pending.loginSession = ⟨rng, asBytes roomHandle, file, request⟩ ∧
    GoodFile crates pake secretCode roomHandle file ∧
    LoggingIn crates secretCode client request ∧
    pake.credentialResponse pending.loginSession = .ok pending.credentialResponse

/-- A room that is still to be stored is the one of the agents. -/
def WellCreated (createdRoom : Option CreatedRoom) : Prop :=
  ∀ created, createdRoom = some created → created.roomHandle = roomHandle ∧
    GoodFile crates pake secretCode roomHandle created.passwordFile

/-- Before the task has read the first message. -/
inductive Arriving : Task → Prop
  | idle : Arriving .idle
  | checkRateLimit (ip : IpAddr) : Arriving (.authenticating (.checkRateLimit ip))
  | receiveInit : Arriving (.authenticating .receiveInit)

def candidatesFrame (pending : PendingLogin) : SocketFrame :=
  .message (.pakeCredentialCandidates [⟨pending.candidateId, pake.encode pending.credentialResponse⟩])

/-- An agent, what it has sent, the task of its connection, what that has sent, and the outbound
queue. -/
inductive Position : Agent → List ClientMessage → Task → List SocketFrame → Queue → Prop
  | arriving {task} (arriving : Arriving task) : Position .ready [] task [] .empty
  | greeting {task client request clientAlias} (arriving : Arriving task)
      (login : LoggingIn crates secretCode client request) :
      Position (.waiting client)
        [.pakeInit .agent roomHandle (crates.encode request) clientAlias] task [] .empty
  | lookingUp {client request clientAlias} (login : LoggingIn crates secretCode client request) :
      Position (.waiting client) []
        (.authenticating (.candidateLogin .agent roomHandle request clientAlias)) [] .empty
  | ensuring {client clientAlias} (secretCode_eq : client.secretCode = secretCode) :
      Position (.waiting client) []
        (.authenticating (.ensureCapacity .agent roomHandle clientAlias)) [] .empty
  | required {client clientAlias} (secretCode_eq : client.secretCode = secretCode) :
      Position (.waiting client) []
        (.authenticating (.receiveRegistrationRequest .agent roomHandle clientAlias))
        [.message .pakeRegistrationRequired] .empty
  | requesting {client request clientAlias}
      (registration : Registering crates secretCode client request) :
      Position (.waiting client) [.pakeRegistrationRequest (crates.encode request)]
        (.authenticating (.receiveRegistrationRequest .agent roomHandle clientAlias)) [] .empty
  | responding {client request response clientAlias}
      (registration : Registering crates secretCode client request)
      (response_eq : pake.registrationResponse (asBytes roomHandle) request = .ok response) :
      Position (.waiting client) []
        (.authenticating (.receiveRegistrationUpload .agent roomHandle clientAlias))
        [.message (.pakeRegistrationResponse (pake.encode response))] .empty
  | uploading {client upload request file clientAlias}
      (finished : pake.finishRegistration upload = .ok file)
      (good : GoodFile crates pake secretCode roomHandle file)
      (login : LoggingIn crates secretCode client request) :
      Position (.waiting client)
        [.pakeRegistrationUpload (crates.encode upload) (crates.encode request)]
        (.authenticating (.receiveRegistrationUpload .agent roomHandle clientAlias)) [] .empty
  | offered {client pending createdRoom clientAlias}
      (offered : Offered crates pake secretCode roomHandle client pending)
      (created : WellCreated crates pake secretCode roomHandle createdRoom) :
      Position (.waiting client) []
        (.authenticating (.receiveFinalization .agent clientAlias [pending] createdRoom))
        [candidatesFrame pake pending] .empty
  | finalizing {client pending createdRoom clientAlias finalization}
      (room : pending.roomHandle = roomHandle)
      (finish : pake.finish pending.loginSession finalization = .ok ())
      (created : WellCreated crates pake secretCode roomHandle createdRoom) :
      Position (.waiting client)
        [.pakeCredentialFinalization pending.candidateId (crates.encode finalization)]
        (.authenticating (.receiveFinalization .agent clientAlias [pending] createdRoom)) [] .empty
  | storing {client pending created clientAlias} (room : pending.roomHandle = roomHandle)
      (created_eq : WellCreated crates pake secretCode roomHandle (some created)) :
      Position (.waiting client) []
        (.authenticating (.storeRoom .agent clientAlias pending created)) [] .empty
  | authenticated {client pending clientAlias} (room : pending.roomHandle = roomHandle) :
      Position (.waiting client) []
        (.authenticating (.authenticated .agent clientAlias pending)) [] .empty
  | announcing {client id agents zookeepers} :
      Position (.waiting client) []
        (.announcing ⟨roomHandle, .agent, id⟩ [.connected id .agent agents zookeepers] []) [] .empty
  | announced {client id agents zookeepers} :
      Position (.waiting client) [] (.announcing ⟨roomHandle, .agent, id⟩ [] []) []
        ⟨[.connected id .agent agents zookeepers], 0, false⟩
  | serving {client id agents zookeepers} :
      Position (.waiting client) [] (.serving ⟨roomHandle, .agent, id⟩) []
        ⟨[.connected id .agent agents zookeepers], 0, false⟩
  | answered {client id agents zookeepers} :
      Position (.waiting client) [] (.serving ⟨roomHandle, .agent, id⟩)
        [.message (.connected id .agent agents zookeepers)]
        ⟨[.connected id .agent agents zookeepers], 1, false⟩
  | accepted {id agents zookeepers} :
      Position (.connected (.connected id .agent agents zookeepers)) []
        (.serving ⟨roomHandle, .agent, id⟩) [] ⟨[.connected id .agent agents zookeepers], 1, false⟩

end

/-- The handshake has found no room, and has not stored one yet. -/
def creating : Task → Bool
  | .authenticating (.ensureCapacity _ _ _) => true
  | .authenticating (.receiveRegistrationRequest _ _ _) => true
  | .authenticating (.receiveRegistrationUpload _ _ _) => true
  | .authenticating (.receiveFinalization _ _ _ (some _)) => true
  | .authenticating (.storeRoom _ _ _ _) => true
  | _ => false

/-- The handshake has found a room, or has stored one. -/
def admitted : Task → Bool
  | .authenticating (.receiveFinalization _ _ _ none) => true
  | .authenticating (.authenticated _ _ _) => true
  | .announcing _ _ _ => true
  | .serving _ => true
  | _ => false

/-- The two tasks are equally far from the room. -/
structure SameStage (task task' : Task) : Prop where
  creating : creating task' = creating task
  admitted : admitted task' = admitted task
  membership : task'.membership = task.membership

variable {crates : Crates} {app : AppState} {secretCode : Bytes} {roomHandle : String}
  {agent : Agent} {inbox : List ClientMessage} {task : Task} {frames : List SocketFrame}
  {queue : Queue}

namespace Position

theorem task_open (h : Position crates app.pake secretCode roomHandle agent inbox task frames queue) :
    task.isClosed = false := by
  cases h with
  | arriving arriving => cases arriving <;> rfl
  | greeting arriving => cases arriving <;> rfl
  | _ => rfl

/-- No frame on its way to the agent reports an error. -/
theorem no_error (h : Position crates app.pake secretCode roomHandle agent inbox task frames queue)
    (message : String) : .message (.error message) ∉ frames := by
  cases h <;> simp [candidatesFrame]

/-! ## Steps of the agent -/

theorem start {options : AgentOptions} {draws : ℕ → ℕ}
    (hcorrect : PakeCorrect crates app.pake secretCode)
    (hnew : ClientSession.new options.secretCode = .ok ⟨secretCode, none, none⟩)
    (hroom : deriveRoomHandle crates.sha256 options.secretCode = roomHandle)
    (h : Position crates app.pake secretCode roomHandle .ready inbox task frames queue) :
    Position crates app.pake secretCode roomHandle (Agent.start crates options draws).1
      (inbox ++ (Agent.start crates options draws).2) task frames queue := by
  obtain ⟨request, state, hlogin⟩ := hcorrect.login_starts (draws 0)
  have hstart := ClientSession.startLogin_ok
    (show crates.pake.loginStart (draws 0) (⟨secretCode, none, none⟩ : ClientSession).secretCode = _
      from hlogin)
  simp only [Agent.start, hnew, Agent.orFail, hstart, hroom]
  cases h with
  | arriving arriving => exact .greeting arriving ⟨rfl, _, _, rfl, hlogin⟩

/-- A frame that the server has sent is answered with the message that the server waits for. -/
theorem read {client : ClientSession} {frame : SocketFrame} {draws : ℕ → ℕ}
    (hcorrect : PakeCorrect crates app.pake secretCode)
    (h : Position crates app.pake secretCode roomHandle (.waiting client) inbox task
      (frame :: frames) queue) :
    Position crates app.pake secretCode roomHandle (Agent.onFrame crates draws client frame).1
      (inbox ++ (Agent.onFrame crates draws client frame).2) task frames queue := by
  cases h with
  | required code =>
    subst code
    obtain ⟨request, state, hstart⟩ := hcorrect.registration_starts (draws 0)
    simp only [Agent.onFrame, Agent.onMessage, ClientSession.startRegistration_ok hstart,
      Agent.orFail]
    exact .requesting ⟨rfl, _, _, rfl, hstart⟩
  | responding registration response_eq =>
    obtain ⟨rfl, rng, state, hstate, hstart⟩ := registration
    obtain ⟨upload, file, hupload, hfile⟩ :=
      hcorrect.registers rng _ state _ _ (draws 0) hstart response_eq
    obtain ⟨request', state', hlogin⟩ := hcorrect.login_starts (draws 1)
    simp only [Agent.onFrame, Agent.onMessage, hcorrect.decode_agent, Agent.orFail,
      ClientSession.finishRegistration_ok hstate hupload hlogin]
    apply Position.uploading hfile
    · exact ⟨rng, _, state, _, draws 0, upload, hstart, response_eq, hupload, hfile⟩
    · exact ⟨rfl, _, _, rfl, hlogin⟩
  | @offered _ pending createdRoom clientAlias offered created =>
    obtain ⟨hroom, rng, file, request, hsession, hgood, ⟨rfl, rng', state, hstate, hlogin⟩,
      hresponse⟩ := offered
    rw [hsession] at hresponse
    obtain ⟨finalization, hfinalization, hfinish⟩ :=
      hcorrect.logs_in _ _ rng' _ state rng _ (draws 0) hgood hlogin hresponse
    simp only [candidatesFrame, Agent.onFrame, Agent.onMessage, Agent.selectLoginCandidate,
      hcorrect.decode_agent, ClientSession.finishLogin_ok hstate hfinalization, Agent.orFail]
    exact .finalizing hroom (by rw [hsession, hfinish]) created
  | answered => exact .accepted

/-! ## Steps of the task that leave the shared state alone -/

theorem accept {ip : IpAddr} {c : ConnId} {request : Request}
    (h : Position crates app.pake secretCode roomHandle agent inbox task frames queue)
    (hrequest : task.request app c (.accept ip) = some request) :
    request = .goto (.authenticating (.checkRateLimit ip)) [] ∧
      SameStage task (.authenticating (.checkRateLimit ip)) ∧
      Position crates app.pake secretCode roomHandle agent inbox
        (.authenticating (.checkRateLimit ip)) frames queue := by
  cases h with
  | arriving arriving =>
    cases arriving with
    | idle =>
      exact ⟨(Option.some.inj hrequest).symm, ⟨rfl, rfl, rfl⟩, .arriving (.checkRateLimit ip)⟩
    | _ => cases hrequest
  | greeting arriving login =>
    cases arriving with
    | idle =>
      exact ⟨(Option.some.inj hrequest).symm, ⟨rfl, rfl, rfl⟩,
        .greeting (.checkRateLimit ip) login⟩
    | _ => cases hrequest
  | _ => cases hrequest

/-- The message that the server has received is the one that it waits for. -/
theorem receive {message : ClientMessage} {rng : ℕ} {token : String} {c : ConnId}
    {request : Request} (hcorrect : PakeCorrect crates app.pake secretCode)
    (hroom : normalizeRoomHandle roomHandle = .ok roomHandle)
    (h : Position crates app.pake secretCode roomHandle agent (message :: inbox) task frames queue)
    (hrequest : task.request app c (.receive (.message message) rng (.ok token)) = some request) :
    ∃ task' out, request = .goto task' out ∧ SameStage task task' ∧
      Position crates app.pake secretCode roomHandle agent inbox task' (frames ++ out) queue := by
  cases h with
  | greeting arriving login =>
    cases arriving with
    | receiveInit =>
      obtain rfl := Option.some.inj hrequest
      refine ⟨_, _, rfl, ?_⟩
      simp only [Task.progress, Handshake.receive.go, receiveMessage, Handshake.onInit,
        Handshake.orFail, hroom, hcorrect.decode_server]
      exact ⟨⟨rfl, rfl, rfl⟩, .lookingUp login⟩
    | _ => cases hrequest
  | requesting registration =>
    obtain ⟨rfl, rng', state, hstate, hstart⟩ := registration
    obtain ⟨response, hresponse⟩ := hcorrect.responds rng' _ state (asBytes roomHandle) hstart
    obtain rfl := Option.some.inj hrequest
    refine ⟨_, _, rfl, ?_⟩
    simp only [Task.progress, Handshake.receive.go, receiveMessage,
      Handshake.onRegistrationRequest, Handshake.orFail, hcorrect.decode_server, hresponse]
    exact ⟨⟨rfl, rfl, rfl⟩, .responding ⟨rfl, rng', state, hstate, hstart⟩ hresponse⟩
  | uploading finished good login =>
    obtain ⟨rfl, rng', state, hstate, hlogin⟩ := login
    obtain ⟨response, hresponse⟩ := hcorrect.offers _ _ rng' _ state rng good hlogin
    obtain rfl := Option.some.inj hrequest
    refine ⟨_, _, rfl, ?_⟩
    simp only [Task.progress, Handshake.receive.go, receiveMessage,
      Handshake.onRegistrationUpload, Handshake.orFail, hcorrect.decode_server, finished,
      ServerPake.startLogin, hresponse, Except.map]
    refine ⟨⟨rfl, rfl, rfl⟩, ?_⟩
    apply Position.offered
    · exact ⟨rfl, rng, _, _, rfl, good, ⟨rfl, rng', state, hstate, hlogin⟩, hresponse⟩
    · intro created hcreated
      obtain rfl := Option.some.inj hcreated
      exact ⟨rfl, good⟩
  | @finalizing client pending createdRoom clientAlias finalization room finish created =>
    obtain rfl := Option.some.inj hrequest
    refine ⟨_, _, rfl, ?_⟩
    have hfind : [pending].find? (fun p => p.candidateId = pending.candidateId) = some pending := by
      simp
    simp only [Task.progress, Handshake.receive.go, receiveMessage, Handshake.onFinalization,
      Handshake.orFail, hcorrect.decode_server, hfind, finish]
    cases createdRoom with
    | none => exact ⟨⟨rfl, rfl, rfl⟩, .authenticated room⟩
    | some createdRoom =>
      obtain ⟨hcreated, -⟩ := created createdRoom rfl
      simp only [hcreated, room, if_true]
      exact ⟨⟨rfl, rfl, rfl⟩, .storing room created⟩

/-- A task puts its `Connected` into its own queue. -/
theorem enqueue {c : ConnId} {request : Request}
    (h : Position crates app.pake secretCode roomHandle agent inbox task frames queue)
    (hrequest : task.request app c .enqueue = some request) :
    (∃ task', request = .goto task' [] ∧ SameStage task task' ∧
      Position crates app.pake secretCode roomHandle agent inbox task' frames queue) ∨
    (∃ message resume, request = .deliver c message resume ∧ ∀ queue' sent,
      queue.trySend task.isClosed message = (queue', sent) → SameStage task (resume sent) ∧
      Position crates app.pake secretCode roomHandle agent inbox (resume sent) frames queue') := by
  cases h with
  | arriving arriving => cases arriving <;> cases hrequest
  | greeting arriving => cases arriving <;> cases hrequest
  | announcing =>
    right
    obtain rfl := Option.some.inj hrequest
    refine ⟨_, _, rfl, fun queue' sent hsend => ?_⟩
    obtain ⟨rfl, rfl⟩ := Prod.mk.inj hsend
    exact ⟨⟨rfl, rfl, rfl⟩, .announced⟩
  | announced =>
    left
    obtain rfl := Option.some.inj hrequest
    exact ⟨_, rfl, ⟨rfl, rfl, rfl⟩, .serving⟩
  | _ => cases hrequest

/-- A serving task sends the front of its queue. -/
theorem take {c : ConnId} {request : Request}
    (h : Position crates app.pake secretCode roomHandle agent inbox task frames queue)
    (hrequest : task.request app c .take = some request) :
    request = .take ∧ ∀ message, queue.placed[queue.taken]? = some message →
      Position crates app.pake secretCode roomHandle agent inbox task
        (frames ++ [.message message]) queue.advance := by
  cases h with
  | arriving arriving => cases arriving <;> cases hrequest
  | greeting arriving => cases arriving <;> cases hrequest
  | serving =>
    refine ⟨(Option.some.inj hrequest).symm, fun message next => ?_⟩
    obtain rfl := Option.some.inj next
    exact .answered
  | answered =>
    refine ⟨(Option.some.inj hrequest).symm, fun message next => ?_⟩
    cases next
  | accepted =>
    refine ⟨(Option.some.inj hrequest).symm, fun message next => ?_⟩
    cases next
  | _ => cases hrequest

end Position

end ManInTheBox.Host
