import ManInTheBox.Server.RoomTable
import ManInTheBox.Server.Socket

/-! # The file a login was verified against

A handshake looks its room up by handle three times: when it starts the login,
when it stores a room of its own and when it registers. In between the room may
expire and be created again with another password. The registration goes to the
room whose file was verified as long as no handshake stores a different file
under a handle to which another handshake is already bound.
-/

namespace ManInTheBox.Server

open Library

variable {app : AppState}

/-- The login runs against the room that the handshake is about to create. -/
def PendingLogin.StartedFrom (login : PendingLogin) (created : CreatedRoom) : Prop :=
  login.roomHandle = created.roomHandle ∧ login.loginSession.passwordFile = created.passwordFile

namespace Task

/-- The logins of a task that were started from, or have stored, the file in the room table. -/
def boundLogins : Task → List PendingLogin
  | .authenticating (.receiveFinalization _ _ pendingLogins none) => pendingLogins
  | .authenticating (.authenticated _ _ pendingLogin) => [pendingLogin]
  | _ => []

/-- A handshake that creates a room logs in against the file it will store. -/
def LogsIntoOwnRoom : Task → Prop
  | .authenticating (.receiveFinalization _ _ pendingLogins (some created)) =>
    ∀ login ∈ pendingLogins, login.StartedFrom created
  | .authenticating (.storeRoom _ _ pendingLogin created) => pendingLogin.StartedFrom created
  | _ => True

/-- As long as the rooms of its logins exist they have the files of its logins. -/
def Agrees (inner : StateInner) (task : Task) : Prop :=
  ∀ login ∈ task.boundLogins, ∀ file, passwordFileOf inner login.roomHandle = some file →
    file = login.loginSession.passwordFile

theorem Agrees.of_unbound {inner : StateInner} {task : Task} (h : task.boundLogins = []) :
    task.Agrees inner := by
  intro login hlogin
  rw [h] at hlogin
  cases hlogin

end Task

/-! ## The steps of a handshake -/

namespace Handshake

/-- What the handshake progresses to is bound to no login that it was not bound to before. -/
def Keeps (bound : List PendingLogin) (p : Progress) : Prop :=
  (Task.ofHandshake p.1).LogsIntoOwnRoom ∧
    ∀ login ∈ (Task.ofHandshake p.1).boundLogins, login ∈ bound

variable {bound : List PendingLogin}

theorem keeps_fail (bound : List PendingLogin) (error : String) : Keeps bound (fail error) :=
  ⟨trivial, by simp [fail, Task.ofHandshake, Task.boundLogins]⟩

theorem keeps_orFail {α : Type} {result : Except String α} {next : α → Progress}
    (h : ∀ value, result = .ok value → Keeps bound (next value)) :
    Keeps bound (orFail result next) := by
  cases result with
  | ok value => exact h value rfl
  | error error => exact keeps_fail bound error

theorem keeps_onInit (message : ClientMessage) : Keeps bound (onInit app message) := by
  cases message with
  | pakeInit role roomHandle credentialRequest clientAlias =>
    apply keeps_orFail
    intro roomHandle' _
    apply keeps_orFail
    intro credentialRequest' _
    exact ⟨trivial, by simp [Task.ofHandshake, Task.boundLogins]⟩
  | _ => exact keeps_fail bound _

theorem keeps_onRegistrationRequest (role : ClientRole) (roomHandle : String)
    (clientAlias : Option String) (message : ClientMessage) :
    Keeps bound (onRegistrationRequest app role roomHandle clientAlias message) := by
  cases message with
  | pakeRegistrationRequest registrationRequest =>
    apply keeps_orFail
    intro registrationRequest' _
    apply keeps_orFail
    intro response _
    exact ⟨trivial, by simp [Task.ofHandshake, Task.boundLogins]⟩
  | _ => exact keeps_fail bound _

/-- `start_login` keeps the file it was given. -/
theorem startLogin_passwordFile {pake : ServerPake} {rng : ℕ}
    {credentialIdentifier passwordFile credentialRequest : Bytes} {login : Bytes × ServerLoginSession}
    (h : pake.startLogin rng credentialIdentifier passwordFile credentialRequest = .ok login) :
    login.2.passwordFile = passwordFile := by
  rw [ServerPake.startLogin] at h
  cases hresponse : pake.credentialResponse
    ⟨rng, credentialIdentifier, passwordFile, credentialRequest⟩ with
  | error error => simp [hresponse, Except.map] at h
  | ok response =>
    simp only [hresponse, Except.map, Except.ok.injEq] at h
    rw [← h]

theorem keeps_onRegistrationUpload (role : ClientRole) (roomHandle : String)
    (clientAlias : Option String) (rng : ℕ) (token : Except String String)
    (message : ClientMessage) :
    Keeps bound (onRegistrationUpload app role roomHandle clientAlias rng token message) := by
  cases message with
  | pakeRegistrationUpload registrationUpload credentialRequest =>
    apply keeps_orFail
    intro registrationUpload' _
    apply keeps_orFail
    intro credentialRequest' _
    apply keeps_orFail
    intro passwordFile _
    apply keeps_orFail
    intro login hlogin
    apply keeps_orFail
    intro candidateId _
    constructor
    · intro login' hlogin'
      rw [List.mem_singleton.mp hlogin']
      exact ⟨rfl, startLogin_passwordFile hlogin⟩
    · simp [offerCandidates, Task.ofHandshake, Task.boundLogins]
  | _ => exact keeps_fail bound _

theorem keeps_onFinalization {role : ClientRole} {clientAlias : Option String}
    {pendingLogins : List PendingLogin} {createdRoom : Option CreatedRoom}
    (hown : (Task.authenticating (.receiveFinalization role clientAlias pendingLogins
      createdRoom)).LogsIntoOwnRoom) (message : ClientMessage) :
    Keeps (Task.authenticating (.receiveFinalization role clientAlias pendingLogins
      createdRoom)).boundLogins
      (onFinalization app role clientAlias pendingLogins createdRoom message) := by
  cases message with
  | pakeCredentialFinalization candidateId credentialFinalization =>
    apply keeps_orFail
    intro credentialFinalization' _
    split
    · exact keeps_fail _ _
    · rename_i pendingLogin hfind
      have hmem := List.mem_of_find?_eq_some hfind
      apply keeps_orFail
      intro _ _
      split
      · rename_i created
        obtain ⟨hroom, hfile⟩ := hown pendingLogin hmem
        rw [if_pos hroom.symm]
        exact ⟨⟨hroom, hfile⟩, by simp [Task.ofHandshake, Task.boundLogins]⟩
      · refine ⟨trivial, fun login hlogin => ?_⟩
        rw [List.mem_singleton.mp hlogin]
        exact hmem
  | _ => exact keeps_fail _ _

theorem keeps_receive {handshake : Handshake} {received : Received} {rng : ℕ}
    {token : Except String String} {p : Progress}
    (h : handshake.receive app rng token received = some p)
    (hown : (Task.authenticating handshake).LogsIntoOwnRoom) :
    Keeps (Task.authenticating handshake).boundLogins p := by
  have hgo {bound : List PendingLogin} {next : ClientMessage → Progress}
      (hnext : ∀ message, Keeps bound (next message)) : Keeps bound (receive.go received next) := by
    rw [receive.go]
    cases receiveMessage received with
    | ok message => exact hnext message
    | error frames => exact ⟨trivial, by simp [Task.ofHandshake, Task.boundLogins]⟩
  cases handshake with
  | receiveInit =>
    obtain rfl := Option.some.inj h
    exact hgo keeps_onInit
  | receiveRegistrationRequest role roomHandle clientAlias =>
    obtain rfl := Option.some.inj h
    exact hgo (keeps_onRegistrationRequest role roomHandle clientAlias)
  | receiveRegistrationUpload role roomHandle clientAlias =>
    obtain rfl := Option.some.inj h
    exact hgo (keeps_onRegistrationUpload role roomHandle clientAlias rng token)
  | receiveFinalization role clientAlias pendingLogins createdRoom =>
    obtain rfl := Option.some.inj h
    exact hgo (keeps_onFinalization hown)
  | _ => cases h

theorem afterCheck_agrees {inner : StateInner} {result : Except ServerError Unit} {next : Progress}
    (hown : (Task.ofHandshake next.1).LogsIntoOwnRoom)
    (hagrees : result = .ok () → (Task.ofHandshake next.1).Agrees inner) :
    (Task.ofHandshake (afterCheck result next).1).LogsIntoOwnRoom ∧
      (Task.ofHandshake (afterCheck result next).1).Agrees inner := by
  cases result with
  | ok _ => exact ⟨hown, hagrees rfl⟩
  | error error => exact ⟨trivial, .of_unbound rfl⟩

/-- After its operation a handshake agrees with the rooms: a login has just been started from the
file it read, and a stored room has the file of the login. -/
theorem resume_agrees {handshake : Handshake} {now rng : ℕ} {token : Except String String}
    {inner inner' : StateInner} {op : Operation} {outcome : Outcome}
    (hop : handshake.operation rng token = some op)
    (h : Applied app now inner op outcome inner')
    (hown : (Task.authenticating handshake).LogsIntoOwnRoom) :
    (Task.ofHandshake (handshake.resume app outcome).1).LogsIntoOwnRoom ∧
      (Task.ofHandshake (handshake.resume app outcome).1).Agrees inner' := by
  cases handshake with
  | checkRateLimit ip =>
    obtain rfl := Option.some.inj hop
    cases h with
    | checkAuthRateLimit h => exact afterCheck_agrees trivial fun _ => .of_unbound rfl
  | candidateLogin role roomHandle credentialRequest clientAlias =>
    obtain rfl := Option.some.inj hop
    cases h with
    | @candidateLoginForRoom _ _ _ _ result _ h =>
      cases result with
      | error error => exact ⟨trivial, .of_unbound rfl⟩
      | ok login =>
        cases login with
        | none =>
          simp only [resume, orFail]
          split_ifs <;> exact ⟨trivial, .of_unbound rfl⟩
        | some login =>
          refine ⟨trivial, fun login' hlogin' file hfile => ?_⟩
          obtain ⟨-, hroom, hstored⟩ := candidateLoginForRoom_some h
          rw [List.mem_singleton.mp hlogin', hroom, hstored] at hfile
          rw [List.mem_singleton.mp hlogin']
          exact (Option.some.inj hfile).symm
  | ensureCapacity role roomHandle clientAlias =>
    obtain rfl := Option.some.inj hop
    cases h with
    | ensureRoomCapacity h => exact afterCheck_agrees trivial fun _ => .of_unbound rfl
  | storeRoom role clientAlias pendingLogin created =>
    obtain rfl := Option.some.inj hop
    cases h with
    | storeRoom h =>
      apply afterCheck_agrees
      · exact trivial
      · rintro rfl login hlogin file hfile
        obtain ⟨hroom, hsession⟩ := hown
        rcases storeRoom_cases h with ⟨herror, -⟩ | ⟨herror, -⟩ | ⟨-, -, -, rfl⟩
        · cases herror
        · cases herror
        · rw [List.mem_singleton.mp hlogin] at hfile ⊢
          rw [passwordFileOf_insert, if_pos hroom] at hfile
          rw [hsession]
          exact (Option.some.inj hfile).symm
  | _ => cases hop

end Handshake

/-! ## Runs -/

/-- The room that a task is about to store. -/
def Task.storing : Task → Move → Option CreatedRoom
  | .authenticating (.storeRoom _ _ _ created), .operate _ _ => some created
  | _, _ => none

/-- The step stores a room under a handle to which the handshake of `c` is bound by a login that
ran against a different file. -/
def ReplacesFileOf (app : AppState) (s : System) (label : Label) (c : ConnId) : Prop :=
  ∃ created ∈ (s.task label.connection).storing label.move,
    prunedRoom app label.now s.inner created.roomHandle = none ∧
    ∃ login ∈ (s.task c).boundLogins, login.roomHandle = created.roomHandle ∧
      login.loginSession.passwordFile ≠ created.passwordFile

instance (app : AppState) (s : System) (label : Label) (c : ConnId) :
    Decidable (ReplacesFileOf app s label c) :=
  inferInstanceAs (Decidable (∃ created ∈ _, _))

def ReplacesVerifiedFile (app : AppState) (s : System) (label : Label) : Prop :=
  ∃ c, c ≠ label.connection ∧ ReplacesFileOf app s label c

structure LoginsAgree (s : System) : Prop where
  ownRoom : ∀ c, (s.task c).LogsIntoOwnRoom
  agrees : ∀ c, (s.task c).Agrees s.inner

namespace LoginsAgree

variable {s t : System} {label : Label} {shown : Shown}

/-- The task of one connection has changed, and the rooms have not. -/
theorem update (h : LoginsAgree s) {c : ConnId} {task : Task} (hown : task.LogsIntoOwnRoom)
    (hagrees : task.Agrees s.inner) (hinner : t.inner = s.inner)
    (htask : t.task = Function.update s.task c task) : LoginsAgree t := by
  constructor <;> intro c' <;> rw [htask] <;> by_cases hc : c' = c
  · rw [hc, Function.update_self]
    exact hown
  · rw [Function.update_of_ne hc]
    exact h.ownRoom c'
  · rw [hc, Function.update_self, hinner]
    exact hagrees
  · rw [Function.update_of_ne hc, hinner]
    exact h.agrees c'

/-- Another task still agrees after an operation that stores nothing against it. -/
theorem agrees_of_applied (h : LoginsAgree s) {now : ℕ} {op : Operation} {outcome : Outcome}
    {inner' : StateInner} (call : Applied app now s.inner op outcome inner') {c : ConnId}
    (hstore : ∀ login ∈ (s.task c).boundLogins, ∀ file, op = .storeRoom login.roomHandle file →
      prunedRoom app now s.inner login.roomHandle = none →
      file = login.loginSession.passwordFile) : (s.task c).Agrees inner' := by
  intro login hlogin file hfile
  rcases passwordFileOf_origin call hfile with hbefore | ⟨hop, habsent⟩
  · exact h.agrees c login hlogin file hbefore
  · exact hstore login hlogin file hop habsent

theorem perform (h : LoginsAgree s) {op : Operation} {outcome : Outcome}
    {resume : Outcome → Task × List SocketFrame}
    (hperforms : Performs app label.connection (s.task label.connection) label.move op resume)
    (call : Applied app label.now s.inner op outcome t.inner)
    (htask : t.task = Function.update s.task label.connection (resume outcome).1)
    (hclean : ¬ ReplacesVerifiedFile app s label) : LoginsAgree t := by
  have hself : (resume outcome).1.LogsIntoOwnRoom ∧ (resume outcome).1.Agrees t.inner := by
    have hown := h.ownRoom label.connection
    generalize htask' : s.task label.connection = task at hperforms hown
    generalize hmove : label.move = move at hperforms
    cases hperforms with
    | handshake operation => exact Handshake.resume_agrees operation call hown
    | register =>
      cases call with
      | @register _ _ _ _ result => cases result <;> exact ⟨trivial, .of_unbound rfl⟩
    | signal =>
      cases call with
      | @forwardSignal _ _ _ _ result => cases result <;> exact ⟨trivial, .of_unbound rfl⟩
    | unregister =>
      cases call with
      | unregister => exact ⟨trivial, .of_unbound rfl⟩
  have hother (c : ConnId) (hc : c ≠ label.connection) : (s.task c).Agrees t.inner := by
    apply h.agrees_of_applied call
    intro login hlogin file hop habsent
    subst hop
    generalize htask' : s.task label.connection = task at hperforms
    generalize hmove : label.move = move at hperforms
    cases hperforms with
    | @handshake handshake rng token _ operation =>
      cases handshake with
      | storeRoom role clientAlias pendingLogin created =>
        obtain ⟨hroom, hfile⟩ := Operation.storeRoom.inj (Option.some.inj operation)
        by_contra hne
        rw [← hroom] at habsent
        rw [← hfile] at hne
        have hstoring : (s.task label.connection).storing label.move = some created := by
          rw [htask', hmove]
          rfl
        exact hclean ⟨c, hc, created, hstoring, habsent, login, hlogin, hroom.symm, Ne.symm hne⟩
      | _ => cases operation
  constructor <;> intro c <;> rw [htask] <;> by_cases hc : c = label.connection
  · rw [hc, Function.update_self]
    exact hself.1
  · rw [Function.update_of_ne hc]
    exact h.ownRoom c
  · rw [hc, Function.update_self]
    exact hself.2
  · rw [Function.update_of_ne hc]
    exact hother c hc

theorem step (h : LoginsAgree s) (taken : app.socketStep s label = some (t, shown))
    (hclean : ¬ ReplacesVerifiedFile app s label) : LoginsAgree t := by
  obtain ⟨request, hrequest, hserved⟩ := AppState.socketStep_eq_some taken
  cases hserved with
  | @goto task frames after =>
    have hown := h.ownRoom label.connection
    have hagrees := h.agrees label.connection
    have hgoes := Task.request_goto hrequest
    generalize label.move = move at hgoes
    apply h.update _ _ (by rw [after]) (by rw [after])
    · generalize s.task label.connection = task' at hgoes hown
      cases hgoes with
      | receive progress => exact (Handshake.keeps_receive progress hown).1
      | _ => trivial
    · generalize s.task label.connection = task' at hgoes hown hagrees
      cases hgoes with
      | receive progress =>
        exact fun login hlogin => hagrees login ((Handshake.keeps_receive progress hown).2 login hlogin)
      | _ => exact .of_unbound rfl
  | perform past call clock task_eq queue =>
    exact h.perform (Task.request_perform hrequest) (AppState.applied call) task_eq hclean
  | @deliver receiver message resume sent queue send after =>
    obtain ⟨-, henqueues⟩ := Task.request_deliver hrequest
    have hplain : (resume sent).boundLogins = [] ∧ (resume sent).LogsIntoOwnRoom := by
      generalize s.task label.connection = task at henqueues
      cases henqueues <;> cases sent <;> exact ⟨rfl, trivial⟩
    exact h.update hplain.2 (.of_unbound hplain.1) (by rw [after]) (by rw [after])
  | take next after =>
    rw [after]
    exact ⟨h.ownRoom, h.agrees⟩

end LoginsAgree

/-- The login that the finished handshake of a task was verified by. -/
def Task.verifiedLogin : Task → Option PendingLogin
  | .authenticating (.authenticated _ _ pendingLogin) => some pendingLogin
  | _ => none

/-- The step is a `register` that succeeds. -/
def Shown.registers : Shown → Bool
  | ⟨some (_, .registered (.ok _)), _⟩ => true
  | _ => false

/-- If the step registers its connection, it finds the file the login was verified against. -/
def RegistersVerified (t : SystemTransition) : Prop :=
  ∀ login ∈ (t.source.task t.label.connection).verifiedLogin, t.output.registers = true →
    passwordFileOf t.target.inner login.roomHandle = some login.loginSession.passwordFile

instance (t : SystemTransition) : Decidable (RegistersVerified t) :=
  inferInstanceAs (Decidable (∀ _ ∈ _, _))

theorem LoginsAgree.registersVerified {t : SystemTransition} (h : LoginsAgree t.source)
    (taken : app.socketStep t.source t.label = some (t.target, t.output)) :
    RegistersVerified t := by
  intro login hlogin hregisters
  obtain ⟨s, ⟨now, c, move⟩, shown, s'⟩ := t
  dsimp only at h taken hlogin hregisters ⊢
  obtain ⟨request, hrequest, hserved⟩ := AppState.socketStep_eq_some taken
  dsimp only at hrequest hserved
  have htask : ∃ role clientAlias,
      s.task c = .authenticating (.authenticated role clientAlias login) := by
    generalize s.task c = task at hlogin
    rw [Task.verifiedLogin.eq_def] at hlogin
    split at hlogin
    · obtain rfl := Option.some.inj hlogin
      exact ⟨_, _, rfl⟩
    · cases hlogin
  obtain ⟨role, clientAlias, htask⟩ := htask
  cases hserved with
  | @perform op resume outcome past call clock task_eq queue =>
    have hperforms := Task.request_perform hrequest
    rw [htask] at hperforms
    cases hperforms with
    | handshake operation => cases operation
    | register =>
      cases AppState.applied call with
      | @register _ _ _ _ result _ hregister =>
        rcases register_cases hregister with ⟨rfl, -⟩ | ⟨room, id, n, hroom, -, -, hinner⟩
        · cases hregisters
        · have hbound : login ∈ (s.task c).boundLogins := by
            rw [htask]
            exact List.mem_singleton_self _
          have hfile := h.agrees c login hbound room.passwordFile
            (by rw [passwordFileOf, lookup_of_prune hroom, Option.map_some])
          rw [hinner, passwordFileOf_insert, if_pos rfl, ← hfile]
          simp [RoomState.joined]
  | _ => cases hregisters

/-- In every run in which no step replaces a file that another handshake is bound to, every
registration that succeeds finds the very file its login was verified against. -/
theorem registers_verified_of_no_replacement {history : List SystemTransition} {s : System}
    (run : app.SystemRun history s)
    (hclean : ∀ t ∈ history, ¬ ReplacesVerifiedFile app t.source t.label) :
    ∀ t ∈ history, RegistersVerified t := by
  intro t ht
  obtain ⟨past, later, rfl⟩ := List.append_of_mem ht
  obtain ⟨before, taken⟩ := run.cut
  have hagree : LoginsAgree t.source := by
    apply before.invariant_of_forall (fun t => ¬ ReplacesVerifiedFile app t.source t.label)
    · exact ⟨fun _ => trivial, fun _ => .of_unbound rfl⟩
    · intro s label t shown h taken hclean
      exact h.step taken hclean
    · intro u hu
      exact hclean u (List.mem_append_left _ hu)
  exact hagree.registersVerified taken

/-- An agent creates a room, registers in it, and a zookeeper logs in. -/
def loginLabels : List Label :=
  Scenario.createRoom 0 1 "room" [7] none ++ [Scenario.register 0 1] ++
    Scenario.beginLogin 1 2 .zookeeper "room" [7] none ++
    [Scenario.finishLogin 2 [7], Scenario.register 2 2]

theorem registers_verified_of_no_replacement_login :
    ((reached idealApp.socketStep System.initial loginLabels).task 2).membership =
      .registered "room" .zookeeper "zookeeper-2" ∧
    ∀ t ∈ trace idealApp.socketStep System.initial loginLabels, RegistersVerified t := by
  have run : idealApp.SystemRun (trace _ _ loginLabels) _ := Run.of_labels rfl
  have hlabels : ∀ t ∈ trace idealApp.socketStep System.initial loginLabels,
      t.label.connection = 1 ∨ t.label.connection = 2 := by
    decide
  have hclean : ∀ t ∈ trace idealApp.socketStep System.initial loginLabels,
      ∀ c ∈ [1, 2], c ≠ t.label.connection → ¬ ReplacesFileOf idealApp t.source t.label c := by
    decide
  refine ⟨rfl, registers_verified_of_no_replacement run ?_⟩
  rintro t ht ⟨c, hc, created, hstoring, habsent, login, hlogin, hreplaces⟩
  by_cases hmem : c ∈ [1, 2]
  · exact hclean t ht c hmem hc ⟨created, hstoring, habsent, login, hlogin, hreplaces⟩
  · have hother : ∀ u ∈ trace idealApp.socketStep System.initial loginLabels,
        u.label.connection ≠ c := by
      intro u hu heq
      exact hmem (by simpa [← heq] using hlabels u hu)
    rw [idle_at_source run hother ht] at hlogin
    cases hlogin

/-- A zookeeper is about to finish its login when the room has been vacant for an hour, and an agent
with another secret creates it again before the zookeeper registers. -/
def replacementLabels : List Label :=
  Scenario.createRoom 0 1 "room" [7] none ++
    [Scenario.register 0 1, Scenario.enqueue 1, Scenario.enqueue 1] ++ Scenario.leave 1 1 ++
    Scenario.beginLogin 3600000000000 2 .zookeeper "room" [7] none ++
    Scenario.createRoom 3600000000001 3 "room" [8] none ++
    [Scenario.finishLogin 2 [7], Scenario.register 3600000000002 2]

theorem registration_against_replaced_file :
    ¬ ∀ history s, idealApp.SystemRun history s → ∀ t ∈ history, RegistersVerified t := by
  intro hall
  have run : idealApp.SystemRun (trace _ _ replacementLabels) _ := Run.of_labels rfl
  have hverified := hall _ _ run
  revert hverified
  decide

end ManInTheBox.Server
