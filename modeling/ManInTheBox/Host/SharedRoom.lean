import ManInTheBox.Host.Hosting
import ManInTheBox.Host.Position

/-! # Agents with one secret code share a room

As long as no agent looks for the room while another one is about to create it,
there is at most one creator, and everybody else finds the room and logs in.
-/

namespace ManInTheBox.Host

open Library Server

variable {crates : Crates} {app : AppState} {secretCode : Bytes} {roomHandle : String}
  {since now : ℕ} {inner inner' : StateInner}

/-- What an operation of one task means for the room. -/
inductive Advances (crates : Crates) (app : AppState) (secretCode : Bytes) (roomHandle : String)
    (since now : ℕ) (inner inner' : StateInner) : Task → Task → Prop
  | stays {task task'} (same : SameStage task task')
      (hosts : Hosts (GoodFile crates app.pake secretCode roomHandle) since roomHandle inner →
        Hosts (GoodFile crates app.pake secretCode roomHandle) since roomHandle inner')
      (space : HasSpace app.config roomHandle inner → HasSpace app.config roomHandle inner') :
      Advances crates app secretCode roomHandle since now inner inner' task task'
  | finds {task task'} (idle : creating task' = false)
      (was : Hosts (GoodFile crates app.pake secretCode roomHandle) since roomHandle inner)
      (hosts : Hosts (GoodFile crates app.pake secretCode roomHandle) since roomHandle inner') :
      Advances crates app secretCode roomHandle since now inner inner' task task'
  | misses {role request clientAlias task'} (outside : admitted task' = false)
      (missing : (pruneExpiredRooms app.config now inner).rooms.lookup roomHandle = none)
      (was : HasSpace app.config roomHandle inner)
      (space : HasSpace app.config roomHandle inner') :
      Advances crates app secretCode roomHandle since now inner inner'
        (.authenticating (.candidateLogin role roomHandle request clientAlias)) task'
  | stores {task task'} (creator : creating task = true) (idle : creating task' = false)
      (hosts : Hosts (GoodFile crates app.pake secretCode roomHandle) since roomHandle inner') :
      Advances crates app secretCode roomHandle since now inner inner' task task'

/-- A login that finds the room of the agents is offered to the client. -/
theorem candidateLogin_of_hosts {client : ClientSession} {request : Bytes} {rng : ℕ}
    {token : String} {result : Except String (Option PendingLogin)}
    (hcorrect : PakeCorrect crates app.pake secretCode)
    (login : LoggingIn crates secretCode client request)
    (h : Hosts (GoodFile crates app.pake secretCode roomHandle) since roomHandle inner)
    (intime : now - since < app.config.roomTtl)
    (hcall : candidateLoginForRoom app now roomHandle request rng (.ok token) inner =
      (result, inner')) :
    Hosts (GoodFile crates app.pake secretCode roomHandle) since roomHandle inner' ∧
      ∃ pending, result = .ok (some pending) ∧
        Offered crates app.pake secretCode roomHandle client pending := by
  obtain rfl := candidateLoginForRoom_inner hcall
  refine ⟨h.prune intime, ?_⟩
  obtain ⟨room, hroom, hgood, -, -⟩ := h.prune intime
  obtain ⟨rng', state, -, hstart⟩ := login.started
  obtain ⟨response, hresponse⟩ := hcorrect.offers _ _ rng' _ state rng hgood hstart
  refine ⟨⟨token, roomHandle, response, ⟨rng, asBytes roomHandle, room.passwordFile, request⟩⟩,
    ?_, rfl, rng, _, request, rfl, hgood, login, hresponse⟩
  simp only [candidateLoginForRoom, hroom] at hcall
  rw [← (Prod.mk.inj hcall).1]
  simp [ServerPake.startLogin, hresponse, Except.map, bind, Except.bind, pure, Except.pure]

theorem candidateLogin_of_hasSpace {request : Bytes} {rng : ℕ} {token : Except String String}
    {result : Except String (Option PendingLogin)} (h : HasSpace app.config roomHandle inner)
    (hcall : candidateLoginForRoom app now roomHandle request rng token inner =
      (result, inner')) :
    HasSpace app.config roomHandle inner' ∧ result = .ok none := by
  obtain rfl := candidateLoginForRoom_inner hcall
  refine ⟨h.prune now, ?_⟩
  simp only [candidateLoginForRoom, (h.prune now).1] at hcall
  exact (Prod.mk.inj hcall).1.symm

/-- An operation of a handshake turns out well and leads to the next position. -/
theorem Position.operate {agent : Agent} {inbox : List ClientMessage} {task : Task}
    {frames : List SocketFrame} {queue : Queue} {rng : ℕ} {token : String} {c : ConnId}
    {request : Request} (hcorrect : PakeCorrect crates app.pake secretCode)
    (hallow : app.config.allowAgentRoomCreation = true)
    (intime : now - since < app.config.roomTtl)
    (hplace : Hosts (GoodFile crates app.pake secretCode roomHandle) since roomHandle inner ∨
      HasSpace app.config roomHandle inner)
    (hcreating : creating task = true → HasSpace app.config roomHandle inner)
    (h : Position crates app.pake secretCode roomHandle agent inbox task frames queue)
    (hrequest : task.request app c (.operate rng (.ok token)) = some request) :
    ∃ op resume, request = .perform op resume ∧ op.changesMembership = false ∧
      ∀ outcome, since ≤ now →
      Applied app now inner op outcome inner' →
      (∀ ip error, op = .checkAuthRateLimit ip → outcome ≠ .checked (.error error)) →
      Position crates app.pake secretCode roomHandle agent inbox (resume outcome).1
        (frames ++ (resume outcome).2) queue ∧
      (resume outcome).1.membership = .fresh ∧
      Advances crates app secretCode roomHandle since now inner inner' task (resume outcome).1 := by
  have hchecked (ip : IpAddr) (outcome : Outcome)
      (applied : Applied app now inner (.checkAuthRateLimit ip) outcome inner')
      (hlimit : ∀ ip' error, Operation.checkAuthRateLimit ip = .checkAuthRateLimit ip' →
        outcome ≠ .checked (.error error)) :
      outcome = .checked (.ok ()) ∧ Advances crates app secretCode roomHandle since now inner inner'
        (.authenticating (.checkRateLimit ip)) (.authenticating .receiveInit) := by
    cases applied with
    | @checkAuthRateLimit _ result _ hcheck =>
      have hrooms := checkAuthRateLimit_rooms hcheck
      constructor
      · cases result with
        | error error => exact absurd rfl (hlimit ip error rfl)
        | ok _ => rfl
      · exact .stays ⟨rfl, rfl, rfl⟩ (fun hosts => (hosts.prune intime).congr hrooms)
          fun space => (space.prune now).congr hrooms
  cases h with
  | arriving arriving =>
    cases arriving with
    | checkRateLimit ip =>
      obtain rfl := Option.some.inj hrequest
      refine ⟨_, _, rfl, rfl, fun outcome hsince applied hlimit => ?_⟩
      obtain ⟨rfl, hadvances⟩ := hchecked ip outcome applied hlimit
      exact ⟨.arriving .receiveInit, rfl, hadvances⟩
    | _ => cases hrequest
  | greeting arriving login =>
    cases arriving with
    | checkRateLimit ip =>
      obtain rfl := Option.some.inj hrequest
      refine ⟨_, _, rfl, rfl, fun outcome hsince applied hlimit => ?_⟩
      obtain ⟨rfl, hadvances⟩ := hchecked ip outcome applied hlimit
      exact ⟨.greeting .receiveInit login, rfl, hadvances⟩
    | _ => cases hrequest
  | lookingUp login =>
    obtain rfl := Option.some.inj hrequest
    refine ⟨_, _, rfl, rfl, fun outcome hsince applied hlimit => ?_⟩
    cases applied with
    | candidateLoginForRoom hcall =>
      rcases hplace with hosts | space
      · obtain ⟨hosts', pending, rfl, offered⟩ :=
          candidateLogin_of_hosts hcorrect login hosts intime hcall
        exact ⟨.offered offered nofun, rfl, .finds rfl hosts hosts'⟩
      · obtain ⟨space', rfl⟩ := candidateLogin_of_hasSpace space hcall
        simp only [Task.progress, Handshake.resume, Handshake.orFail, hallow]
        exact ⟨.ensuring login.code, rfl, .misses rfl (space.prune now).1 space space'⟩
  | ensuring code =>
    obtain rfl := Option.some.inj hrequest
    refine ⟨_, _, rfl, rfl, fun outcome hsince applied hlimit => ?_⟩
    cases applied with
    | ensureRoomCapacity hcall =>
      have space := hcreating rfl
      obtain ⟨rfl, space'⟩ := ensureRoomCapacity_of_hasSpace space hcall
      exact ⟨.required code, rfl, .stays ⟨rfl, rfl, rfl⟩ (fun hosts => absurd space hosts.not_hasSpace)
        fun _ => space'⟩
  | storing room created =>
    obtain rfl := Option.some.inj hrequest
    refine ⟨_, _, rfl, rfl, fun outcome hsince applied hlimit => ?_⟩
    obtain ⟨hhandle, hgood⟩ := created _ rfl
    cases applied with
    | storeRoom hcall =>
      rw [hhandle] at hcall
      obtain ⟨rfl, hosts⟩ := storeRoom_of_hasSpace (hcreating rfl) hgood hsince hcall
      exact ⟨.authenticated room, rfl, .stores rfl rfl hosts⟩
  | _ => cases hrequest

/-- A handshake that has run to its end is accepted into the room. -/
theorem Position.register {agent : Agent} {inbox : List ClientMessage} {task : Task}
    {frames : List SocketFrame} {queue : Queue} {c : ConnId} {request : Request}
    (intime : now - since < app.config.roomTtl)
    (hadmitted : admitted task = true →
      Hosts (GoodFile crates app.pake secretCode roomHandle) since roomHandle inner)
    (h : Position crates app.pake secretCode roomHandle agent inbox task frames queue)
    (hrequest : task.request app c .register = some request) :
    ∃ preferredClientId resume,
      request = .perform (.register roomHandle .agent preferredClientId ⟨c⟩) resume ∧
      admitted task = true ∧ ∀ outcome, since ≤ now → Applied app now inner
        (.register roomHandle .agent preferredClientId ⟨c⟩) outcome inner' →
        Position crates app.pake secretCode roomHandle agent inbox (resume outcome).1
          (frames ++ (resume outcome).2) queue ∧
        creating (resume outcome).1 = false ∧
        Hosts (GoodFile crates app.pake secretCode roomHandle) since roomHandle inner' ∧
        ∃ id, (resume outcome).1.membership = .registered roomHandle .agent id ∧
          handleAt inner' roomHandle .agent id = some ⟨c⟩ := by
  cases h with
  | arriving arriving => cases arriving <;> cases hrequest
  | greeting arriving => cases arriving <;> cases hrequest
  | authenticated room =>
    subst room
    obtain rfl := Option.some.inj hrequest
    refine ⟨_, _, rfl, rfl, fun outcome hsince applied => ?_⟩
    cases applied with
    | register hregister =>
      obtain ⟨hosts, outcome, agents, zookeepers, rfl, hinitial, hbroadcasts⟩ :=
        register_of_hosts (hadmitted rfl) intime hsince hregister
      obtain ⟨-, hhandles, -⟩ := register_ok hregister
      simp only [Task.afterRegister, hinitial, hbroadcasts]
      refine ⟨.announcing, rfl, hosts, outcome.clientId, rfl, ?_⟩
      rw [hhandles, if_pos ⟨rfl, rfl, rfl⟩]
  | _ => cases hrequest

/-- Nobody loses a seat when somebody registers. -/
theorem register_keeps {preferredClientId : Option String} {handle handle' : ClientHandle}
    {outcome : Outcome} {role role' : ClientRole} {id r : String}
    (applied : Applied app now inner (.register roomHandle role preferredClientId handle) outcome
      inner')
    (h : handleAt inner r role' id = some handle') : handleAt inner' r role' id = some handle' := by
  cases applied with
  | @register _ _ _ _ result _ hregister =>
    cases result with
    | error error => rw [(register_error hregister).2.1, handleAt_prune, h]
    | ok outcome =>
      obtain ⟨hfree, hhandles, -⟩ := register_ok hregister
      rw [hhandles, if_neg, h]
      rintro ⟨rfl, rfl, rfl⟩
      rw [hfree] at h
      cases h

/-! ## The meeting -/

/-- What holds whenever the agents have moved: at most one of them is about to create the room, and
only while there is none. -/
structure Gathering (crates : Crates) (app : AppState) (secretCode : Bytes) (roomHandle : String)
    (since : ℕ) (m : Meeting) : Prop where
  clock : since ≤ m.system.clock
  position : ∀ c, Position crates app.pake secretCode roomHandle (m.agent c) (m.toServer c)
    (m.system.task c) (m.toAgent c) (m.system.queue c)
  place : Hosts (GoodFile crates app.pake secretCode roomHandle) since roomHandle m.system.inner ∨
    HasSpace app.config roomHandle m.system.inner
  admits : ∀ c, admitted (m.system.task c) = true →
    Hosts (GoodFile crates app.pake secretCode roomHandle) since roomHandle m.system.inner
  creates : ∀ c, creating (m.system.task c) = true → HasSpace app.config roomHandle m.system.inner
  alone : ∀ c c', creating (m.system.task c) = true → creating (m.system.task c') = true → c = c'
  seated : ∀ c r role id, (m.system.task c).membership = .registered r role id →
    handleAt m.system.inner r role id = some ⟨c⟩

/-- The step has been turned away for too many attempts. -/
def hitsRateLimit (shown : Shown) : Bool :=
  match shown.call with
  | some (.checkAuthRateLimit _, .checked (.error _)) => true
  | _ => false

/-- The step looks for the room and finds none. -/
def findsNoRoom (app : AppState) (m : Meeting) (label : MeetingLabel) : Bool :=
  match label.act, m.system.task label.connection with
  | .operate _ _, .authenticating (.candidateLogin _ roomHandle _ _) =>
    ((pruneExpiredRooms app.config label.now m.system.inner).rooms.lookup roomHandle).isNone
  | _, _ => false

/-- The step finds no room, while another agent that found none is still on its way to
`store_room`. -/
def LooksUpBeside (app : AppState) (m : Meeting) (label : MeetingLabel) : Prop :=
  findsNoRoom app m label = true ∧ ∃ c, creating (m.system.task c) = true

/-- Only the connection of the step has changed. -/
structure MovesOnly (m m' : Meeting) (c : ConnId) (task : Task) : Prop where
  task : m'.system.task = Function.update m.system.task c task
  agent : ∀ c', c' ≠ c → m'.agent c' = m.agent c'
  toServer : ∀ c', c' ≠ c → m'.toServer c' = m.toServer c'
  toAgent : ∀ c', c' ≠ c → m'.toAgent c' = m.toAgent c'
  queue : ∀ c', c' ≠ c → m'.system.queue c' = m.system.queue c'

theorem MovesOnly.stage {m m' : Meeting} {c : ConnId} {task : Task} (h : MovesOnly m m' c task)
    {β : Type} (f : Task → β) (c' : ConnId) :
    f (m'.system.task c') = if c' = c then f task else f (m.system.task c') := by
  rw [h.task, Function.update_apply]
  split_ifs <;> rfl

theorem MovesOnly.stage_eq {m m' : Meeting} {c : ConnId} {task : Task} (h : MovesOnly m m' c task)
    {β : Type} {f : Task → β} (hf : f task = f (m.system.task c)) (c' : ConnId) :
    f (m'.system.task c') = f (m.system.task c') := by
  rw [h.stage f]
  split_ifs with hc
  · rw [hf, hc]
  · rfl

theorem Meeting.movesOnly_afterServer {m : Meeting} {c : ConnId} {system : System} {task : Task}
    (htask : system.task = Function.update m.system.task c task)
    (hqueue : ∀ c', c' ≠ c → system.queue c' = m.system.queue c') (inbox : List ClientMessage)
    (frames : List SocketFrame) : MovesOnly m (m.afterServer c system inbox frames) c task where
  task := htask
  agent _ _ := rfl
  toServer _ hc := Function.update_of_ne hc _ _
  toAgent _ hc := Function.update_of_ne hc _ _
  queue := hqueue

namespace Gathering

variable {m m' : Meeting} {c : ConnId} {task : Task}

theorem positions (h : Gathering crates app secretCode roomHandle since m)
    (honly : MovesOnly m m' c task)
    (hposition : Position crates app.pake secretCode roomHandle (m'.agent c) (m'.toServer c) task
      (m'.toAgent c) (m'.system.queue c)) (c' : ConnId) :
    Position crates app.pake secretCode roomHandle (m'.agent c') (m'.toServer c')
      (m'.system.task c') (m'.toAgent c') (m'.system.queue c') := by
  by_cases hc : c' = c
  · rw [hc, honly.task, Function.update_self]
    exact hposition
  · rw [honly.task, Function.update_of_ne hc, honly.agent c' hc, honly.toServer c' hc,
      honly.toAgent c' hc, honly.queue c' hc]
    exact h.position c'

/-- A step that leaves the shared state alone. -/
theorem of_same (h : Gathering crates app secretCode roomHandle since m)
    (honly : MovesOnly m m' c task) (hinner : m'.system.inner = m.system.inner)
    (hclock : m'.system.clock = m.system.clock) (hsame : SameStage (m.system.task c) task)
    (hposition : Position crates app.pake secretCode roomHandle (m'.agent c) (m'.toServer c) task
      (m'.toAgent c) (m'.system.queue c)) :
    Gathering crates app secretCode roomHandle since m' where
  clock := by rw [hclock]; exact h.clock
  position := h.positions honly hposition
  place := by rw [hinner]; exact h.place
  admits c' hc' := by
    rw [honly.stage_eq hsame.admitted] at hc'
    rw [hinner]
    exact h.admits c' hc'
  creates c' hc' := by
    rw [honly.stage_eq hsame.creating] at hc'
    rw [hinner]
    exact h.creates c' hc'
  alone c' c'' hc' hc'' := by
    rw [honly.stage_eq hsame.creating] at hc' hc''
    exact h.alone c' c'' hc' hc''
  seated c' r role id hc' := by
    rw [honly.stage_eq hsame.membership] at hc'
    rw [hinner]
    exact h.seated c' r role id hc'

theorem of_same_server {system : System} {inbox : List ClientMessage} {frames : List SocketFrame}
    (h : Gathering crates app secretCode roomHandle since m)
    (hinner : system.inner = m.system.inner) (hclock : system.clock = m.system.clock)
    (htask : system.task = Function.update m.system.task c task)
    (hqueue : ∀ c', c' ≠ c → system.queue c' = m.system.queue c')
    (hsame : SameStage (m.system.task c) task)
    (hposition : Position crates app.pake secretCode roomHandle (m.agent c) inbox task
      (m.toAgent c ++ frames) (system.queue c)) :
    Gathering crates app secretCode roomHandle since (m.afterServer c system inbox frames) := by
  apply h.of_same (Meeting.movesOnly_afterServer htask hqueue inbox frames) hinner hclock hsame
  simpa only [Meeting.afterServer, Function.update_self] using hposition

/-- While the room is there nobody creates it. -/
theorem not_creating (h : Gathering crates app secretCode roomHandle since m)
    (hosts : Hosts (GoodFile crates app.pake secretCode roomHandle) since roomHandle m.system.inner)
    (c : ConnId) : creating (m.system.task c) = false := by
  by_contra hcreating
  exact hosts.not_hasSpace (h.creates c (Bool.not_eq_false _ ▸ hcreating))

/-- While there is space for the room nobody has been admitted to it. -/
theorem not_admitted (h : Gathering crates app secretCode roomHandle since m)
    (space : HasSpace app.config roomHandle m.system.inner) (c : ConnId) :
    Host.admitted (m.system.task c) = false := by
  by_contra hadmitted
  exact (h.admits c (Bool.not_eq_false _ ▸ hadmitted)).not_hasSpace space

/-- An operation of a handshake. -/
theorem of_advances (h : Gathering crates app secretCode roomHandle since m)
    (honly : MovesOnly m m' c task) (hclock : since ≤ m'.system.clock)
    (hseats : ∀ r role id handle, handleAt m.system.inner r role id = some handle →
      handleAt m'.system.inner r role id = some handle)
    (hfresh : task.membership = .fresh)
    (hposition : Position crates app.pake secretCode roomHandle (m'.agent c) (m'.toServer c) task
      (m'.toAgent c) (m'.system.queue c))
    (hadvances : Advances crates app secretCode roomHandle since now m.system.inner m'.system.inner
      (m.system.task c) task)
    (hmisses : ∀ role request clientAlias,
      m.system.task c = .authenticating (.candidateLogin role roomHandle request clientAlias) →
      (pruneExpiredRooms app.config now m.system.inner).rooms.lookup roomHandle = none →
      ∀ c', creating (m.system.task c') = false) :
    Gathering crates app secretCode roomHandle since m' := by
  have hpositions := h.positions honly hposition
  have hseated : ∀ c' r role id, (m'.system.task c').membership = .registered r role id →
      handleAt m'.system.inner r role id = some ⟨c'⟩ := by
    intro c' r role id hc'
    rw [honly.stage Task.membership] at hc'
    split_ifs at hc' with hself
    · rw [hfresh] at hc'
      cases hc'
    · exact hseats r role id ⟨c'⟩ (h.seated c' r role id hc')
  -- once the room is there, a creator can only be left among the others
  have hhosted (hosts : Hosts (GoodFile crates app.pake secretCode roomHandle) since roomHandle
      m'.system.inner) (idle : creating task = false)
      (hnobody : ∀ c', c' ≠ c → creating (m.system.task c') = false) :
      Gathering crates app secretCode roomHandle since m' := by
    have hidle : ∀ c', creating (m'.system.task c') ≠ true := by
      intro c' hc'
      rw [honly.stage creating] at hc'
      split_ifs at hc' with hself
      · simp [idle] at hc'
      · simp [hnobody c' hself] at hc'
    exact ⟨hclock, hpositions, .inl hosts, fun _ _ => hosts,
      fun c' hc' => absurd hc' (hidle c'), fun c' _ hc' => absurd hc' (hidle c'), hseated⟩
  generalize htask : m.system.task c = before at hadvances
  cases hadvances with
  | stays same hosts space =>
    subst htask
    constructor
    · exact hclock
    · exact hpositions
    · exact h.place.imp hosts space
    · intro c' hc'
      rw [honly.stage_eq same.admitted] at hc'
      exact hosts (h.admits c' hc')
    · intro c' hc'
      rw [honly.stage_eq same.creating] at hc'
      exact space (h.creates c' hc')
    · intro c' c'' hc' hc''
      rw [honly.stage_eq same.creating] at hc' hc''
      exact h.alone c' c'' hc' hc''
    · exact hseated
  | finds idle was hosts => exact hhosted hosts idle fun c' _ => h.not_creating was c'
  | misses outside missing was space =>
    have hnobody := hmisses _ _ _ htask missing
    have halone : ∀ c', creating (m'.system.task c') = true → c' = c := by
      intro c' hc'
      rw [honly.stage creating] at hc'
      split_ifs at hc' with hself
      · exact hself
      · simp [hnobody c'] at hc'
    constructor
    · exact hclock
    · exact hpositions
    · exact .inr space
    · intro c' hc'
      rw [honly.stage admitted] at hc'
      split_ifs at hc' with hself
      · simp [outside] at hc'
      · simp [h.not_admitted was c'] at hc'
    · exact fun _ _ => space
    · intro c' c'' hc' hc''
      rw [halone c' hc', halone c'' hc'']
    · exact hseated
  | stores creator idle hosts =>
    apply hhosted hosts idle
    intro c' hne
    by_contra hcreating
    exact hne (h.alone c' c (Bool.not_eq_false _ ▸ hcreating) (htask ▸ creator))

/-- The `register` of an admitted agent. -/
theorem of_register (h : Gathering crates app secretCode roomHandle since m)
    (honly : MovesOnly m m' c task) (hclock : since ≤ m'.system.clock)
    (hseats : ∀ r role id handle, handleAt m.system.inner r role id = some handle →
      handleAt m'.system.inner r role id = some handle)
    (hadmitted : admitted (m.system.task c) = true) (hidle : creating task = false)
    (hosts : Hosts (GoodFile crates app.pake secretCode roomHandle) since roomHandle m'.system.inner)
    {id : String} (hmembership : task.membership = .registered roomHandle .agent id)
    (hseat : handleAt m'.system.inner roomHandle .agent id = some ⟨c⟩)
    (hposition : Position crates app.pake secretCode roomHandle (m'.agent c) (m'.toServer c) task
      (m'.toAgent c) (m'.system.queue c)) :
    Gathering crates app secretCode roomHandle since m' := by
  have hidle : ∀ c', creating (m'.system.task c') ≠ true := by
    intro c' hc'
    rw [honly.stage creating] at hc'
    split_ifs at hc' with hself
    · simp [hidle] at hc'
    · simp [h.not_creating (h.admits c hadmitted) c'] at hc'
  constructor
  · exact hclock
  · exact h.positions honly hposition
  · exact .inl hosts
  · exact fun _ _ => hosts
  · exact fun c' hc' => absurd hc' (hidle c')
  · exact fun c' _ hc' => absurd hc' (hidle c')
  · intro c' r role id' hc'
    rw [honly.stage Task.membership] at hc'
    split_ifs at hc' with hself
    · rw [hmembership] at hc'
      obtain ⟨rfl, rfl, rfl⟩ := Membership.registered.inj hc'
      rw [hself, hseat]
    · exact hseats r role id' ⟨c'⟩ (h.seated c' r role id' hc')

/-- A step of an agent. -/
theorem agentStep {options : AgentOptions} {act : Act} {progress : Agent.Progress}
    {inbox : List SocketFrame} (hcorrect : PakeCorrect crates app.pake secretCode)
    (hnew : ClientSession.new options.secretCode = .ok ⟨secretCode, none, none⟩)
    (hroom : deriveRoomHandle crates.sha256 options.secretCode = roomHandle)
    (h : Gathering crates app secretCode roomHandle since m)
    (hact : (m.agent c).act crates options (m.toAgent c) (m.system.task c).isClosed act =
      some (progress, inbox)) :
    Gathering crates app secretCode roomHandle since (m.afterAgent c progress inbox) := by
  have hposition := h.position c
  have honly : MovesOnly m (m.afterAgent c progress inbox) c (m.system.task c) := by
    constructor
    · exact (Function.update_eq_self c m.system.task).symm
    · exact fun c' hc => Function.update_of_ne hc _ _
    · exact fun c' hc => Function.update_of_ne hc _ _
    · exact fun c' hc => Function.update_of_ne hc _ _
    · exact fun c' hc => rfl
  apply h.of_same honly rfl rfl ⟨rfl, rfl, rfl⟩
  simp only [Meeting.afterAgent, Function.update_self]
  generalize m.agent c = agent at hposition hact
  generalize m.toAgent c = frames at hposition hact
  rw [hposition.task_open] at hact
  cases act with
  | start draws =>
    cases agent with
    | ready =>
      obtain ⟨rfl, rfl⟩ := Prod.mk.inj (Option.some.inj hact)
      exact hposition.start hcorrect hnew hroom
    | _ => cases hact
  | read draws =>
    cases agent with
    | waiting client =>
      cases frames with
      | nil => cases hact
      | cons frame frames =>
        obtain ⟨rfl, rfl⟩ := Prod.mk.inj (Option.some.inj hact)
        exact hposition.read hcorrect
    | _ => cases hact
  | _ => cases hact

/-- A step of a task. -/
theorem serverStep {label : MeetingLabel} {move : Move} {inbox : List ClientMessage}
    {system : System} {shown : Shown} (hcorrect : PakeCorrect crates app.pake secretCode)
    (hallow : app.config.allowAgentRoomCreation = true)
    (hroom : normalizeRoomHandle roomHandle = .ok roomHandle)
    (h : Gathering crates app secretCode roomHandle since m)
    (hmove : label.act.serverMove (m.toServer label.connection) = some (move, inbox))
    (taken : app.socketStep m.system ⟨label.now, label.connection, move⟩ = some (system, shown))
    (intime : label.now - since < app.config.roomTtl)
    (hlimit : hitsRateLimit shown = false) (hclean : ¬ LooksUpBeside app m label) :
    Gathering crates app secretCode roomHandle since
      (m.afterServer label.connection system inbox shown.frames) := by
  have hposition := h.position label.connection
  obtain ⟨request, hrequest, hserved⟩ := AppState.socketStep_eq_some taken
  dsimp only at hrequest hserved
  generalize hact : label.act = act at hmove
  cases act with
  | start draws => cases hmove
  | read draws => cases hmove
  | accept ip =>
    obtain ⟨rfl, rfl⟩ := Prod.mk.inj (Option.some.inj hmove)
    obtain ⟨rfl, hsame, hposition'⟩ := hposition.accept hrequest
    cases hserved with
    | goto after =>
      subst after
      exact h.of_same_server rfl rfl rfl (fun _ _ => rfl) hsame (by simpa using hposition')
  | receive rng token =>
    generalize hinbox : m.toServer label.connection = inbox₀ at hmove hposition
    cases inbox₀ with
    | nil => cases hmove
    | cons message rest =>
      obtain ⟨rfl, rfl⟩ := Prod.mk.inj (Option.some.inj hmove)
      obtain ⟨task, out, rfl, hsame, hposition'⟩ := hposition.receive hcorrect hroom hrequest
      cases hserved with
      | goto after =>
        subst after
        exact h.of_same_server rfl rfl rfl (fun _ _ => rfl) hsame hposition'
  | enqueue =>
    obtain ⟨rfl, rfl⟩ := Prod.mk.inj (Option.some.inj hmove)
    rcases hposition.enqueue hrequest with ⟨task, rfl, hsame, hposition'⟩ |
      ⟨message, resume, rfl, hdelivered⟩
    · cases hserved with
      | goto after =>
        subst after
        exact h.of_same_server rfl rfl rfl (fun _ _ => rfl) hsame (by simpa using hposition')
    · cases hserved with
      | deliver send after =>
        subst after
        obtain ⟨hsame, hposition'⟩ := hdelivered _ _ send
        exact h.of_same_server rfl rfl rfl (fun _ hc => Function.update_of_ne hc _ _) hsame
          (by simpa using hposition')
  | take =>
    obtain ⟨rfl, rfl⟩ := Prod.mk.inj (Option.some.inj hmove)
    obtain ⟨rfl, htaken⟩ := hposition.take hrequest
    cases hserved with
    | take next after =>
      subst after
      have hself := (Function.update_eq_self label.connection m.system.task).symm
      exact h.of_same_server rfl rfl hself (fun _ hc => Function.update_of_ne hc _ _)
        ⟨rfl, rfl, rfl⟩ (by simpa using htaken _ next)
  | operate rng token =>
    obtain ⟨rfl, rfl⟩ := Prod.mk.inj (Option.some.inj hmove)
    obtain ⟨op, resume, rfl, hmembership, hperformed⟩ :=
      hposition.operate hcorrect hallow intime h.place (h.creates _) hrequest
    cases hserved with
    | @perform _ _ outcome past call clock task_eq queue =>
      have hsince : since ≤ label.now := h.clock.trans past
      have applied := AppState.applied call
      obtain ⟨hposition', hfresh, hadvances⟩ := hperformed outcome hsince applied
        fun ip error hop hout => by simp [hitsRateLimit, hop, hout] at hlimit
      have honly := Meeting.movesOnly_afterServer task_eq (fun c' _ => by rw [queue])
        (m.toServer label.connection) (resume outcome).2
      apply h.of_advances honly
      · exact clock ▸ hsince
      · intro r role id handle hhandle
        exact (handleAt_of_applied applied hmembership r role id).trans hhandle
      · exact hfresh
      · simpa only [Meeting.afterServer, Function.update_self, queue] using hposition'
      · exact hadvances
      · intro role request clientAlias htask hmissing c'
        by_contra hcreating
        exact hclean ⟨by simp [findsNoRoom, hact, htask, hmissing], c',
          Bool.not_eq_false _ ▸ hcreating⟩
  | register =>
    obtain ⟨rfl, rfl⟩ := Prod.mk.inj (Option.some.inj hmove)
    obtain ⟨preferredClientId, resume, rfl, hadmitted, hregistered⟩ :=
      hposition.register intime (h.admits _) hrequest
    cases hserved with
    | @perform _ _ outcome past call clock task_eq queue =>
      have hsince : since ≤ label.now := h.clock.trans past
      have applied := AppState.applied call
      obtain ⟨hposition', hidle, hosts, id, hmembership, hseat⟩ :=
        hregistered outcome hsince applied
      have honly := Meeting.movesOnly_afterServer task_eq (fun c' _ => by rw [queue])
        (m.toServer label.connection) (resume outcome).2
      apply h.of_register honly
      · exact clock ▸ hsince
      · intro r role id handle hhandle
        exact register_keeps applied hhandle
      · exact hadmitted
      · exact hidle
      · exact hosts
      · exact hmembership
      · exact hseat
      · simpa only [Meeting.afterServer, Function.update_self, queue] using hposition'

end Gathering

abbrev MeetingRun (app : AppState) (crates : Crates) (options : ConnId → AgentOptions)
    (inner : StateInner) (clock : ℕ) := Run (meetingStep app crates options)
  (Meeting.opening inner clock)

/-- No rate limit is hit, and no room gets older than its time to live. -/
structure Undisturbed (app : AppState) (since : ℕ) (history : List MeetingTransition) : Prop where
  limits : ∀ t ∈ history, hitsRateLimit t.output = false
  times : ∀ t ∈ history, t.label.now - since < app.config.roomTtl

variable {options : ConnId → AgentOptions} {code : String} {clock : ℕ}
  {history : List MeetingTransition} {m : Meeting}

theorem gathering_of_run (hcorrect : PakeCorrect crates app.pake (asBytes (trim code)))
    (hallow : app.config.allowAgentRoomCreation = true) (hcode : (trim code).isEmpty = false)
    (hsame : ∀ c, (options c).secretCode = code) (hsince : since ≤ clock)
    (hplace : Hosts (GoodFile crates app.pake (asBytes (trim code))
        (deriveRoomHandle crates.sha256 code)) since (deriveRoomHandle crates.sha256 code) inner ∨
      HasSpace app.config (deriveRoomHandle crates.sha256 code) inner)
    (run : MeetingRun app crates options inner clock history m)
    (hundisturbed : Undisturbed app since history)
    (hclean : ∀ t ∈ history, ¬ LooksUpBeside app t.source t.label) :
    Gathering crates app (asBytes (trim code)) (deriveRoomHandle crates.sha256 code) since m := by
  have hnew : ClientSession.new code = .ok ⟨asBytes (trim code), none, none⟩ := by
    simp [ClientSession.new, hcode]
  apply run.invariant_of_forall (fun t => hitsRateLimit t.output = false ∧
    t.label.now - since < app.config.roomTtl ∧ ¬ LooksUpBeside app t.source t.label)
  · constructor
    · exact hsince
    · exact fun _ => .arriving .idle
    · exact hplace
    all_goals nofun
  · intro m label m' shown h taken hstep
    obtain ⟨hlimits, htimes, hfirst⟩ := hstep
    cases meetingStep_eq_some taken with
    | agent hact =>
      exact h.agentStep hcorrect (by rw [hsame, hnew]) (by rw [hsame]) hact
    | server hmove hserver =>
      exact h.serverStep hcorrect hallow (normalizeRoomHandle_deriveRoomHandle _ _) hmove hserver
        htimes hlimits hfirst
  · exact fun t ht => ⟨hundisturbed.limits t ht, hundisturbed.times t ht, hclean t ht⟩

/-- The frames of a step are on their way to the agent. -/
theorem frames_toAgent {m' : Meeting} {label : MeetingLabel} {shown : Shown} {frame : SocketFrame}
    (taken : meetingStep app crates options m label = some (m', shown))
    (hframe : frame ∈ shown.frames) : frame ∈ m'.toAgent label.connection := by
  cases meetingStep_eq_some taken with
  | agent hact => cases hframe
  | server hmove taken => simp [Meeting.afterServer, hframe]

/-- The function of the agent has returned. -/
def Agent.returned : Agent → Bool
  | .ready => false
  | .waiting _ => false
  | _ => true

/-- The task has come to the end of its handshake. -/
def handshakeEnded : Task → Bool
  | .idle => false
  | .authenticating _ => false
  | _ => true

/-- The agent is in the room and, if it has been told, knows the id that it has there. -/
def Accepted (m : Meeting) (roomHandle : String) (c : ConnId) : Prop :=
  ∃ id, handleAt m.system.inner roomHandle .agent id = some ⟨c⟩ ∧
    ((m.agent c).returned = true → ∃ agents zookeepers,
      m.agent c = .connected (.connected id .agent agents zookeepers))

theorem Gathering.accepted (h : Gathering crates app secretCode roomHandle since m) {c : ConnId}
    (hended : (m.agent c).returned = true ∨ handshakeEnded (m.system.task c) = true) :
    Accepted m roomHandle c := by
  have hposition := h.position c
  have hseated := h.seated c
  rw [Accepted]
  generalize m.agent c = agent at *
  generalize m.system.task c = task at *
  generalize m.toServer c = inbox at hposition
  generalize m.toAgent c = frames at hposition
  generalize m.system.queue c = queue at hposition
  cases hposition with
  | arriving arriving => cases arriving <;> simp [Agent.returned, handshakeEnded] at hended
  | greeting arriving => cases arriving <;> simp [Agent.returned, handshakeEnded] at hended
  | announcing => exact ⟨_, hseated _ _ _ rfl, nofun⟩
  | announced => exact ⟨_, hseated _ _ _ rfl, nofun⟩
  | serving => exact ⟨_, hseated _ _ _ rfl, nofun⟩
  | answered => exact ⟨_, hseated _ _ _ rfl, nofun⟩
  | accepted => exact ⟨_, hseated _ _ _ rfl, fun _ => ⟨_, _, rfl⟩⟩
  | _ => simp [Agent.returned, handshakeEnded] at hended

/-- Any number of agents with one secret code, in any order of their steps: if none of them looks
for the room while another one is about to create it, none is sent an error, and all whose
handshake has ended are in the room. -/
theorem agents_share_room (hcorrect : PakeCorrect crates app.pake (asBytes (trim code)))
    (hallow : app.config.allowAgentRoomCreation = true) (hcode : (trim code).isEmpty = false)
    (hsame : ∀ c, (options c).secretCode = code) (hsince : since ≤ clock)
    (hplace : Hosts (GoodFile crates app.pake (asBytes (trim code))
        (deriveRoomHandle crates.sha256 code)) since (deriveRoomHandle crates.sha256 code) inner ∨
      HasSpace app.config (deriveRoomHandle crates.sha256 code) inner)
    (run : MeetingRun app crates options inner clock history m)
    (hundisturbed : Undisturbed app since history)
    (hclean : ∀ t ∈ history, ¬ LooksUpBeside app t.source t.label) :
    (∀ t ∈ history, ∀ message, .message (.error message) ∉ t.output.frames) ∧
      ∀ c, (m.agent c).returned = true ∨ handshakeEnded (m.system.task c) = true →
        Accepted m (deriveRoomHandle crates.sha256 code) c := by
  constructor
  · intro t ht message hframe
    obtain ⟨past, later, rfl⟩ := List.append_of_mem ht
    obtain ⟨before, taken⟩ := run.cut
    have after := before.step taken
    have hsub : ∀ u ∈ past ++ [t], u ∈ past ++ t :: later := by
      intro u hu
      simp only [List.mem_append, List.mem_cons, List.not_mem_nil, or_false] at hu ⊢
      exact hu.imp_right Or.inl
    have hgathering := gathering_of_run hcorrect hallow hcode hsame hsince hplace after
      ⟨fun u hu => hundisturbed.limits u (hsub u hu), fun u hu => hundisturbed.times u (hsub u hu)⟩
      fun u hu => hclean u (hsub u hu)
    exact (hgathering.position _).no_error message (frames_toAgent taken hframe)
  · intro c hended
    exact (gathering_of_run hcorrect hallow hcode hsame hsince hplace run hundisturbed
      hclean).accepted hended

/-- A step changes no task but its own. -/
theorem task_of_ne {m' : Meeting} {label : MeetingLabel} {shown : Shown}
    (taken : meetingStep app crates options m label = some (m', shown)) {c : ConnId}
    (hc : c ≠ label.connection) : m'.system.task c = m.system.task c := by
  cases meetingStep_eq_some taken with
  | agent hact => rfl
  | server hmove hserver => exact AppState.task_of_ne hserver hc

/-- A connection that the run does not speak of has not been accepted at any of its steps. -/
theorem idle_at_source (run : MeetingRun app crates options inner clock history m) {c : ConnId}
    (h : ∀ t ∈ history, t.label.connection ≠ c) {t : MeetingTransition} (ht : t ∈ history) :
    t.source.system.task c = .idle := by
  obtain ⟨past, later, rfl⟩ := List.append_of_mem ht
  apply run.cut.1.invariant_of_forall (fun t => t.label.connection ≠ c)
    fun m => m.system.task c = .idle
  · rfl
  · intro m label m' shown hidle taken hc
    rw [task_of_ne taken (Ne.symm hc)]
    exact hidle
  · exact fun u hu => h u (List.mem_append_left _ hu)

/-! ## Two agents with the ideal PAKE -/

def twoOptions (_ : ConnId) : AgentOptions := ⟨"k7", none⟩

namespace Scenario

def label (c : ConnId) (act : Act) : MeetingLabel := ⟨0, c, act⟩

/-- An agent starts, and its task has read the first message and looks for the room. -/
def look (c : ConnId) : List MeetingLabel :=
  [.start fun _ => 0, .accept c, .operate 0 "token", .receive 0 "token", .operate 0 "token"].map
    (label c)

/-- An agent that has found no room registers one, up to its login. -/
def registerRoom (c : ConnId) : List MeetingLabel :=
  [.operate 0 "token", .read fun _ => 0, .receive 0 "token", .read fun _ => 0,
    .receive 0 "token"].map (label c)

/-- An agent answers the candidates that it was sent. -/
def login (c : ConnId) : List MeetingLabel :=
  [.read fun _ => 0, .receive 0 "token"].map (label c)

def store (c : ConnId) : List MeetingLabel := [label c (.operate 0 "token")]

/-- An authenticated agent is let in and told so. -/
def enter (c : ConnId) : List MeetingLabel :=
  [.register, .enqueue, .enqueue, .take, .read fun _ => 0].map (label c)

end Scenario

open Scenario

/-- The second agent looks for the room when the first one has stored it. -/
def oneAfterTheOther : List MeetingLabel :=
  look 1 ++ registerRoom 1 ++ login 1 ++ store 1 ++ look 2 ++ enter 1 ++ login 2 ++ enter 2

/-- Both agents look for the room before either of them has stored it. -/
def sideBySide : List MeetingLabel :=
  look 1 ++ look 2 ++ registerRoom 1 ++ registerRoom 2 ++ login 1 ++ login 2 ++ store 1 ++ store 2

theorem two_agents_share_room :
    Accepted (reached (meetingStep idealApp idealCrates twoOptions) (Meeting.opening .empty 0)
      oneAfterTheOther) (deriveRoomHandle idealCrates.sha256 "k7") 2 := by
  have run : MeetingRun idealApp idealCrates twoOptions .empty 0 (trace _ _ oneAfterTheOther)
    (reached _ _ oneAfterTheOther) := Run.of_labels rfl
  have hconnections : ∀ t ∈ trace (meetingStep idealApp idealCrates twoOptions)
      (Meeting.opening .empty 0) oneAfterTheOther, t.label.connection ∈ [1, 2] := by
    decide
  have halone : ∀ t ∈ trace (meetingStep idealApp idealCrates twoOptions)
      (Meeting.opening .empty 0) oneAfterTheOther, findsNoRoom idealApp t.source t.label = true →
        ∀ c ∈ [1, 2], creating (t.source.system.task c) = false := by
    decide
  have hclean : ∀ t ∈ trace (meetingStep idealApp idealCrates twoOptions)
      (Meeting.opening .empty 0) oneAfterTheOther, ¬ LooksUpBeside idealApp t.source t.label := by
    rintro t ht ⟨hfinds, c, hcreating⟩
    by_cases hc : c ∈ [1, 2]
    · simp [halone t ht hfinds c hc] at hcreating
    · have hidle := idle_at_source run (fun u hu heq => hc (heq.subst (hconnections u hu))) ht
      rw [hidle] at hcreating
      cases hcreating
  have hshared := agents_share_room (idealCrates_correct _) rfl (by decide) (fun _ => rfl)
    (le_refl 0) (.inr ⟨rfl, by decide⟩) run ⟨by decide, by decide⟩ hclean
  exact hshared.2 2 (.inl (by decide))

/-- Side by side, the second agent is told that its room exists already. -/
theorem second_creator_is_refused :
    ¬ ∀ history m, MeetingRun idealApp idealCrates twoOptions .empty 0 history m →
      Undisturbed idealApp 0 history →
      ∀ t ∈ history, ∀ message, .message (.error message) ∉ t.output.frames := by
  intro hall
  have run : MeetingRun idealApp idealCrates twoOptions .empty 0 (trace _ _ sideBySide)
    (reached _ _ sideBySide) := Run.of_labels rfl
  have hrefused : ∃ t ∈ trace (meetingStep idealApp idealCrates twoOptions)
      (Meeting.opening .empty 0) sideBySide,
        .message (.error "generated duplicate room handle") ∈ t.output.frames := by
    decide
  obtain ⟨t, ht, hframe⟩ := hrefused
  exact hall _ _ run ⟨by decide, by decide⟩ t ht _ hframe

end ManInTheBox.Host
