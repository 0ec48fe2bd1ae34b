import ManInTheBox.Server.Operation

/-! # What each operation can do

For every operation one lemma lists its possible results together with the state
it leaves, and two more read off what that means for membership and for the
password files. Later modules cite these and never unfold an operation.
-/

namespace ManInTheBox.Server

open Library

variable {config : SecurityConfig} {now : ℕ} {inner inner' : StateInner}
  {roomHandle : String} {role : ClientRole}

/-! ## register -/

/-- The room after a client has joined it. -/
def RoomState.joined (room : RoomState) (now : ℕ) (role : ClientRole) (id : String)
    (handle : ClientHandle) : RoomState :=
  { room.withClients role ((room.clients role).insert id handle) with lastActiveAt := now }

@[simp] theorem RoomState.joined_clients (room : RoomState) (now : ℕ) (role : ClientRole)
    (id : String) (handle : ClientHandle) (role' : ClientRole) :
    (room.joined now role id handle).clients role' =
      if role' = role then (room.clients role).insert id handle else room.clients role' := by
  cases role <;> cases role' <;> rfl

theorem register_cases {preferredClientId : Option String} {handle : ClientHandle}
    {result : Except ServerError RegisterOutcome}
    (h : register config now roomHandle role preferredClientId handle inner = (result, inner')) :
    (result = .error .channelNotFound ∧ inner' = pruneExpiredRooms config now inner ∧
      inner'.rooms.lookup roomHandle = none) ∨
    ∃ room id n, (pruneExpiredRooms config now inner).rooms.lookup roomHandle = some room ∧
      (∀ role', (room.clients role').lookup id = none) ∧
      result = .ok ⟨id, [.connected id role room.agents.keys room.zookeepers.keys],
        (Table.values (room.clients role.peer)).map fun peer => (peer, .peerJoined role id)⟩ ∧
      inner' = ⟨n, (pruneExpiredRooms config now inner).rooms.insert roomHandle
        (room.joined now role id handle), (pruneExpiredRooms config now inner).authEventsByIp⟩ := by
  simp only [register] at h
  split at h
  · rename_i hnone
    left
    obtain ⟨rfl, rfl⟩ := Prod.mk.inj h
    exact ⟨rfl, rfl, hnone⟩
  · rename_i room hroom
    right
    let occupied := room.agents.keys ++ room.zookeepers.keys
    let chosen := chooseClientId role preferredClientId occupied
      (pruneExpiredRooms config now inner).nextClientId
    have hfree : chosen.2 ∉ occupied := chooseClientId_free _ _ _ _
    rw [List.mem_append, not_or] at hfree
    obtain ⟨rfl, rfl⟩ := Prod.mk.inj h
    refine ⟨room, chosen.2, chosen.1, hroom, ?_, rfl, rfl⟩
    intro role'
    cases role' with
    | agent => exact AList.lookup_eq_none.mpr fun hmem => hfree.1 (AList.mem_keys.mp hmem)
    | zookeeper => exact AList.lookup_eq_none.mpr fun hmem => hfree.2 (AList.mem_keys.mp hmem)

/-- A successful `register` fills a point of the membership that was free under both roles, and
tells the members of the other role. -/
theorem register_ok {preferredClientId : Option String} {handle : ClientHandle}
    {outcome : RegisterOutcome}
    (h : register config now roomHandle role preferredClientId handle inner =
      (.ok outcome, inner')) :
    (∀ role', handleAt inner roomHandle role' outcome.clientId = none) ∧
    (∀ r role' id, handleAt inner' r role' id =
      if r = roomHandle ∧ role' = role ∧ id = outcome.clientId then some handle
      else handleAt inner r role' id) ∧
    (∃ agents zookeepers,
      outcome.initialMessages = [.connected outcome.clientId role agents zookeepers] ∧
      (∀ id, id ∈ agents ↔ (handleAt inner roomHandle .agent id).isSome) ∧
      (∀ id, id ∈ zookeepers ↔ (handleAt inner roomHandle .zookeeper id).isSome)) ∧
    (∀ peer message, (peer, message) ∈ outcome.broadcasts ↔
      message = .peerJoined role outcome.clientId ∧
        ∃ id, handleAt inner roomHandle role.peer id = some peer) := by
  rcases register_cases h with ⟨herror, -⟩ | ⟨room, id, n, hroom, hfree, hresult, rfl⟩
  · cases herror
  obtain rfl := Except.ok.inj hresult
  have hat : ∀ role' id', handleAt inner roomHandle role' id' = (room.clients role').lookup id' := by
    intro role' id'
    rw [← handleAt_prune config now, handleAt_of_lookup hroom]
  refine ⟨fun role' => by rw [hat, hfree], ?_, ?_, ?_⟩
  · intro r role' id'
    rw [handleAt_insert, handleAt_prune]
    by_cases hr : r = roomHandle
    · subst hr
      by_cases hrole : role' = role
      · subst hrole
        simp [Table.lookup_insert_ite, hat]
      · simp [hrole, hat]
    · simp [hr]
  · refine ⟨_, _, rfl, ?_, ?_⟩
    · intro id'
      rw [hat, AList.lookup_isSome, AList.mem_keys]
      rfl
    · intro id'
      rw [hat, AList.lookup_isSome, AList.mem_keys]
      rfl
  · intro peer message
    simp only [List.mem_map, Table.mem_values, Prod.mk.injEq, hat]
    constructor
    · rintro ⟨peer', ⟨id', hid'⟩, rfl, rfl⟩
      exact ⟨rfl, id', hid'⟩
    · rintro ⟨rfl, id', hid'⟩
      exact ⟨peer, ⟨id', hid'⟩, rfl, rfl⟩

theorem register_error {preferredClientId : Option String} {handle : ClientHandle}
    {error : ServerError}
    (h : register config now roomHandle role preferredClientId handle inner =
      (.error error, inner')) :
    error = .channelNotFound ∧ inner' = pruneExpiredRooms config now inner ∧
      inner'.rooms.lookup roomHandle = none := by
  rcases register_cases h with ⟨herror, hrest⟩ | ⟨room, id, n, -, -, hresult, -⟩
  · exact ⟨Except.error.inj herror, hrest⟩
  · cases hresult

/-! ## unregister -/

/-- The room after a client has left it. -/
def RoomState.left (room : RoomState) (now : ℕ) (role : ClientRole) (id : String) : RoomState :=
  { room.withClients role ((room.clients role).erase id) with lastActiveAt := now }

@[simp] theorem RoomState.left_clients (room : RoomState) (now : ℕ) (role : ClientRole)
    (id : String) (role' : ClientRole) :
    (room.left now role id).clients role' =
      if role' = role then (room.clients role).erase id else room.clients role' := by
  cases role <;> cases role' <;> rfl

theorem unregister_cases {clientId : String} {outcome : UnregisterOutcome}
    (h : unregister config now roomHandle role clientId inner = (outcome, inner')) :
    (handleAt inner roomHandle role clientId = none ∧ outcome = ⟨[]⟩ ∧
      inner' = pruneExpiredRooms config now (pruneExpiredRooms config now inner)) ∨
    ∃ room, (pruneExpiredRooms config now inner).rooms.lookup roomHandle = some room ∧
      clientId ∈ room.clients role ∧
      outcome = ⟨(Table.values (room.clients role.peer)).map fun peer =>
        (peer, .peerLeft role clientId)⟩ ∧
      inner' = pruneExpiredRooms config now ⟨(pruneExpiredRooms config now inner).nextClientId,
        (pruneExpiredRooms config now inner).rooms.insert roomHandle (room.left now role clientId),
        (pruneExpiredRooms config now inner).authEventsByIp⟩ := by
  have hat := handleAt_prune config now inner roomHandle role clientId
  simp only [unregister] at h
  split at h
  · rename_i hnone
    left
    obtain ⟨rfl, rfl⟩ := Prod.mk.inj h
    rw [← hat, handleAt, hnone]
    exact ⟨rfl, rfl, rfl⟩
  · rename_i room hroom
    rw [handleAt_of_lookup hroom] at hat
    split_ifs at h with hmem
    · right
      obtain ⟨rfl, rfl⟩ := Prod.mk.inj h
      exact ⟨room, hroom, hmem, rfl, rfl⟩
    · left
      obtain ⟨rfl, rfl⟩ := Prod.mk.inj h
      rw [← hat]
      exact ⟨AList.lookup_eq_none.mpr hmem, rfl, rfl⟩

/-- `unregister` clears the one point it is about and tells the members of the other role,
if there was anything to clear. -/
theorem unregister_spec {clientId : String} {outcome : UnregisterOutcome}
    (h : unregister config now roomHandle role clientId inner = (outcome, inner')) :
    (∀ r role' id, handleAt inner' r role' id =
      if r = roomHandle ∧ role' = role ∧ id = clientId then none
      else handleAt inner r role' id) ∧
    (∀ peer message, (peer, message) ∈ outcome.broadcasts ↔
      message = .peerLeft role clientId ∧ (handleAt inner roomHandle role clientId).isSome ∧
        ∃ id, handleAt inner roomHandle role.peer id = some peer) := by
  rcases unregister_cases h with ⟨hnone, rfl, rfl⟩ | ⟨room, hroom, hmem, rfl, rfl⟩
  · refine ⟨?_, by simp [hnone]⟩
    intro r role' id
    rw [handleAt_prune, handleAt_prune]
    split_ifs with hpoint
    · obtain ⟨rfl, rfl, rfl⟩ := hpoint
      exact hnone
    · rfl
  · have hat : ∀ role' id', handleAt inner roomHandle role' id' =
        (room.clients role').lookup id' := by
      intro role' id'
      rw [← handleAt_prune config now, handleAt_of_lookup hroom]
    constructor
    · intro r role' id
      rw [handleAt_prune, handleAt_insert, handleAt_prune]
      by_cases hr : r = roomHandle
      · subst hr
        by_cases hrole : role' = role
        · subst hrole
          simp [Table.lookup_erase_ite, hat]
        · simp [hrole, hat]
      · simp [hr]
    · intro peer message
      have hsome := AList.lookup_isSome.mpr hmem
      simp only [List.mem_map, Table.mem_values, Prod.mk.injEq, hat]
      constructor
      · rintro ⟨peer', ⟨id', hid'⟩, rfl, rfl⟩
        exact ⟨rfl, hsome, id', hid'⟩
      · rintro ⟨rfl, -, id', hid'⟩
        exact ⟨peer, ⟨id', hid'⟩, rfl, rfl⟩

/-! ## The operations that read or create rooms -/

theorem candidateLoginForRoom_inner {app : AppState} {credentialRequest : Bytes} {rng : ℕ}
    {token : Except String String} {result : Except String (Option PendingLogin)}
    (h : candidateLoginForRoom app now roomHandle credentialRequest rng token inner =
      (result, inner')) : inner' = pruneExpiredRooms app.config now inner := by
  simp only [candidateLoginForRoom] at h
  split at h <;> exact (Prod.mk.inj h).2.symm

/-- A pending login was started from the password file that the room had at that moment. -/
theorem candidateLoginForRoom_some {app : AppState} {credentialRequest : Bytes} {rng : ℕ}
    {token : Except String String} {login : PendingLogin}
    (h : candidateLoginForRoom app now roomHandle credentialRequest rng token inner =
      (.ok (some login), inner')) :
    inner' = pruneExpiredRooms app.config now inner ∧ login.roomHandle = roomHandle ∧
      passwordFileOf inner' roomHandle = some login.loginSession.passwordFile := by
  obtain rfl := candidateLoginForRoom_inner h
  simp only [candidateLoginForRoom] at h
  split at h
  · cases h
  · rename_i room hroom
    cases hresponse : app.pake.credentialResponse
      ⟨rng, asBytes roomHandle, room.passwordFile, credentialRequest⟩ with
    | error e => simp [ServerPake.startLogin, hresponse, Except.map, bind, Except.bind] at h
    | ok response =>
      cases token with
      | error e => simp [ServerPake.startLogin, hresponse, Except.map, bind, Except.bind] at h
      | ok candidateId =>
        simp only [ServerPake.startLogin, hresponse, Except.map, bind, Except.bind, pure,
          Except.pure, Prod.mk.injEq, Except.ok.injEq, Option.some.injEq, and_true] at h
        subst h
        exact ⟨rfl, rfl, by simp [passwordFileOf, hroom]⟩

theorem storeRoom_cases {passwordFile : Bytes} {result : Except ServerError Unit}
    (h : storeRoom config now roomHandle passwordFile inner = (result, inner')) :
    (result = .error .roomQuotaExceeded ∧ inner' = pruneExpiredRooms config now inner ∧
      config.maxRooms ≤ Table.size inner'.rooms) ∨
    (result = .error .duplicateRoomHandle ∧ inner' = pruneExpiredRooms config now inner ∧
      (inner'.rooms.lookup roomHandle).isSome) ∨
    (result = .ok () ∧ Table.size (pruneExpiredRooms config now inner).rooms < config.maxRooms ∧
      (pruneExpiredRooms config now inner).rooms.lookup roomHandle = none ∧
      inner' = ⟨(pruneExpiredRooms config now inner).nextClientId,
        (pruneExpiredRooms config now inner).rooms.insert roomHandle
          ⟨passwordFile, ∅, ∅, now, []⟩,
        (pruneExpiredRooms config now inner).authEventsByIp⟩) := by
  simp only [storeRoom] at h
  split_ifs at h with hsize hmem
  · obtain ⟨rfl, rfl⟩ := Prod.mk.inj h
    exact .inl ⟨rfl, rfl, hsize⟩
  · obtain ⟨rfl, rfl⟩ := Prod.mk.inj h
    exact .inr (.inl ⟨rfl, rfl, AList.lookup_isSome.mpr hmem⟩)
  · obtain ⟨rfl, rfl⟩ := Prod.mk.inj h
    exact .inr (.inr ⟨rfl, Nat.lt_of_not_le hsize, AList.lookup_eq_none.mpr hmem, rfl⟩)

/-- `store_room` never changes the membership of any room: a room it creates is vacant, and one
that exists is refused. -/
theorem storeRoom_handleAt {passwordFile : Bytes} {result : Except ServerError Unit}
    (h : storeRoom config now roomHandle passwordFile inner = (result, inner')) (r : String)
    (role : ClientRole) (id : String) : handleAt inner' r role id = handleAt inner r role id := by
  rcases storeRoom_cases h with ⟨-, rfl, -⟩ | ⟨-, rfl, -⟩ | ⟨-, -, hnone, rfl⟩
  · exact handleAt_prune config now inner r role id
  · exact handleAt_prune config now inner r role id
  · rw [handleAt_insert, handleAt_prune]
    split_ifs with hr
    · subst hr
      rw [← handleAt_prune config now, handleAt, hnone]
      cases role <;> rfl
    · rfl

theorem ensureRoomCapacity_cases {result : Except ServerError Unit}
    (h : ensureRoomCapacity config now inner = (result, inner')) :
    inner' = pruneExpiredRooms config now inner ∧
      (result = .error .roomQuotaExceeded ∧ config.maxRooms ≤ Table.size inner'.rooms ∨
        result = .ok () ∧ Table.size inner'.rooms < config.maxRooms) := by
  simp only [ensureRoomCapacity] at h
  split_ifs at h with hsize
  · obtain ⟨rfl, rfl⟩ := Prod.mk.inj h
    exact ⟨rfl, .inl ⟨rfl, hsize⟩⟩
  · obtain ⟨rfl, rfl⟩ := Prod.mk.inj h
    exact ⟨rfl, .inr ⟨rfl, Nat.lt_of_not_le hsize⟩⟩

theorem checkAuthRateLimit_rooms {ip : IpAddr} {result : Except ServerError Unit}
    (h : checkAuthRateLimit config now ip inner = (result, inner')) :
    inner'.rooms = (pruneExpiredRooms config now inner).rooms := by
  simp only [checkAuthRateLimit] at h
  split_ifs at h <;> rw [← (Prod.mk.inj h).2]

/-! ## forward_signal -/

theorem forwardSignal_cases {senderId peerId : String} {payload : Value}
    {result : Except ServerError (ClientHandle × ServerMessage)}
    (h : forwardSignal config now roomHandle senderId peerId payload inner = (result, inner')) :
    (result = .error .channelNotFound ∧ inner' = pruneExpiredRooms config now inner ∧
      inner'.rooms.lookup roomHandle = none) ∨
    ∃ room, (pruneExpiredRooms config now inner).rooms.lookup roomHandle = some room ∧
      let events := pruneEventWindow room.signalEvents config.roomSignalRateWindow now
      let after := fun room' => (⟨(pruneExpiredRooms config now inner).nextClientId,
        (pruneExpiredRooms config now inner).rooms.insert roomHandle room',
        (pruneExpiredRooms config now inner).authEventsByIp⟩ : StateInner)
      (config.roomSignalRateLimit ≤ events.length ∧ result = .error .roomSignalRateLimit ∧
        inner' = after { room with signalEvents := events }) ∨
      (events.length < config.roomSignalRateLimit ∧
        result = routeSignal room senderId peerId payload ∧
        inner' = after { room with signalEvents := events ++ [now], lastActiveAt := now }) := by
  simp only [forwardSignal] at h
  split at h
  · rename_i hnone
    left
    obtain ⟨rfl, rfl⟩ := Prod.mk.inj h
    exact ⟨rfl, rfl, hnone⟩
  · rename_i room hroom
    right
    refine ⟨room, hroom, ?_⟩
    split_ifs at h with hlimit
    · obtain ⟨rfl, rfl⟩ := Prod.mk.inj h
      exact .inl ⟨hlimit, rfl, rfl⟩
    · obtain ⟨rfl, rfl⟩ := Prod.mk.inj h
      exact .inr ⟨Nat.lt_of_not_le hlimit, rfl, rfl⟩

theorem forwardSignal_handleAt {senderId peerId : String} {payload : Value}
    {result : Except ServerError (ClientHandle × ServerMessage)}
    (h : forwardSignal config now roomHandle senderId peerId payload inner = (result, inner'))
    (r : String) (role : ClientRole) (id : String) :
    handleAt inner' r role id = handleAt inner r role id := by
  have hreplace (room room' : RoomState) (n : ℕ) (events : Table IpAddr (List ℕ))
      (hroom : (pruneExpiredRooms config now inner).rooms.lookup roomHandle = some room)
      (hsame : room'.clients role = room.clients role) :
      handleAt ⟨n, (pruneExpiredRooms config now inner).rooms.insert roomHandle room', events⟩
        r role id = handleAt inner r role id := by
    rw [handleAt_insert, handleAt_prune, hsame]
    split_ifs with hr
    · subst hr
      rw [← handleAt_prune config now, handleAt_of_lookup hroom]
    · rfl
  rcases forwardSignal_cases h with ⟨-, rfl, -⟩ | ⟨room, hroom, ⟨-, -, rfl⟩ | ⟨-, -, rfl⟩⟩
  · exact handleAt_prune config now inner r role id
  · exact hreplace room _ _ _ hroom (by cases role <;> rfl)
  · exact hreplace room _ _ _ hroom (by cases role <;> rfl)

theorem RoomState.roleOf_eq_some {room : RoomState} {id : String} {role : ClientRole}
    (h : room.roleOf id = some role) : ∃ handle, (room.clients role).lookup id = some handle := by
  apply Option.isSome_iff_exists.mp
  rw [RoomState.roleOf] at h
  split_ifs at h with hagent hzookeeper
  · obtain rfl := Option.some.inj h
    exact AList.lookup_isSome.mpr hagent
  · obtain rfl := Option.some.inj h
    exact AList.lookup_isSome.mpr hzookeeper

/-- A routed signal carries the sender's id, goes to the handle stored under the requested id
and never from agent to agent. -/
theorem routeSignal_ok {room : RoomState} {senderId peerId : String} {payload : Value}
    {peer : ClientHandle} {message : ServerMessage}
    (h : routeSignal room senderId peerId payload = .ok (peer, message)) :
    message = .signal senderId payload ∧ ∃ senderRole peerRole sender,
      room.roleOf senderId = some senderRole ∧ room.roleOf peerId = some peerRole ∧
      (room.clients senderRole).lookup senderId = some sender ∧
      (room.clients peerRole).lookup peerId = some peer ∧
      ¬(senderRole = .agent ∧ peerRole = .agent) := by
  rw [routeSignal] at h
  split at h
  · cases h
  rename_i senderRole hsender
  split at h
  · cases h
  rename_i peerRole hpeer
  split_ifs at h with hagents
  split at h
  · cases h
  rename_i peer' hlookup
  obtain ⟨rfl, rfl⟩ := Prod.mk.inj (Except.ok.inj h)
  obtain ⟨sender, hsender'⟩ := RoomState.roleOf_eq_some hsender
  refine ⟨rfl, senderRole, peerRole, sender, hsender, hpeer, hsender', ?_, hagents⟩
  rw [RoomState.roleOf] at hpeer
  split_ifs at hpeer with hagent hzookeeper
  · obtain rfl := Option.some.inj hpeer
    obtain ⟨handle, hhandle⟩ := Option.isSome_iff_exists.mp (AList.lookup_isSome.mpr hagent)
    rw [hhandle] at hlookup
    exact hhandle.trans hlookup
  · obtain rfl := Option.some.inj hpeer
    rw [AList.lookup_eq_none.mpr hagent] at hlookup
    exact hlookup

/-! ## The queues of accepted authentication attempts -/

/-- The queue of an IP; an absent entry is an empty queue. -/
def authEvents (inner : StateInner) (ip : IpAddr) : List ℕ :=
  (inner.authEventsByIp.lookup ip).getD []

theorem authEvents_prune (ip : IpAddr) :
    authEvents (pruneExpiredRooms config now inner) ip =
      pruneEventWindow (authEvents inner ip) config.authRateWindow now := by
  simp only [authEvents, pruneExpiredRooms, Table.lookup_retain]
  cases hevents : inner.authEventsByIp.lookup ip with
  | none => rfl
  | some events =>
    simp only [Option.bind_some, Option.getD_some]
    split_ifs with hempty
    · exact (List.isEmpty_iff.mp hempty).symm
    · rfl

theorem authEvents_insert (inner : StateInner) (n : ℕ) (rooms : Table String RoomState)
    (ip ip' : IpAddr) (events : List ℕ) :
    authEvents ⟨n, rooms, inner.authEventsByIp.insert ip events⟩ ip' =
      if ip' = ip then events else authEvents inner ip' := by
  unfold authEvents
  rw [Table.lookup_insert_ite]
  split_ifs <;> rfl

theorem checkAuthRateLimit_cases {ip : IpAddr} {result : Except ServerError Unit}
    (h : checkAuthRateLimit config now ip inner = (result, inner')) :
    let events := pruneEventWindow (authEvents inner ip) config.authRateWindow now
    (config.authRateLimit ≤ events.length ∧ result = .error .tooManyAuthAttempts ∧
      authEvents inner' ip = events ∨
    events.length < config.authRateLimit ∧ result = .ok () ∧
      authEvents inner' ip = events ++ [now]) ∧
    ∀ ip', ip' ≠ ip → authEvents inner' ip' =
      pruneEventWindow (authEvents inner ip') config.authRateWindow now := by
  have hagain : pruneEventWindow ((AList.lookup ip (pruneExpiredRooms config now
      inner).authEventsByIp).getD []) config.authRateWindow now =
      pruneEventWindow (authEvents inner ip) config.authRateWindow now := by
    rw [← authEvents, authEvents_prune]
    exact (eventWindow config.authRateWindow).live_live le_rfl _
  simp only [checkAuthRateLimit, hagain] at h
  split_ifs at h with hlimit
  · obtain ⟨rfl, rfl⟩ := Prod.mk.inj h
    refine ⟨.inl ⟨hlimit, rfl, by rw [authEvents_insert, if_pos rfl]⟩, ?_⟩
    intro ip' hne
    rw [authEvents_insert, if_neg hne, authEvents_prune]
  · obtain ⟨rfl, rfl⟩ := Prod.mk.inj h
    refine ⟨.inr ⟨Nat.lt_of_not_le hlimit, rfl, by rw [authEvents_insert, if_pos rfl]⟩, ?_⟩
    intro ip' hne
    rw [authEvents_insert, if_neg hne, authEvents_prune]

/-- Every other operation only prunes the queues. -/
theorem authEvents_of_applied {app : AppState} {op : Operation} {outcome : Outcome}
    (h : Applied app now inner op outcome inner')
    (hop : ∀ ip, op ≠ .checkAuthRateLimit ip) (ip : IpAddr) :
    authEvents inner' ip =
      pruneEventWindow (authEvents inner ip) app.config.authRateWindow now := by
  rw [← authEvents_prune]
  cases h with
  | register h =>
    rcases register_cases h with ⟨-, rfl, -⟩ | ⟨room, id, n, -, -, -, rfl⟩ <;> rfl
  | unregister h =>
    have hagain : ∀ inner : StateInner, authEvents (pruneExpiredRooms app.config now
        (pruneExpiredRooms app.config now inner)) ip =
        authEvents (pruneExpiredRooms app.config now inner) ip := by
      intro inner
      rw [authEvents_prune, authEvents_prune]
      exact (eventWindow _).live_live le_rfl _
    rcases unregister_cases h with ⟨-, -, rfl⟩ | ⟨room, -, -, -, rfl⟩
    · exact hagain inner
    · exact hagain inner
  | candidateLoginForRoom h => rw [candidateLoginForRoom_inner h]
  | storeRoom h =>
    rcases storeRoom_cases h with ⟨-, rfl, -⟩ | ⟨-, rfl, -⟩ | ⟨-, -, -, rfl⟩ <;> rfl
  | ensureRoomCapacity h => rw [(ensureRoomCapacity_cases h).1]
  | checkAuthRateLimit h => exact absurd rfl (hop _)
  | forwardSignal h =>
    rcases forwardSignal_cases h with ⟨-, rfl, -⟩ | ⟨room, -, ⟨-, -, rfl⟩ | ⟨-, -, rfl⟩⟩ <;> rfl

end ManInTheBox.Server
