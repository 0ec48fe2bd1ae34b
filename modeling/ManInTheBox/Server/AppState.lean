import ManInTheBox.Library.Window
import ManInTheBox.Server.State
import Mathlib

/-! # The operations on the shared state

Each function below is what one method of `AppState` does while it holds the
mutex, from the state it finds to its result and the state it leaves. `now` is
the reading of the clock that the method takes on entry.
-/

namespace ManInTheBox.Server

open Library

/-- The stamps that `prune_event_window` drops: those no longer younger than the window. -/
def eventWindow (window : ℕ) : Window ℕ where
  expired now ts := !decide (now - ts < window)
  expired_mono := by
    intro now now' ts hle h
    simp only [Bool.not_eq_true', decide_eq_false_iff_not] at h ⊢
    omega
  expired_anti := by
    intro now ts ts' hle h
    simp only [Bool.not_eq_true', decide_eq_false_iff_not] at h ⊢
    omega

/-- Pop expired stamps off the front until one is young enough. -/
def pruneEventWindow (events : List ℕ) (window : ℕ) (now : ℕ) : List ℕ :=
  (eventWindow window).live now events

/-- `prune_expired_rooms` keeps an occupied room, and a vacant one until its time is over. -/
def retainsRoom (config : SecurityConfig) (now : ℕ) (room : RoomState) : Bool :=
  if !room.vacant then true else decide (now - room.lastActiveAt < config.roomTtl)

def pruneExpiredRooms (config : SecurityConfig) (now : ℕ) (inner : StateInner) :
    StateInner :=
  { inner with
    rooms := Table.retain (Option.guard (retainsRoom config now)) inner.rooms
    authEventsByIp := Table.retain (fun events =>
      let events := pruneEventWindow events config.authRateWindow now
      if events.isEmpty then none else some events) inner.authEventsByIp }

/-- The id that `register` composes from the role and the counter. -/
def generatedClientId (role : ClientRole) (n : ℕ) : String :=
  role.asPrefix ++ "-" ++ toString n

/-- The search loop of `register`: advance the counter until the id it gives is not occupied. -/
def searchClientId (role : ClientRole) (occupied : List String) : ℕ → ℕ → Option (ℕ × String)
  | 0, _ => none
  | fuel + 1, nextClientId =>
    let candidate := generatedClientId role (nextClientId + 1)
    if candidate ∈ occupied then searchClientId role occupied fuel (nextClientId + 1)
    else some (nextClientId + 1, candidate)

theorem generatedClientId_injective (role : ClientRole) :
    Function.Injective (generatedClientId role) := by
  intro n m h
  have hrepr : toString n = toString m := by
    simpa [generatedClientId, String.ext_iff] using h
  exact Nat.repr_injective hrepr

/-- A search that fails has seen `fuel` distinct ids, all of them occupied. -/
theorem searchClientId_none {role : ClientRole} {occupied : List String} {fuel n : ℕ}
    (h : searchClientId role occupied fuel n = none) :
    ∀ m ∈ List.range' (n + 1) fuel, generatedClientId role m ∈ occupied := by
  induction fuel generalizing n with
  | zero => simp
  | succ fuel ih =>
    rw [searchClientId] at h
    split_ifs at h with hmem
    intro m hm
    rcases List.mem_cons.mp (List.range'_succ ▸ hm) with rfl | hm
    · exact hmem
    · exact ih h m hm

/-- The loop ends: with more attempts than there are occupied ids one of them is free. -/
theorem searchClientId_isSome (role : ClientRole) (occupied : List String) (n : ℕ) :
    (searchClientId role occupied (occupied.length + 1) n).isSome := by
  by_contra hnone
  have hmem := searchClientId_none (Option.not_isSome_iff_eq_none.mp hnone)
  let ids := (List.range' (n + 1) (occupied.length + 1)).map (generatedClientId role)
  have hnodup : ids.Nodup :=
    List.Nodup.map (generatedClientId_injective role) (List.nodup_range' 1)
  have hsub : ids ⊆ occupied := by
    intro id hid
    obtain ⟨m, hm, rfl⟩ := List.mem_map.mp hid
    exact hmem m hm
  have hlen := (List.subperm_of_subset hnodup hsub).length_le
  simp [ids] at hlen

/-- The loop run to its end. -/
def generateClientId (role : ClientRole) (occupied : List String) (nextClientId : ℕ) :
    ℕ × String :=
  (searchClientId role occupied (occupied.length + 1) nextClientId).get
    (searchClientId_isSome role occupied nextClientId)

theorem searchClientId_free {role : ClientRole} {occupied : List String} {fuel n : ℕ}
    {r : ℕ × String} (h : searchClientId role occupied fuel n = some r) : r.2 ∉ occupied := by
  induction fuel generalizing n with
  | zero => cases h
  | succ fuel ih =>
    rw [searchClientId] at h
    split_ifs at h with hmem
    · exact ih h
    · obtain rfl := Option.some.inj h
      exact hmem

/-- The requested id when it is usable, else a generated one; with the counter left behind. -/
def chooseClientId (role : ClientRole) (preferredClientId : Option String)
    (occupied : List String) (nextClientId : ℕ) : ℕ × String :=
  match preferredClientId.filter fun clientId => !clientId.isEmpty && clientId ∉ occupied with
  | some clientId => (nextClientId, clientId)
  | none => generateClientId role occupied nextClientId

/-- Whatever id is chosen, nobody holds it. -/
theorem chooseClientId_free (role : ClientRole) (preferredClientId : Option String)
    (occupied : List String) (nextClientId : ℕ) :
    (chooseClientId role preferredClientId occupied nextClientId).2 ∉ occupied := by
  rw [chooseClientId]
  split
  · rename_i clientId hfilter
    have hkept := (Option.filter_eq_some_iff.mp hfilter).2
    simpa using (Bool.and_eq_true_iff.mp hkept).2
  · exact searchClientId_free (Option.some_get _).symm

def register (config : SecurityConfig) (now : ℕ) (roomHandle : String) (role : ClientRole)
    (preferredClientId : Option String) (handle : ClientHandle) (inner : StateInner) :
    Except ServerError RegisterOutcome × StateInner :=
  let inner := pruneExpiredRooms config now inner
  match inner.rooms.lookup roomHandle with
  | none => (.error .channelNotFound, inner)
  | some room =>
    let occupied := room.agents.keys ++ room.zookeepers.keys
    let chosen := chooseClientId role preferredClientId occupied inner.nextClientId
    let registered :=
      { room.withClients role ((room.clients role).insert chosen.2 handle) with
        lastActiveAt := now }
    (.ok
      { clientId := chosen.2
        initialMessages := [.connected chosen.2 role room.agents.keys room.zookeepers.keys]
        broadcasts := (Table.values (room.clients role.peer)).map fun peer =>
          (peer, .peerJoined role chosen.2) },
     { inner with
        nextClientId := chosen.1
        rooms := inner.rooms.insert roomHandle registered })

def unregister (config : SecurityConfig) (now : ℕ) (roomHandle : String) (role : ClientRole)
    (clientId : String) (inner : StateInner) : UnregisterOutcome × StateInner :=
  let inner := pruneExpiredRooms config now inner
  match inner.rooms.lookup roomHandle with
  | none => (⟨[]⟩, pruneExpiredRooms config now inner)
  | some room =>
    if clientId ∈ room.clients role then
      let remaining :=
        { room.withClients role ((room.clients role).erase clientId) with lastActiveAt := now }
      (⟨(Table.values (room.clients role.peer)).map fun peer => (peer, .peerLeft role clientId)⟩,
       pruneExpiredRooms config now
        { inner with rooms := inner.rooms.insert roomHandle remaining })
    else (⟨[]⟩, pruneExpiredRooms config now inner)

/-- `as_bytes` of a room handle. -/
def asBytes (roomHandle : String) : Bytes := roomHandle.toList.flatMap String.utf8EncodeChar

/-- The password file is read under the lock; the login is started from it after the lock has
been released. -/
def candidateLoginForRoom (app : AppState) (now : ℕ) (roomHandle : String)
    (credentialRequest : Bytes) (rng : ℕ) (token : Except String String) (inner : StateInner) :
    Except String (Option PendingLogin) × StateInner :=
  let inner := pruneExpiredRooms app.config now inner
  match inner.rooms.lookup roomHandle with
  | none => (.ok none, inner)
  | some room =>
    let login := do
      let (credentialResponse, loginSession) ←
        app.pake.startLogin rng (asBytes roomHandle) room.passwordFile credentialRequest
      let candidateId ← token
      pure (some ⟨candidateId, roomHandle, credentialResponse, loginSession⟩)
    (login, inner)

def storeRoom (config : SecurityConfig) (now : ℕ) (roomHandle : String)
    (passwordFile : Bytes) (inner : StateInner) : Except ServerError Unit × StateInner :=
  let inner := pruneExpiredRooms config now inner
  if config.maxRooms ≤ Table.size inner.rooms then (.error .roomQuotaExceeded, inner)
  else if roomHandle ∈ inner.rooms then (.error .duplicateRoomHandle, inner)
  else
    (.ok (), { inner with rooms := inner.rooms.insert roomHandle ⟨passwordFile, ∅, ∅, now, []⟩ })

def ensureRoomCapacity (config : SecurityConfig) (now : ℕ) (inner : StateInner) :
    Except ServerError Unit × StateInner :=
  let inner := pruneExpiredRooms config now inner
  if config.maxRooms ≤ Table.size inner.rooms then (.error .roomQuotaExceeded, inner)
  else (.ok (), inner)

def checkAuthRateLimit (config : SecurityConfig) (now : ℕ) (ip : IpAddr)
    (inner : StateInner) : Except ServerError Unit × StateInner :=
  let inner := pruneExpiredRooms config now inner
  let events := pruneEventWindow ((inner.authEventsByIp.lookup ip).getD [])
    config.authRateWindow now
  if config.authRateLimit ≤ events.length then
    (.error .tooManyAuthAttempts,
      { inner with authEventsByIp := inner.authEventsByIp.insert ip events })
  else
    (.ok (), { inner with authEventsByIp := inner.authEventsByIp.insert ip (events ++ [now]) })

/-- The role a client id is connected under: agents are looked up before zookeepers. -/
def RoomState.roleOf (room : RoomState) (clientId : String) : Option ClientRole :=
  if clientId ∈ room.agents then some .agent
  else if clientId ∈ room.zookeepers then some .zookeeper
  else none

/-- The checks of `forward_signal` after the rate limit, and the message for the peer. -/
def routeSignal (room : RoomState) (senderId peerId : String) (payload : Value) :
    Except ServerError (ClientHandle × ServerMessage) :=
  match room.roleOf senderId with
  | none => .error (.senderNotConnected senderId)
  | some senderRole =>
    match room.roleOf peerId with
    | none => .error (.peerNotConnected peerId)
    | some peerRole =>
      if senderRole = .agent ∧ peerRole = .agent then .error .agentToAgent
      else
        match (room.agents.lookup peerId).or (room.zookeepers.lookup peerId) with
        | none => .error (.peerNotConnected peerId)
        | some peer => .ok (peer, .signal senderId payload)

def forwardSignal (config : SecurityConfig) (now : ℕ) (roomHandle senderId peerId : String)
    (payload : Value) (inner : StateInner) :
    Except ServerError (ClientHandle × ServerMessage) × StateInner :=
  let inner := pruneExpiredRooms config now inner
  match inner.rooms.lookup roomHandle with
  | none => (.error .channelNotFound, inner)
  | some room =>
    let events := pruneEventWindow room.signalEvents config.roomSignalRateWindow now
    if config.roomSignalRateLimit ≤ events.length then
      (.error .roomSignalRateLimit,
        { inner with rooms := inner.rooms.insert roomHandle { room with signalEvents := events } })
    else
      let active := { room with signalEvents := events ++ [now], lastActiveAt := now }
      (routeSignal active senderId peerId payload,
        { inner with rooms := inner.rooms.insert roomHandle active })

end ManInTheBox.Server
