import ManInTheBox.Library.Run
import ManInTheBox.Server.AppState

/-! # The server as a machine, and what each operation does to the rooms

One label is one call of an `AppState` method at one reading of the clock, which
never goes back. The membership of the rooms is read off a state as a partial
function from room, role and client id to the handle stored there; pruning does
not change it, and each operation changes it in at most one point.
-/

namespace ManInTheBox.Server

open Library

inductive Operation
  | register (roomHandle : String) (role : ClientRole) (preferredClientId : Option String)
      (handle : ClientHandle)
  | unregister (roomHandle : String) (role : ClientRole) (clientId : String)
  | candidateLoginForRoom (roomHandle : String) (credentialRequest : Bytes) (rng : ℕ)
      (token : Except String String)
  | storeRoom (roomHandle : String) (passwordFile : Bytes)
  | ensureRoomCapacity
  | checkAuthRateLimit (ip : IpAddr)
  | forwardSignal (roomHandle senderId peerId : String) (payload : Value)

inductive Outcome
  | registered (result : Except ServerError RegisterOutcome)
  | unregistered (outcome : UnregisterOutcome)
  | candidate (result : Except String (Option PendingLogin))
  | checked (result : Except ServerError Unit)
  | forwarded (result : Except ServerError (ClientHandle × ServerMessage))

def AppState.apply (app : AppState) (now : ℕ) (op : Operation) (inner : StateInner) :
    Outcome × StateInner :=
  match op with
  | .register roomHandle role preferredClientId handle =>
    (register app.config now roomHandle role preferredClientId handle inner).map .registered id
  | .unregister roomHandle role clientId =>
    (unregister app.config now roomHandle role clientId inner).map .unregistered id
  | .candidateLoginForRoom roomHandle credentialRequest rng token =>
    (candidateLoginForRoom app now roomHandle credentialRequest rng token inner).map .candidate id
  | .storeRoom roomHandle passwordFile =>
    (storeRoom app.config now roomHandle passwordFile inner).map .checked id
  | .ensureRoomCapacity => (ensureRoomCapacity app.config now inner).map .checked id
  | .checkAuthRateLimit ip => (checkAuthRateLimit app.config now ip inner).map .checked id
  | .forwardSignal roomHandle senderId peerId payload =>
    (forwardSignal app.config now roomHandle senderId peerId payload inner).map .forwarded id

/-- The seven ways in which one operation takes a state to another. -/
inductive Applied (app : AppState) (now : ℕ) (inner : StateInner) :
    Operation → Outcome → StateInner → Prop
  | register {roomHandle role preferredClientId handle result inner'}
      (h : register app.config now roomHandle role preferredClientId handle inner =
        (result, inner')) :
      Applied app now inner (.register roomHandle role preferredClientId handle)
        (.registered result) inner'
  | unregister {roomHandle role clientId result inner'}
      (h : unregister app.config now roomHandle role clientId inner = (result, inner')) :
      Applied app now inner (.unregister roomHandle role clientId) (.unregistered result) inner'
  | candidateLoginForRoom {roomHandle credentialRequest rng token result inner'}
      (h : candidateLoginForRoom app now roomHandle credentialRequest rng token inner =
        (result, inner')) :
      Applied app now inner (.candidateLoginForRoom roomHandle credentialRequest rng token)
        (.candidate result) inner'
  | storeRoom {roomHandle passwordFile result inner'}
      (h : storeRoom app.config now roomHandle passwordFile inner = (result, inner')) :
      Applied app now inner (.storeRoom roomHandle passwordFile) (.checked result) inner'
  | ensureRoomCapacity {result inner'}
      (h : ensureRoomCapacity app.config now inner = (result, inner')) :
      Applied app now inner .ensureRoomCapacity (.checked result) inner'
  | checkAuthRateLimit {ip result inner'}
      (h : checkAuthRateLimit app.config now ip inner = (result, inner')) :
      Applied app now inner (.checkAuthRateLimit ip) (.checked result) inner'
  | forwardSignal {roomHandle senderId peerId payload result inner'}
      (h : forwardSignal app.config now roomHandle senderId peerId payload inner =
        (result, inner')) :
      Applied app now inner (.forwardSignal roomHandle senderId peerId payload)
        (.forwarded result) inner'

theorem AppState.applied {app : AppState} {now : ℕ} {inner inner' : StateInner}
    {op : Operation} {outcome : Outcome} (h : app.apply now op inner = (outcome, inner')) :
    Applied app now inner op outcome inner' := by
  obtain ⟨rfl, rfl⟩ := Prod.mk.inj h
  cases op with
  | register roomHandle role preferredClientId handle => exact .register rfl
  | unregister roomHandle role clientId => exact .unregister rfl
  | candidateLoginForRoom roomHandle credentialRequest rng token =>
    exact .candidateLoginForRoom rfl
  | storeRoom roomHandle passwordFile => exact .storeRoom rfl
  | ensureRoomCapacity => exact .ensureRoomCapacity rfl
  | checkAuthRateLimit ip => exact .checkAuthRateLimit rfl
  | forwardSignal roomHandle senderId peerId payload => exact .forwardSignal rfl

/-- The shared state and the latest reading of the clock. -/
structure ServerState where
  clock : ℕ
  inner : StateInner

def ServerState.initial : ServerState := ⟨0, .empty⟩

structure Call where
  now : ℕ
  op : Operation

def AppState.step (app : AppState) (s : ServerState) (call : Call) :
    Option (ServerState × Outcome) :=
  if s.clock ≤ call.now then
    let r := app.apply call.now call.op s.inner
    some (⟨call.now, r.2⟩, r.1)
  else none

abbrev ServerTransition := Transition ServerState Call Outcome

abbrev AppState.ServerRun (app : AppState) := Run app.step ServerState.initial

theorem AppState.step_eq_some {app : AppState} {s t : ServerState} {call : Call}
    {outcome : Outcome} (h : app.step s call = some (t, outcome)) :
    s.clock ≤ call.now ∧ t.clock = call.now ∧
      Applied app call.now s.inner call.op outcome t.inner := by
  simp only [AppState.step] at h
  split_ifs at h with hclock
  obtain ⟨rfl, rfl⟩ := Prod.mk.inj (Option.some.inj h)
  exact ⟨hclock, rfl, AppState.applied rfl⟩

/-! ## Membership and password files -/

/-- The handle registered in a room under a role and an id. -/
def handleAt (inner : StateInner) (roomHandle : String) (role : ClientRole) (id : String) :
    Option ClientHandle :=
  (inner.rooms.lookup roomHandle).bind fun room => (room.clients role).lookup id

/-- The password file of a room, if the room exists. -/
def passwordFileOf (inner : StateInner) (roomHandle : String) : Option Bytes :=
  (inner.rooms.lookup roomHandle).map RoomState.passwordFile

@[simp] theorem handleAt_empty (roomHandle : String) (role : ClientRole) (id : String) :
    handleAt .empty roomHandle role id = none := rfl

theorem handleAt_eq_some {inner : StateInner} {roomHandle : String} {role : ClientRole}
    {id : String} {handle : ClientHandle} :
    handleAt inner roomHandle role id = some handle ↔
      ∃ room, inner.rooms.lookup roomHandle = some room ∧
        (room.clients role).lookup id = some handle := by
  simp [handleAt, Option.bind_eq_some_iff]

theorem handleAt_of_lookup {inner : StateInner} {roomHandle : String} {room : RoomState}
    (h : inner.rooms.lookup roomHandle = some room) (role : ClientRole) (id : String) :
    handleAt inner roomHandle role id = (room.clients role).lookup id := by
  simp [handleAt, h]

theorem retainsRoom_of_member {config : SecurityConfig} {now : ℕ} {room : RoomState}
    {role : ClientRole} {id : String} {handle : ClientHandle}
    (h : (room.clients role).lookup id = some handle) : retainsRoom config now room = true := by
  have hvacant : room.vacant = false := by
    apply Bool.eq_false_iff.mpr
    intro hvacant
    simp [RoomState.vacant_iff.mp hvacant role id] at h
  simp [retainsRoom, hvacant]

theorem lookup_prune (config : SecurityConfig) (now : ℕ) (inner : StateInner)
    (roomHandle : String) :
    (pruneExpiredRooms config now inner).rooms.lookup roomHandle =
      (inner.rooms.lookup roomHandle).filter (retainsRoom config now) := by
  simp only [pruneExpiredRooms, Table.lookup_retain]
  cases inner.rooms.lookup roomHandle <;> simp [Option.guard, Option.filter]

theorem lookup_prune_eq_some {config : SecurityConfig} {now : ℕ} {inner : StateInner}
    {roomHandle : String} {room : RoomState} :
    (pruneExpiredRooms config now inner).rooms.lookup roomHandle = some room ↔
      inner.rooms.lookup roomHandle = some room ∧ retainsRoom config now room = true := by
  rw [lookup_prune, Option.filter_eq_some_iff]

/-- Only vacant rooms are pruned, so nobody's membership changes. -/
@[simp] theorem handleAt_prune (config : SecurityConfig) (now : ℕ) (inner : StateInner)
    (roomHandle : String) (role : ClientRole) (id : String) :
    handleAt (pruneExpiredRooms config now inner) roomHandle role id =
      handleAt inner roomHandle role id := by
  apply Option.ext
  intro handle
  simp only [handleAt_eq_some, lookup_prune_eq_some]
  constructor
  · rintro ⟨room, ⟨hroom, -⟩, hid⟩
    exact ⟨room, hroom, hid⟩
  · rintro ⟨room, hroom, hid⟩
    exact ⟨room, ⟨hroom, retainsRoom_of_member hid⟩, hid⟩

/-- Membership after one room has been replaced. -/
theorem handleAt_insert (inner : StateInner) (n : ℕ) (events : Table IpAddr (List ℕ))
    (roomHandle : String) (room : RoomState) (roomHandle' : String) (role : ClientRole)
    (id : String) :
    handleAt ⟨n, inner.rooms.insert roomHandle room, events⟩ roomHandle' role id =
      if roomHandle' = roomHandle then (room.clients role).lookup id
      else handleAt inner roomHandle' role id := by
  unfold handleAt
  rw [Table.lookup_insert_ite]
  split_ifs <;> rfl

theorem passwordFileOf_insert (inner : StateInner) (n : ℕ) (events : Table IpAddr (List ℕ))
    (roomHandle : String) (room : RoomState) (roomHandle' : String) :
    passwordFileOf ⟨n, inner.rooms.insert roomHandle room, events⟩ roomHandle' =
      if roomHandle' = roomHandle then some room.passwordFile
      else passwordFileOf inner roomHandle' := by
  unfold passwordFileOf
  rw [Table.lookup_insert_ite]
  split_ifs <;> rfl

end ManInTheBox.Server
