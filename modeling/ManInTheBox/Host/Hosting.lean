import ManInTheBox.Server.Effects

/-! # A room that agents gather in

What the operations on the shared state do to one room while its time to live is
not over: a room that is there stays, and lets agents in; a room that is absent
can be stored as long as the table has space.
-/

namespace ManInTheBox.Host

open Library Server

/-- The room exists, its password file is a good one, it has been active since a moment, and no
zookeeper is in it. -/
def Hosts (good : Bytes → Prop) (since : ℕ) (roomHandle : String) (inner : StateInner) : Prop :=
  ∃ room, inner.rooms.lookup roomHandle = some room ∧ good room.passwordFile ∧
    since ≤ room.lastActiveAt ∧ ∀ id, room.zookeepers.lookup id = none

/-- The room does not exist, and there is space for it. -/
def HasSpace (config : SecurityConfig) (roomHandle : String) (inner : StateInner) : Prop :=
  inner.rooms.lookup roomHandle = none ∧ Table.size inner.rooms < config.maxRooms

variable {config : SecurityConfig} {good : Bytes → Prop} {since now : ℕ} {roomHandle : String}
  {inner inner' : StateInner}

theorem Hosts.congr (h : Hosts good since roomHandle inner) (hrooms : inner'.rooms = inner.rooms) :
    Hosts good since roomHandle inner' := by
  rw [Hosts, hrooms]
  exact h

theorem HasSpace.congr (h : HasSpace config roomHandle inner) (hrooms : inner'.rooms = inner.rooms) :
    HasSpace config roomHandle inner' := by
  rw [HasSpace, hrooms]
  exact h

theorem Hosts.prune (h : Hosts good since roomHandle inner) (intime : now - since < config.roomTtl) :
    Hosts good since roomHandle (pruneExpiredRooms config now inner) := by
  obtain ⟨room, hroom, hgood, hsince, hzookeepers⟩ := h
  have hretained : retainsRoom config now room = true := by
    rw [retainsRoom]
    split_ifs
    · rfl
    · simp
      omega
  exact ⟨room, lookup_prune_eq_some.mpr ⟨hroom, hretained⟩, hgood, hsince, hzookeepers⟩

theorem HasSpace.prune (h : HasSpace config roomHandle inner) (now : ℕ) :
    HasSpace config roomHandle (pruneExpiredRooms config now inner) := by
  constructor
  · rw [lookup_prune, h.1]
    rfl
  · exact lt_of_le_of_lt (Table.size_retain_le _ _) h.2

theorem Hosts.not_hasSpace (h : Hosts good since roomHandle inner) :
    ¬ HasSpace config roomHandle inner := by
  obtain ⟨room, hroom, -⟩ := h
  intro hspace
  rw [hspace.1] at hroom
  cases hroom

/-- An agent that registers is let in, and nobody is told. -/
theorem register_of_hosts {preferredClientId : Option String} {handle : ClientHandle}
    {result : Except ServerError RegisterOutcome} (h : Hosts good since roomHandle inner)
    (intime : now - since < config.roomTtl) (hsince : since ≤ now)
    (hregister : register config now roomHandle .agent preferredClientId handle inner =
      (result, inner')) :
    Hosts good since roomHandle inner' ∧ ∃ outcome agents zookeepers, result = .ok outcome ∧
      outcome.initialMessages = [.connected outcome.clientId .agent agents zookeepers] ∧
      outcome.broadcasts = [] := by
  obtain ⟨room, hroom, hgood, -, hzookeepers⟩ := h.prune intime
  rcases register_cases hregister with ⟨-, rfl, hnone⟩ | ⟨room', id, n, hroom', -, rfl, rfl⟩
  · rw [hroom] at hnone
    cases hnone
  · obtain rfl := Option.some.inj (hroom.symm.trans hroom')
    have hnobody : Table.values room.zookeepers = [] := by
      rw [List.eq_nil_iff_forall_not_mem]
      intro peer hpeer
      obtain ⟨id', hid'⟩ := Table.mem_values.mp hpeer
      rw [hzookeepers id'] at hid'
      cases hid'
    constructor
    · exact ⟨_, AList.lookup_insert _, hgood, hsince, hzookeepers⟩
    · refine ⟨_, _, _, rfl, rfl, ?_⟩
      simp [ClientRole.peer, RoomState.clients, hnobody]

theorem storeRoom_of_hasSpace {passwordFile : Bytes} {result : Except ServerError Unit}
    (h : HasSpace config roomHandle inner) (hgood : good passwordFile) (hsince : since ≤ now)
    (hstore : storeRoom config now roomHandle passwordFile inner = (result, inner')) :
    result = .ok () ∧ Hosts good since roomHandle inner' := by
  obtain ⟨hnone, hsize⟩ := h.prune now
  rcases storeRoom_cases hstore with ⟨-, rfl, hfull⟩ | ⟨-, rfl, hsome⟩ | ⟨rfl, -, -, rfl⟩
  · omega
  · rw [hnone] at hsome
    cases hsome
  · exact ⟨rfl, _, AList.lookup_insert _, hgood, hsince, fun _ => rfl⟩

theorem ensureRoomCapacity_of_hasSpace {result : Except ServerError Unit}
    (h : HasSpace config roomHandle inner)
    (hensure : ensureRoomCapacity config now inner = (result, inner')) :
    result = .ok () ∧ HasSpace config roomHandle inner' := by
  obtain ⟨rfl, ⟨-, hfull⟩ | ⟨rfl, -⟩⟩ := ensureRoomCapacity_cases hensure
  · have hsize := (h.prune now).2
    omega
  · exact ⟨rfl, h.prune now⟩

end ManInTheBox.Host
