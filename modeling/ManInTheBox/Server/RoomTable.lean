import ManInTheBox.Server.Effects
import ManInTheBox.Server.IdealPake

/-! # Safety of the room table

Over every run: the table respects its quota, a room keeps its password file for
as long as it exists, and a room goes away only when it is vacant and nothing
has happened in it for the configured time. The invariant that carries this ties
each room's `lastActiveAt` to the events of the history.
-/

namespace ManInTheBox.Server

open Library

variable {app : AppState} {now : ℕ} {inner inner' : StateInner} {roomHandle : String}

/-- The step is a call of `forward_signal` on the room that passed its rate check, whatever
came of the signal afterwards. -/
def passedSignal (roomHandle : String) (t : ServerTransition) : Bool :=
  match t.label.op, t.output with
  | .forwardSignal r _ _ _, .forwarded result =>
    r = roomHandle && result ≠ .error .channelNotFound && result ≠ .error .roomSignalRateLimit
  | _, _ => false

/-- The moments that count as activity in a room: its creation, a client joining or leaving it
and a signal accepted in it. -/
def Activity (roomHandle : String) (t : ServerTransition) : Prop :=
  match t.label.op, t.output with
  | .storeRoom r _, .checked (.ok _) => r = roomHandle
  | .register r _ _ _, .registered (.ok _) => r = roomHandle
  | .unregister r role id, .unregistered _ =>
    r = roomHandle ∧ (handleAt t.source.inner r role id).isSome
  | .forwardSignal _ _ _ _, .forwarded _ => passedSignal roomHandle t = true
  | _, _ => False

/-- The room after the entry pruning of a step at `now`. -/
abbrev prunedRoom (app : AppState) (now : ℕ) (inner : StateInner) (roomHandle : String) :
    Option RoomState :=
  (pruneExpiredRooms app.config now inner).rooms.lookup roomHandle

/-- Where a room that is there after a step comes from: it was there after the entry pruning,
with the same password file and signals, or the step created it. -/
inductive RoomOrigin (app : AppState) (now : ℕ) (op : Operation) (inner : StateInner)
    (roomHandle : String) (room' : RoomState) : Prop
  | kept (room : RoomState) (before : prunedRoom app now inner roomHandle = some room)
      (file : room'.passwordFile = room.passwordFile)
      (active : room'.lastActiveAt = room.lastActiveAt ∨ room'.lastActiveAt = now)
      (signals : room'.signalEvents = room.signalEvents ∨
        ∃ senderId peerId payload, op = .forwardSignal roomHandle senderId peerId payload)
  | created (file : Bytes) (call : op = .storeRoom roomHandle file)
      (absent : prunedRoom app now inner roomHandle = none)
      (fresh : room' = ⟨file, ∅, ∅, now, []⟩)

theorem RoomOrigin.refl {op : Operation} {room : RoomState}
    (h : prunedRoom app now inner roomHandle = some room) :
    RoomOrigin app now op inner roomHandle room :=
  .kept room h rfl (.inl rfl) (.inl rfl)

/-- Replacing one room by a room with the same file, active then or now. -/
theorem RoomOrigin.of_insert {op : Operation} {r : String} {room room₁ room' : RoomState}
    (hroom : prunedRoom app now inner r = some room)
    (hfile : room₁.passwordFile = room.passwordFile)
    (hactive : room₁.lastActiveAt = room.lastActiveAt ∨ room₁.lastActiveAt = now)
    (hsignals : room₁.signalEvents = room.signalEvents ∨
      ∃ senderId peerId payload, op = .forwardSignal r senderId peerId payload)
    (h : ((pruneExpiredRooms app.config now inner).rooms.insert r room₁).lookup roomHandle =
      some room') : RoomOrigin app now op inner roomHandle room' := by
  rw [Table.lookup_insert_ite] at h
  split_ifs at h with hr
  · subst hr
    obtain rfl := Option.some.inj h
    exact .kept room hroom hfile hactive hsignals
  · exact .refl h

theorem lookup_of_prune {config : SecurityConfig} {room : RoomState}
    (h : (pruneExpiredRooms config now inner).rooms.lookup roomHandle = some room) :
    inner.rooms.lookup roomHandle = some room :=
  (lookup_prune_eq_some.mp h).1

theorem prunedRoom_again {room : RoomState} (h : prunedRoom app now inner roomHandle = some room) :
    prunedRoom app now (pruneExpiredRooms app.config now inner) roomHandle = some room :=
  lookup_prune_eq_some.mpr ⟨h, (lookup_prune_eq_some.mp h).2⟩

/-- Every room left by a step has an origin, whatever the operation. -/
theorem apply_origin {op : Operation} {outcome : Outcome} {room' : RoomState}
    (h : Applied app now inner op outcome inner')
    (hroom' : inner'.rooms.lookup roomHandle = some room') :
    RoomOrigin app now op inner roomHandle room' := by
  cases h with
  | register hop =>
    rcases register_cases hop with ⟨-, rfl, -⟩ | ⟨room, id, n, hroom, -, -, rfl⟩
    · exact .refl hroom'
    · exact .of_insert hroom (by simp [RoomState.joined]) (.inr rfl)
        (.inl (by simp [RoomState.joined])) hroom'
  | unregister hop =>
    rcases unregister_cases hop with ⟨-, -, rfl⟩ | ⟨room, hroom, -, -, rfl⟩
    · exact .refl (lookup_of_prune hroom')
    · exact .of_insert hroom (by simp [RoomState.left]) (.inr rfl)
        (.inl (by simp [RoomState.left])) (lookup_of_prune hroom')
  | candidateLoginForRoom hop =>
    obtain rfl := candidateLoginForRoom_inner hop
    exact .refl hroom'
  | storeRoom hop =>
    rcases storeRoom_cases hop with ⟨-, rfl, -⟩ | ⟨-, rfl, -⟩ | ⟨-, -, hnone, rfl⟩
    · exact .refl hroom'
    · exact .refl hroom'
    · rw [Table.lookup_insert_ite] at hroom'
      split_ifs at hroom' with hr
      · subst hr
        exact .created _ rfl hnone (Option.some.inj hroom').symm
      · exact .refl hroom'
  | ensureRoomCapacity hop =>
    obtain ⟨rfl, -⟩ := ensureRoomCapacity_cases hop
    exact .refl hroom'
  | checkAuthRateLimit hop =>
    rw [checkAuthRateLimit_rooms hop] at hroom'
    exact .refl hroom'
  | forwardSignal hop =>
    rcases forwardSignal_cases hop with ⟨-, rfl, -⟩ | ⟨room, hroom, ⟨-, -, rfl⟩ | ⟨-, -, rfl⟩⟩
    · exact .refl hroom'
    · refine .of_insert hroom ?_ ?_ (.inr ⟨_, _, _, rfl⟩) hroom'
      · rfl
      · exact .inl rfl
    · refine .of_insert hroom ?_ ?_ (.inr ⟨_, _, _, rfl⟩) hroom'
      · rfl
      · exact .inr rfl

/-- A password file that is there after a step was there before it, or the step stored it. -/
theorem passwordFileOf_origin {op : Operation} {outcome : Outcome} {file : Bytes}
    (h : Applied app now inner op outcome inner')
    (hfile : passwordFileOf inner' roomHandle = some file) :
    passwordFileOf inner roomHandle = some file ∨
      op = .storeRoom roomHandle file ∧ prunedRoom app now inner roomHandle = none := by
  obtain ⟨room', hroom', rfl⟩ := Option.map_eq_some_iff.mp hfile
  cases apply_origin h hroom' with
  | kept room before file active signals =>
    left
    rw [passwordFileOf, lookup_of_prune before, Option.map_some, file]
  | created file call absent fresh =>
    right
    rw [call, fresh]
    exact ⟨rfl, absent⟩

/-- A step leaves no more rooms than the quota allows, if there were no more before. -/
theorem apply_size_le {op : Operation} {outcome : Outcome}
    (h : Applied app now inner op outcome inner')
    (hsize : Table.size inner.rooms ≤ app.config.maxRooms) :
    Table.size inner'.rooms ≤ app.config.maxRooms := by
  have hprune (inner : StateInner) : Table.size (pruneExpiredRooms app.config now inner).rooms ≤
      Table.size inner.rooms := Table.size_retain_le _ _
  have hpruned := (hprune inner).trans hsize
  have hreplace {r : String} {room : RoomState} (room' : RoomState)
      (hroom : prunedRoom app now inner r = some room) :
      Table.size ((pruneExpiredRooms app.config now inner).rooms.insert r room') ≤
        app.config.maxRooms := by
    rw [Table.size_insert_of_present _ (Option.isSome_of_eq_some hroom)]
    exact hpruned
  cases h with
  | register hop =>
    rcases register_cases hop with ⟨-, rfl, -⟩ | ⟨room, id, n, hroom, -, -, rfl⟩
    · exact hpruned
    · exact hreplace _ hroom
  | unregister hop =>
    rcases unregister_cases hop with ⟨-, -, rfl⟩ | ⟨room, hroom, -, -, rfl⟩
    · exact (hprune _).trans hpruned
    · exact (hprune _).trans (hreplace _ hroom)
  | candidateLoginForRoom hop =>
    obtain rfl := candidateLoginForRoom_inner hop
    exact hpruned
  | storeRoom hop =>
    rcases storeRoom_cases hop with ⟨-, rfl, -⟩ | ⟨-, rfl, -⟩ | ⟨-, hroom, hnone, rfl⟩
    · exact hpruned
    · exact hpruned
    · change Table.size (AList.insert _ _ _) ≤ _
      rw [Table.size_insert_of_absent _ hnone]
      exact hroom
  | ensureRoomCapacity hop =>
    obtain ⟨rfl, -⟩ := ensureRoomCapacity_cases hop
    exact hpruned
  | checkAuthRateLimit hop =>
    rw [checkAuthRateLimit_rooms hop]
    exact hpruned
  | forwardSignal hop =>
    rcases forwardSignal_cases hop with ⟨-, rfl, -⟩ | ⟨room, hroom, ⟨-, -, rfl⟩ | ⟨-, -, rfl⟩⟩
    · exact hpruned
    · exact hreplace _ hroom
    · exact hreplace _ hroom

/-- A room that survives the entry pruning is gone after the step only if the step was the
`unregister` of one of its clients, which left it vacant under a zero time to live. -/
theorem apply_vanishes {op : Operation} {outcome : Outcome} {room : RoomState}
    (h : Applied app now inner op outcome inner')
    (hroom : prunedRoom app now inner roomHandle = some room)
    (hgone : inner'.rooms.lookup roomHandle = none) :
    app.config.roomTtl = 0 ∧ ∃ role id, op = .unregister roomHandle role id ∧
      ∀ role' id', handleAt inner' roomHandle role' id' = none := by
  have hkept {inner₁ : StateInner} (hsame : inner₁.rooms.lookup roomHandle = some room)
      (hnone : inner₁.rooms.lookup roomHandle = none) : False := by
    rw [hsame] at hnone
    cases hnone
  have hreplaced {r : String} {room₁ : RoomState} (hnone :
      ((pruneExpiredRooms app.config now inner).rooms.insert r room₁).lookup roomHandle = none) :
      False := by
    rw [Table.lookup_insert_ite] at hnone
    split_ifs at hnone
    exact hkept hroom hnone
  cases h with
  | register hop =>
    rcases register_cases hop with ⟨-, rfl, -⟩ | ⟨room₁, id, n, hroom₁, -, -, rfl⟩
    · exact (hkept hroom hgone).elim
    · exact (hreplaced hgone).elim
  | @unregister r role id result inner' hop =>
    rcases unregister_cases hop with ⟨-, -, rfl⟩ | ⟨room₁, hroom₁, hmem, -, rfl⟩
    · exact (hkept (prunedRoom_again hroom) hgone).elim
    · have hgone' := hgone
      rw [lookup_prune, Table.lookup_insert_ite] at hgone
      split_ifs at hgone with hr
      · subst hr
        rw [Option.filter_some] at hgone
        split_ifs at hgone with hretains
        have httl : app.config.roomTtl = 0 := by
          by_contra hpos
          apply hretains
          have : 0 < app.config.roomTtl := Nat.pos_of_ne_zero hpos
          simp [retainsRoom, RoomState.left, this]
        refine ⟨httl, role, id, rfl, ?_⟩
        intro role' id'
        simp [handleAt, hgone']
      · rw [← lookup_prune] at hgone
        exact (hkept (prunedRoom_again hroom) hgone).elim
  | candidateLoginForRoom hop =>
    obtain rfl := candidateLoginForRoom_inner hop
    exact (hkept hroom hgone).elim
  | storeRoom hop =>
    rcases storeRoom_cases hop with ⟨-, rfl, -⟩ | ⟨-, rfl, -⟩ | ⟨-, -, -, rfl⟩
    · exact (hkept hroom hgone).elim
    · exact (hkept hroom hgone).elim
    · exact (hreplaced hgone).elim
  | ensureRoomCapacity hop =>
    obtain ⟨rfl, -⟩ := ensureRoomCapacity_cases hop
    exact (hkept hroom hgone).elim
  | checkAuthRateLimit hop =>
    rw [checkAuthRateLimit_rooms hop] at hgone
    exact (hkept hroom hgone).elim
  | forwardSignal hop =>
    rcases forwardSignal_cases hop with ⟨-, rfl, -⟩ | ⟨room, hroom, ⟨-, -, rfl⟩ | ⟨-, -, rfl⟩⟩
    · exact (hkept hroom hgone).elim
    · exact (hreplaced hgone).elim
    · exact (hreplaced hgone).elim

/-- Activity in a room that is still there afterwards has just been stamped. -/
theorem activity_stamped {t : ServerTransition} {room' : RoomState}
    (h : Applied app t.label.now t.source.inner t.label.op t.output t.target.inner)
    (hactive : Activity roomHandle t)
    (hroom' : t.target.inner.rooms.lookup roomHandle = some room') :
    room'.lastActiveAt = t.label.now := by
  obtain ⟨⟨clock, inner⟩, ⟨now, op⟩, outcome, ⟨clock', inner'⟩⟩ := t
  dsimp only at h hroom'
  cases h with
  | @register r role preferred handle result inner' hop =>
    cases result with
    | error e => exact hactive.elim
    | ok outcome =>
      obtain rfl : r = roomHandle := hactive
      rcases register_cases hop with ⟨herror, -⟩ | ⟨room, id, n, hroom, -, -, rfl⟩
      · cases herror
      · rw [AList.lookup_insert] at hroom'
        rw [← Option.some.inj hroom', RoomState.joined]
  | @unregister r role id result inner' hop =>
    obtain ⟨rfl, hsome⟩ : r = roomHandle ∧ (handleAt inner r role id).isSome := hactive
    rcases unregister_cases hop with ⟨hnone, -⟩ | ⟨room, hroom, -, -, rfl⟩
    · rw [hnone] at hsome
      cases hsome
    · have hleft := lookup_of_prune hroom'
      rw [AList.lookup_insert] at hleft
      rw [← Option.some.inj hleft, RoomState.left]
  | candidateLoginForRoom hop => exact hactive.elim
  | @storeRoom r file result inner' hop =>
    cases result with
    | error e => exact hactive.elim
    | ok _ =>
      obtain rfl : r = roomHandle := hactive
      rcases storeRoom_cases hop with ⟨herror, -⟩ | ⟨herror, -⟩ | ⟨-, -, -, rfl⟩
      · cases herror
      · cases herror
      · rw [AList.lookup_insert] at hroom'
        rw [← Option.some.inj hroom']
  | ensureRoomCapacity hop => exact hactive.elim
  | checkAuthRateLimit hop => exact hactive.elim
  | @forwardSignal r senderId peerId payload result inner' hop =>
    obtain ⟨⟨rfl, hfound⟩, hunlimited⟩ : (r = roomHandle ∧ result ≠ .error .channelNotFound) ∧
        result ≠ .error .roomSignalRateLimit := by
      simpa [Activity, passedSignal] using hactive
    rcases forwardSignal_cases hop with
      ⟨herror, -⟩ | ⟨room, hroom, ⟨-, herror, -⟩ | ⟨-, -, rfl⟩⟩
    · exact absurd herror hfound
    · exact absurd herror hunlimited
    · rw [AList.lookup_insert] at hroom'
      rw [← Option.some.inj hroom']

/-- What a history says about the state it leads to: its steps are past, and no room has seen
activity after the moment in its `lastActiveAt`. -/
structure RoomHistory (history : List ServerTransition) (s : ServerState) : Prop where
  past : ∀ u ∈ history, u.label.now ≤ s.clock
  stamped : ∀ roomHandle room, s.inner.rooms.lookup roomHandle = some room →
    room.lastActiveAt ≤ s.clock ∧
      ∀ u ∈ history, Activity roomHandle u → u.label.now ≤ room.lastActiveAt

theorem RoomHistory.step {history : List ServerTransition} {s t : ServerState} {call : Call}
    {outcome : Outcome} (h : RoomHistory history s)
    (taken : app.step s call = some (t, outcome)) :
    RoomHistory (history ++ [⟨s, call, outcome, t⟩]) t := by
  obtain ⟨hclock, htime, happlied⟩ := AppState.step_eq_some taken
  have hpast : ∀ u ∈ history, u.label.now ≤ call.now := fun u hu => (h.past u hu).trans hclock
  constructor
  · intro u hu
    rcases List.mem_append.mp hu with hu | hu
    · exact htime ▸ hpast u hu
    · obtain rfl := List.mem_singleton.mp hu
      exact htime.ge
  · intro roomHandle room' hroom'
    have hstamp : Activity roomHandle ⟨s, call, outcome, t⟩ → call.now ≤ room'.lastActiveAt :=
      fun hactive => (activity_stamped happlied hactive hroom').ge
    cases apply_origin happlied hroom' with
    | kept room before file active signals =>
      obtain ⟨hle, hall⟩ := h.stamped roomHandle room (lookup_of_prune before)
      constructor
      · rcases active with hactive | hactive <;> rw [hactive, htime]
        exact hle.trans hclock
      · intro u hu hactivity
        rcases List.mem_append.mp hu with hu | hu
        · rcases active with hactive | hactive <;> rw [hactive]
          · exact hall u hu hactivity
          · exact hpast u hu
        · obtain rfl := List.mem_singleton.mp hu
          exact hstamp hactivity
    | created file call' absent fresh =>
      have hnow : room'.lastActiveAt = call.now := by rw [fresh]
      refine ⟨by rw [hnow, htime], ?_⟩
      intro u hu hactivity
      rcases List.mem_append.mp hu with hu | hu
      · exact hnow ▸ hpast u hu
      · obtain rfl := List.mem_singleton.mp hu
        exact hstamp hactivity

theorem roomHistory_of_run {history : List ServerTransition} {s : ServerState}
    (run : app.ServerRun history s) : RoomHistory history s := by
  apply run.historyInvariant RoomHistory
  · constructor
    · simp
    · intro roomHandle room hroom
      cases hroom
  · intro history s call t outcome _ h taken
    exact h.step taken

/-! ## The safety of every step -/

/-- The entry pruning of the step removes the room. -/
def ExpiresOnEntry (app : AppState) (t : ServerTransition) (roomHandle : String) : Prop :=
  (passwordFileOf t.source.inner roomHandle).isSome ∧
    prunedRoom app t.label.now t.source.inner roomHandle = none

/-- The room survives the entry pruning and is gone after the step. -/
def VanishesOnExit (app : AppState) (t : ServerTransition) (roomHandle : String) : Prop :=
  (prunedRoom app t.label.now t.source.inner roomHandle).isSome ∧
    t.target.inner.rooms.lookup roomHandle = none

/-- The step comes at least the time to live after all activity in the room. -/
def IdleFor (app : AppState) (history : List ServerTransition) (t : ServerTransition)
    (roomHandle : String) : Prop :=
  ∀ u ∈ history, Activity roomHandle u → u.label.now + app.config.roomTtl ≤ t.label.now

structure SafeRoomStep (app : AppState) (past : List ServerTransition) (t : ServerTransition)
    (roomHandle : String) : Prop where
  keepsFile : ∀ file, passwordFileOf t.source.inner roomHandle = some file →
    passwordFileOf t.target.inner roomHandle = some file ∨ ExpiresOnEntry app t roomHandle ∨
      VanishesOnExit app t roomHandle
  neverOverwrites : ∀ file, t.label.op = .storeRoom roomHandle file →
    t.output = .checked (.ok ()) → passwordFileOf t.source.inner roomHandle = none ∨
      ExpiresOnEntry app t roomHandle
  expires : ExpiresOnEntry app t roomHandle → IdleFor app past t roomHandle ∧
    ∀ role id, handleAt t.source.inner roomHandle role id = none
  vanishes : VanishesOnExit app t roomHandle → IdleFor app (past ++ [t]) t roomHandle ∧
    ∃ role id, t.label.op = .unregister roomHandle role id ∧
      ∀ role' id', (handleAt t.source.inner roomHandle role' id').isSome →
        role' = role ∧ id' = id

/-- A room that the entry pruning removes is vacant and its time is over. -/
theorem idle_of_pruned {room : RoomState} (hroom : inner.rooms.lookup roomHandle = some room)
    (hpruned : prunedRoom app now inner roomHandle = none) :
    room.vacant = true ∧ app.config.roomTtl ≤ now - room.lastActiveAt := by
  rw [prunedRoom, lookup_prune, hroom, Option.filter_some] at hpruned
  split_ifs at hpruned with hretains
  rw [retainsRoom] at hretains
  cases hvacant : room.vacant <;> simp [hvacant] at hretains ⊢
  exact hretains

theorem RoomHistory.safeStep {past : List ServerTransition} {t : ServerTransition}
    (h : RoomHistory past t.source)
    (taken : app.step t.source t.label = some (t.target, t.output)) (roomHandle : String) :
    SafeRoomStep app past t roomHandle := by
  obtain ⟨hclock, htime, happlied⟩ := AppState.step_eq_some taken
  constructor
  · intro file hfile
    obtain ⟨room, hroom, rfl⟩ := Option.map_eq_some_iff.mp hfile
    cases hpruned : prunedRoom app t.label.now t.source.inner roomHandle with
    | none => exact .inr (.inl ⟨Option.isSome_of_eq_some hfile, hpruned⟩)
    | some room₁ =>
      obtain rfl : room₁ = room := Option.some.inj ((lookup_of_prune hpruned).symm.trans hroom)
      cases hafter : t.target.inner.rooms.lookup roomHandle with
      | none => exact .inr (.inr ⟨Option.isSome_of_eq_some hpruned, hafter⟩)
      | some room' =>
        left
        cases apply_origin happlied hafter with
        | kept room₂ before file active signals =>
          obtain rfl := Option.some.inj (before.symm.trans hpruned)
          rw [passwordFileOf, hafter, Option.map_some, file]
        | created file call absent fresh =>
          rw [hpruned] at absent
          cases absent
  · intro file hop hok
    cases hsource : passwordFileOf t.source.inner roomHandle with
    | none => exact .inl rfl
    | some file' =>
      right
      rw [hop, hok] at happlied
      cases happlied with
      | storeRoom hstore =>
        rcases storeRoom_cases hstore with ⟨herror, -⟩ | ⟨herror, -⟩ | ⟨-, -, hnone, -⟩
        · cases herror
        · cases herror
        · exact ⟨Option.isSome_of_eq_some hsource, hnone⟩
  · rintro ⟨hsome, hpruned⟩
    obtain ⟨file, hfile⟩ := Option.isSome_iff_exists.mp hsome
    obtain ⟨room, hroom, -⟩ := Option.map_eq_some_iff.mp hfile
    obtain ⟨hvacant, httl⟩ := idle_of_pruned hroom hpruned
    obtain ⟨hle, hall⟩ := h.stamped roomHandle room hroom
    constructor
    · intro u hu hactive
      have := hall u hu hactive
      omega
    · intro role id
      rw [handleAt_of_lookup hroom]
      exact RoomState.vacant_iff.mp hvacant role id
  · rintro ⟨hsome, hgone⟩
    obtain ⟨room, hroom⟩ := Option.isSome_iff_exists.mp hsome
    obtain ⟨httl, role, id, hop, hnobody⟩ := apply_vanishes happlied hroom hgone
    constructor
    · intro u hu _
      rw [httl, Nat.add_zero, ← htime]
      exact (h.step taken).past u hu
    · refine ⟨role, id, hop, ?_⟩
      intro role' id' hregistered
      generalize hout : t.output = outcome at happlied
      rw [hop] at happlied
      cases happlied with
      | unregister hunregister =>
        have hspec := (unregister_spec hunregister).1 roomHandle role' id'
        rw [hnobody] at hspec
        by_contra hother
        rw [if_neg (fun hpoint => hother hpoint.2)] at hspec
        rw [← hspec] at hregistered
        cases hregistered

/-- The room table is safe over every run: the quota is respected in every state, and at every
step a room keeps its password file unless it disappears, which it does only when it is vacant
and has been idle for its time to live. -/
theorem room_table_safety {history : List ServerTransition} {s : ServerState}
    (run : app.ServerRun history s) :
    Table.size s.inner.rooms ≤ app.config.maxRooms ∧
      ∀ past t later, history = past ++ t :: later →
        ∀ roomHandle, SafeRoomStep app past t roomHandle := by
  constructor
  · apply run.invariant (fun s => Table.size s.inner.rooms ≤ app.config.maxRooms)
    · exact Nat.zero_le _
    · intro s call t outcome hsize taken
      exact apply_size_le (AppState.step_eq_some taken).2.2 hsize
  · rintro past t later rfl roomHandle
    exact (roomHistory_of_run run.cut.1).safeStep run.cut.2 roomHandle

/-- A room that nobody joined is pruned an hour after it was stored, not earlier. -/
theorem room_table_safety_expiry : ∃ past t, ExpiresOnEntry idealApp t "room" ∧
    past.length = 2 ∧ SafeRoomStep idealApp past t "room" := by
  have h : exec idealApp.step ServerState.initial
      [⟨0, .storeRoom "room" [7]⟩, ⟨3599999999999, .ensureRoomCapacity⟩,
        ⟨3600000000000, .ensureRoomCapacity⟩] = some (_, _) := rfl
  have run : idealApp.ServerRun _ _ := Run.of_exec h
  exact ⟨[_, _], _, ⟨rfl, rfl⟩, rfl, (room_table_safety run).2 [_, _] _ [] rfl "room"⟩

end ManInTheBox.Server
