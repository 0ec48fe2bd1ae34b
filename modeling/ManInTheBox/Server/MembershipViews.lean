import ManInTheBox.Library.View
import ManInTheBox.Server.FirstMessage

/-! # The members of a room as its clients see them

A client learns who is in its room from its `Connected` and from the broadcasts
of the clients of the other role. The broadcasts are computed under the mutex and
enqueued outside it. The invariant says what is still missing: a member that a
client does not see has its announcement on the way, a departed one that it sees
has its farewell on the way, and never the other way round.
-/

namespace ManInTheBox.Server

open Library

variable {app : AppState} {history : List SystemTransition} {s t : System} {label : Label}
  {shown : Shown}

def ClientRole.select (role : ClientRole) (agents zookeepers : List String) : List String :=
  match role with
  | .agent => agents
  | .zookeeper => zookeepers

/-- What a message tells about the clients of a role. -/
def ServerMessage.notice (role : ClientRole) : ServerMessage → Notice String
  | .connected _ _ agents zookeepers => .reset (role.select agents zookeepers)
  | .peerJoined role' id => if role' = role then .add id else .ignore
  | .peerLeft role' id => if role' = role then .remove id else .ignore
  | _ => .ignore

/-- The clients of a role as they follow from the messages of a queue. -/
def membersSeen (role : ClientRole) (messages : List ServerMessage) : List String :=
  viewOf (messages.map (ServerMessage.notice role))

namespace Task

/-- The broadcasts that the task has computed and not yet enqueued. -/
def broadcasts : Task → List (ClientHandle × ServerMessage)
  | .announcing _ _ broadcasts => broadcasts
  | .departing broadcasts => broadcasts
  | _ => []

def initialMessages : Task → List ServerMessage
  | .announcing _ initialMessages _ => initialMessages
  | _ => []

end Task

def ServerMessage.isBroadcast : ServerMessage → Bool
  | .peerJoined _ _ => true
  | .peerLeft _ _ => true
  | _ => false

/-- The receiver of a broadcast has not enqueued its own `Connected` yet. -/
def AnnouncesTooEarly (s : System) (label : Label) : Prop :=
  ∃ d ∈ label.delivery s, d.2.isBroadcast = true ∧ (s.task d.1).awaitsConnected = true

/-- The first message announces an id that the second one takes back. -/
def ServerMessage.revives : ServerMessage → ServerMessage → Bool
  | .peerJoined role id, .peerLeft role' id' => role' = role && id' = id
  | _, _ => false

/-- The step enqueues that a client has joined while the task `c` has yet to tell the same receiver
that an earlier client of this id has left. -/
def RevivesBefore (s : System) (label : Label) (c : ConnId) : Prop :=
  ∃ d ∈ label.delivery s, ∃ left ∈ (s.task c).broadcasts,
    left.1 = ⟨d.1⟩ ∧ d.2.revives left.2 = true

/-- A broadcast is enqueued in an order that its receiver cannot make sense of. -/
def OutOfOrder (s : System) (label : Label) : Prop :=
  AnnouncesTooEarly s label ∨ ∃ c, RevivesBefore s label c

instance (s : System) (label : Label) : Decidable (AnnouncesTooEarly s label) :=
  inferInstanceAs (Decidable (∃ _ ∈ _, _))

instance (s : System) (label : Label) (c : ConnId) : Decidable (RevivesBefore s label c) :=
  inferInstanceAs (Decidable (∃ _ ∈ _, _))

/-- The messages of a client, its own `Connected` included when it is still to come. -/
def System.messagesOf (s : System) (z : ConnId) : List ServerMessage :=
  (s.queue z).placed ++ (s.task z).initialMessages

/-- What separates the view of a client from the members of a role in a room. -/
structure Viewed (s : System) (z : ConnId) (roomHandle : String) (role : ClientRole) : Prop where
  present : ∀ id c, handleAt s.inner roomHandle role id = some ⟨c⟩ →
    (⟨z⟩, .peerJoined role id) ∈ (s.task c).broadcasts ∨
      (id ∈ membersSeen role (s.messagesOf z) ∧
        ∀ c', (⟨z⟩, .peerLeft role id) ∉ (s.task c').broadcasts)
  absent : ∀ id, handleAt s.inner roomHandle role id = none →
    id ∈ membersSeen role (s.messagesOf z) →
      ∃ c, (⟨z⟩, .peerLeft role id) ∈ (s.task c).broadcasts

/-- Every registered client that is not penalized views the other role of its room. -/
def Converging (s : System) : Prop :=
  ∀ z roomHandle role id, (s.task z).membership = .registered roomHandle role id →
    (s.queue z).penalized = false → Viewed s z roomHandle role.peer

/-! ## Views after a message -/

theorem membersSeen_append (role : ClientRole) (messages : List ServerMessage)
    (message : ServerMessage) (rest : List ServerMessage) :
    membersSeen role (messages ++ [message] ++ rest) =
      viewOf (messages.map (ServerMessage.notice role) ++ [message.notice role] ++
        rest.map (ServerMessage.notice role)) := by
  simp [membersSeen]

theorem mem_membersSeen_joined {role : ClientRole} {messages : List ServerMessage}
    {id id' : String} : id' ∈ membersSeen role (messages ++ [.peerJoined role id]) ↔
      id' = id ∨ id' ∈ membersSeen role messages := by
  rw [membersSeen, List.map_append, List.map_singleton, ServerMessage.notice, if_pos rfl,
    mem_viewOf_add, membersSeen]

theorem mem_membersSeen_left {role : ClientRole} {messages : List ServerMessage}
    {id id' : String} : id' ∈ membersSeen role (messages ++ [.peerLeft role id]) ↔
      id' ≠ id ∧ id' ∈ membersSeen role messages := by
  rw [membersSeen, List.map_append, List.map_singleton, ServerMessage.notice, if_pos rfl,
    mem_viewOf_remove, membersSeen]

theorem membersSeen_of_ignored {role : ClientRole} {message : ServerMessage}
    (h : message.notice role = .ignore) (messages rest : List ServerMessage) :
    membersSeen role (messages ++ [message] ++ rest) = membersSeen role (messages ++ rest) := by
  rw [membersSeen_append, h, viewOf_ignore, membersSeen, List.map_append]

theorem membersSeen_connected (role : ClientRole) (messages : List ServerMessage) (id : String)
    (role' : ClientRole) (agents zookeepers : List String) :
    membersSeen role (messages ++ [.connected id role' agents zookeepers]) =
      role.select agents zookeepers := by
  rw [membersSeen, List.map_append, List.map_singleton, ServerMessage.notice, viewOf_reset]

/-! ## Steps -/

/-- Nothing that concerns the view has changed. -/
theorem Viewed.congr {z : ConnId} {roomHandle : String} {role : ClientRole}
    (h : Viewed s z roomHandle role)
    (hhandles : ∀ id, handleAt t.inner roomHandle role id = handleAt s.inner roomHandle role id)
    (hview : membersSeen role (t.messagesOf z) = membersSeen role (s.messagesOf z))
    (hbroadcasts : ∀ c message, (⟨z⟩, message) ∈ (t.task c).broadcasts ↔
      (⟨z⟩, message) ∈ (s.task c).broadcasts) : Viewed t z roomHandle role := by
  constructor
  · intro id c hid
    rw [hhandles] at hid
    simpa only [hview, hbroadcasts] using h.present id c hid
  · intro id hid
    rw [hhandles] at hid
    simpa only [hview, hbroadcasts] using h.absent id hid

theorem Task.quiet_ofHandshake (handshake : Handshake) :
    (Task.ofHandshake handshake).broadcasts = [] ∧
      (Task.ofHandshake handshake).initialMessages = [] := by
  cases handshake <;> exact ⟨rfl, rfl⟩

theorem Goes.broadcasts {task task' : Task} {move : Move} {frames : List SocketFrame}
    (h : Goes app task move task' frames) :
    task'.broadcasts = task.broadcasts ∧ task'.initialMessages = task.initialMessages := by
  cases h with
  | receive progress => exact Task.quiet_ofHandshake _
  | _ => exact ⟨rfl, rfl⟩

/-- A message that reaches an open queue without penalizing its owner is appended. -/
theorem Queue.trySend_unpenalized {queue queue' : Queue} {sent : Bool} {message : ServerMessage}
    (h : queue.trySend false message = (queue', sent)) (hpenalized : queue'.penalized = false) :
    queue.penalized = false ∧ queue'.placed = queue.placed ++ [message] ∧ sent = true := by
  rw [Queue.trySend, if_neg (by simp)] at h
  split_ifs at h with hroom
  · obtain ⟨rfl, rfl⟩ := Prod.mk.inj h
    exact ⟨hpenalized, rfl, rfl⟩
  · obtain ⟨rfl, -⟩ := Prod.mk.inj h
    cases hpenalized

theorem Task.open_of_registered {task : Task} {roomHandle : String} {role : ClientRole}
    {id : String} (h : task.membership = .registered roomHandle role id) :
    task.isClosed = false := by
  cases task <;> first | rfl | cases h

/-- The broadcasts of all tasks when one task has enqueued its first. -/
theorem mem_broadcasts_of_head {c : ConnId} {task : Task}
    {d : ClientHandle × ServerMessage} {rest : List (ClientHandle × ServerMessage)}
    (hbefore : (s.task c).broadcasts = d :: rest) (hafter : task.broadcasts = rest)
    (htask : t.task = Function.update s.task c task) (c' : ConnId)
    (d' : ClientHandle × ServerMessage) :
    d' ∈ (s.task c').broadcasts ↔ d' ∈ (t.task c').broadcasts ∨ (c' = c ∧ d' = d) := by
  by_cases hc : c' = c
  · subst hc
    rw [htask, Function.update_self, hbefore, hafter, List.mem_cons]
    simp [or_comm]
  · rw [htask, Function.update_of_ne hc]
    simp [hc]

/-- A client sees a member as soon as its announcement is in the queue, if no farewell to the same
id is still on its way. -/
theorem Viewed.joined {z c : ConnId} {roomHandle id : String} {role : ClientRole}
    (h : Viewed s z roomHandle role) (hinner : t.inner = s.inner)
    (hholder : handleAt s.inner roomHandle role id = some ⟨c⟩)
    (hview : ∀ id', id' ∈ membersSeen role (t.messagesOf z) ↔
      id' = id ∨ id' ∈ membersSeen role (s.messagesOf z))
    (hleft : ∀ c', (⟨z⟩, .peerLeft role id) ∉ (s.task c').broadcasts)
    (hbroadcasts : ∀ c' d, d ∈ (s.task c').broadcasts ↔
      d ∈ (t.task c').broadcasts ∨ (c' = c ∧ d = (⟨z⟩, .peerJoined role id))) :
    Viewed t z roomHandle role := by
  have hnew (id' : String) (hnot : ∀ c', (⟨z⟩, .peerLeft role id') ∉ (s.task c').broadcasts) :
      ∀ c', (⟨z⟩, .peerLeft role id') ∉ (t.task c').broadcasts :=
    fun c' hmem => hnot c' ((hbroadcasts c' _).mpr (.inl hmem))
  constructor
  · intro id' c' hid
    rw [hinner] at hid
    by_cases hsame : id' = id
    · subst hsame
      exact .inr ⟨(hview id').mpr (.inl rfl), hnew id' hleft⟩
    · rcases h.present id' c' hid with hpending | ⟨hseen, hnot⟩
      · left
        rcases (hbroadcasts c' _).mp hpending with hmem | ⟨-, heq⟩
        · exact hmem
        · simp [hsame] at heq
      · exact .inr ⟨(hview id').mpr (.inr hseen), hnew id' hnot⟩
  · intro id' hid hseen
    rw [hinner] at hid
    rcases (hview id').mp hseen with rfl | hseen
    · rw [hholder] at hid
      cases hid
    · obtain ⟨c', hpending⟩ := h.absent id' hid hseen
      refine ⟨c', ?_⟩
      rcases (hbroadcasts c' _).mp hpending with hmem | ⟨-, heq⟩
      · exact hmem
      · simp at heq

/-- A client stops seeing a member when the farewell is in the queue, and the farewell of an id that
has been taken again came before its announcement. -/
theorem Viewed.left {z c : ConnId} {roomHandle id : String} {role : ClientRole}
    (h : Viewed s z roomHandle role) (hinner : t.inner = s.inner)
    (hview : ∀ id', id' ∈ membersSeen role (t.messagesOf z) ↔
      id' ≠ id ∧ id' ∈ membersSeen role (s.messagesOf z))
    (hbroadcasts : ∀ c' d, d ∈ (s.task c').broadcasts ↔
      d ∈ (t.task c').broadcasts ∨ (c' = c ∧ d = (⟨z⟩, .peerLeft role id))) :
    Viewed t z roomHandle role := by
  constructor
  · intro id' c' hid
    rw [hinner] at hid
    rcases h.present id' c' hid with hpending | ⟨hseen, hnot⟩
    · left
      rcases (hbroadcasts c' _).mp hpending with hmem | ⟨-, heq⟩
      · exact hmem
      · simp at heq
    · have hne : id' ≠ id := by
        rintro rfl
        exact hnot c ((hbroadcasts c _).mpr (.inr ⟨rfl, rfl⟩))
      refine .inr ⟨(hview id').mpr ⟨hne, hseen⟩, fun c' hmem => ?_⟩
      exact hnot c' ((hbroadcasts c' _).mpr (.inl hmem))
  · intro id' hid hseen
    rw [hinner] at hid
    obtain ⟨hne, hseen⟩ := (hview id').mp hseen
    obtain ⟨c', hpending⟩ := h.absent id' hid hseen
    refine ⟨c', ?_⟩
    rcases (hbroadcasts c' _).mp hpending with hmem | ⟨-, heq⟩
    · exact hmem
    · simp [hne] at heq

/-- The step changes neither the members nor what is still to be enqueued. -/
theorem Viewed.of_quiet {z c : ConnId} {roomHandle : String} {role : ClientRole} {task : Task}
    (h : Viewed s z roomHandle role)
    (hhandles : ∀ id, handleAt t.inner roomHandle role id = handleAt s.inner roomHandle role id)
    (hqueue : (t.queue z).placed = (s.queue z).placed)
    (htask : t.task = Function.update s.task c task)
    (hbroadcasts : task.broadcasts = (s.task c).broadcasts)
    (hinitial : task.initialMessages = (s.task c).initialMessages) :
    Viewed t z roomHandle role := by
  apply h.congr hhandles
  · rw [System.messagesOf, System.messagesOf, hqueue]
    by_cases hz : z = c
    · subst hz
      rw [htask, Function.update_self, hinitial]
    · rw [htask, Function.update_of_ne hz]
  · intro c' message
    by_cases hc : c' = c
    · subst hc
      rw [htask, Function.update_self, hbroadcasts]
    · rw [htask, Function.update_of_ne hc]

/-! ### Enqueues -/

/-- What an open queue whose owner is not penalized holds after an enqueue. -/
theorem placed_of_deliver {z receiver : ConnId} {message : ServerMessage} {queue : Queue}
    {sent : Bool} (hopen : (s.task z).isClosed = false)
    (send : (s.queue receiver).trySend (s.task receiver).isClosed message = (queue, sent))
    (after : t.queue = Function.update s.queue receiver queue)
    (hpenalized : (t.queue z).penalized = false) :
    (s.queue z).penalized = false ∧
      (receiver = z → sent = true ∧ (t.queue z).placed = (s.queue z).placed ++ [message]) ∧
      (receiver ≠ z → (t.queue z).placed = (s.queue z).placed) := by
  by_cases hz : receiver = z
  · subst hz
    rw [hopen] at send
    rw [after, Function.update_self] at hpenalized ⊢
    have hsent := Queue.trySend_unpenalized send hpenalized
    exact ⟨hsent.1, fun _ => ⟨hsent.2.2, hsent.2.1⟩, fun hne => absurd rfl hne⟩
  · rw [after, Function.update_of_ne (Ne.symm hz)] at hpenalized ⊢
    exact ⟨hpenalized, fun heq => absurd heq hz, fun _ => rfl⟩

theorem Task.initialMessages_of_not_awaiting {task : Task} (h : task.awaitsConnected = false) :
    task.initialMessages = [] := by
  cases task with
  | announcing seat initialMessages broadcasts =>
    cases initialMessages with
    | nil => rfl
    | cons message rest => cases h
  | _ => rfl

/-- With no initial message left on either side, the messages of a client grow by the one placed. -/
theorem messagesOf_of_placed {z c : ConnId} {task : Task} {message : ServerMessage}
    (htask : t.task = Function.update s.task c task) (hnone : task.initialMessages = [])
    (hbefore : (s.task z).initialMessages = [])
    (hplaced : (t.queue z).placed = (s.queue z).placed ++ [message]) :
    t.messagesOf z = s.messagesOf z ++ [message] := by
  have hafter : (t.task z).initialMessages = [] := by
    by_cases hself : z = c
    · rw [hself, htask, Function.update_self, hnone]
    · rw [htask, Function.update_of_ne hself, hbefore]
  rw [System.messagesOf, System.messagesOf, hafter, hbefore, hplaced, List.append_nil,
    List.append_nil]

/-- An enqueue of a message that tells nothing about members. -/
theorem Viewed.of_ignored {z c receiver : ConnId} {roomHandle : String} {role : ClientRole}
    {task : Task} {message : ServerMessage} (h : Viewed s z roomHandle role)
    (hinner : t.inner = s.inner) (htask : t.task = Function.update s.task c task)
    (hplaced : receiver = z → (t.queue z).placed = (s.queue z).placed ++ [message])
    (hother : receiver ≠ z → (t.queue z).placed = (s.queue z).placed)
    (hmessage : message.notice role = .ignore)
    (hbroadcasts : task.broadcasts = (s.task c).broadcasts)
    (hinitial : task.initialMessages = (s.task c).initialMessages) :
    Viewed t z roomHandle role := by
  have hsame : (t.task z).initialMessages = (s.task z).initialMessages := by
    by_cases hz : z = c
    · subst hz
      rw [htask, Function.update_self, hinitial]
    · rw [htask, Function.update_of_ne hz]
  apply h.congr
  · simp [hinner]
  · rw [System.messagesOf, System.messagesOf, hsame]
    by_cases hz : receiver = z
    · rw [hplaced hz, membersSeen_of_ignored hmessage]
    · rw [hother hz]
  · intro c' message'
    by_cases hc : c' = c
    · subst hc
      rw [htask, Function.update_self, hbroadcasts]
    · rw [htask, Function.update_of_ne hc]

/-- The enqueue of a broadcast for another client. -/
theorem Viewed.of_other {z c receiver : ConnId} {roomHandle : String} {role : ClientRole}
    {task : Task} {message : ServerMessage} (h : Viewed s z roomHandle role)
    (hinner : t.inner = s.inner) (htask : t.task = Function.update s.task c task)
    (hother : (t.queue z).placed = (s.queue z).placed)
    (hbroadcasts : (s.task c).broadcasts = (⟨receiver⟩, message) :: task.broadcasts)
    (hne : receiver ≠ z) (hinitial : task.initialMessages = (s.task c).initialMessages) :
    Viewed t z roomHandle role := by
  apply h.congr
  · simp [hinner]
  · rw [System.messagesOf, System.messagesOf, hother]
    by_cases hz : z = c
    · subst hz
      rw [htask, Function.update_self, hinitial]
    · rw [htask, Function.update_of_ne hz]
  · intro c' message'
    rw [mem_broadcasts_of_head hbroadcasts rfl htask]
    simp [Ne.symm hne]

/-- Where a client that knows the room of a broadcast is registered. -/
theorem System.Knows.registered {z : ConnId} {roomHandle roomHandle' id : String}
    {role role' : ClientRole} (h : s.Knows roomHandle' role' z)
    (hz : (s.task z).membership = .registered roomHandle role id) :
    roomHandle = roomHandle' ∧ role = role' := by
  rcases h with ⟨id', h⟩ | h
  · rw [hz] at h
    obtain ⟨rfl, rfl, rfl⟩ := Membership.registered.inj h
    exact ⟨rfl, rfl⟩
  · rw [hz] at h
    cases h

theorem Enqueues.viewed {z receiver : ConnId} {message : ServerMessage} {resume : Bool → Task}
    {queue : Queue} {sent : Bool} {roomHandle id : String} {role : ClientRole} (hseats : s.Seats)
    (hsound : (s.task label.connection).Sound s)
    (henqueues : Enqueues label.connection (s.task label.connection) receiver message resume)
    (hmove : label.move = .enqueue)
    (send : (s.queue receiver).trySend (s.task receiver).isClosed message = (queue, sent))
    (after : t = { s with
      task := Function.update s.task label.connection (resume sent)
      queue := Function.update s.queue receiver queue })
    (hz : (s.task z).membership = .registered roomHandle role id)
    (hpenalized : (t.queue z).penalized = false) (horder : ¬ OutOfOrder s label)
    (h : (s.queue z).penalized = false → Viewed s z roomHandle role.peer) :
    Viewed t z roomHandle role.peer := by
  have hdelivery := Label.delivery_of_enqueues hmove henqueues
  have hinner : t.inner = s.inner := by rw [after]
  have htask : t.task = Function.update s.task label.connection (resume sent) := by rw [after]
  have hqueue : t.queue = Function.update s.queue receiver queue := by rw [after]
  obtain ⟨hbefore, hsent, hother⟩ :=
    placed_of_deliver (Task.open_of_registered hz) send hqueue hpenalized
  have hview := h hbefore
  have hawaits (hbroadcast : message.isBroadcast = true) (hreceiver : receiver = z) :
      (s.task z).initialMessages = [] := by
    apply Task.initialMessages_of_not_awaiting
    by_contra hawaits
    apply horder
    left
    exact ⟨_, hdelivery, hbroadcast, by simpa [hreceiver] using hawaits⟩
  have hrevives (role' : ClientRole) (id' : String) (hmessage : message = .peerJoined role' id')
      (hreceiver : receiver = z) (c' : ConnId) :
      (⟨z⟩, .peerLeft role' id') ∉ (s.task c').broadcasts := by
    intro hmem
    apply horder
    right
    exact ⟨c', _, hdelivery, _, hmem, by rw [hreceiver], by simp [hmessage, ServerMessage.revives]⟩
  clear after hdelivery
  generalize hc : label.connection = c at *
  generalize hctask : s.task c = task at henqueues hsound
  cases henqueues with
  | @initial seat message rest broadcasts =>
    have hrest : rest = [] := by
      rcases hsound.1 with hnil | ⟨agents, zookeepers, hone⟩
      · cases hnil
      · exact (List.cons.inj hone).2
    subst hrest
    apply hview.congr
    · simp [hinner]
    · rw [System.messagesOf, System.messagesOf]
      by_cases hself : receiver = z
      · subst hself
        obtain ⟨rfl, hplaced⟩ := hsent rfl
        rw [hplaced, htask, hctask, Function.update_self]
        simp [Task.initialMessages]
      · rw [hother hself, htask, Function.update_of_ne (Ne.symm hself)]
    · intro c' message'
      by_cases hc' : c' = receiver
      · rw [hc', htask, hctask, Function.update_self]
        rfl
      · rw [htask, Function.update_of_ne hc']
  | @joined seat peer message broadcasts =>
    obtain ⟨rfl, hknows⟩ := hsound.2 peer message List.mem_cons_self
    have hbroadcasts : (s.task c).broadcasts =
        (peer, .peerJoined seat.role seat.clientId) :: broadcasts := by rw [hctask]; rfl
    by_cases hreceiver : peer.connection = z
    · obtain ⟨rfl, hrole⟩ := hknows.registered (hreceiver ▸ hz)
      have hrole' : role.peer = seat.role := by rw [hrole, ClientRole.peer_peer]
      rw [hrole'] at hview ⊢
      have hmessages := messagesOf_of_placed htask rfl (hawaits rfl hreceiver) (hsent hreceiver).2
      have hholder := (hseats seat.roomHandle seat.role seat.clientId c).mpr (by rw [hctask]; rfl)
      apply hview.joined hinner hholder
      · intro id'
        rw [hmessages]
        exact mem_membersSeen_joined
      · exact hrevives _ _ rfl hreceiver
      · intro c' d
        rw [mem_broadcasts_of_head hbroadcasts rfl htask, ← hreceiver]
    · apply hview.of_other hinner htask (hother hreceiver) hbroadcasts hreceiver
      rw [hctask]
      rfl
  | @answer seat message =>
    have hmessage : message.notice role.peer = .ignore := by
      rcases hsound with rfl | ⟨error, rfl⟩ <;> rfl
    apply hview.of_ignored hinner htask (fun hself => (hsent hself).2) hother hmessage
    · rw [hctask]
      cases sent <;> rfl
    · rw [hctask]
      cases sent <;> rfl
  | @forward seat peer message =>
    obtain ⟨senderId, payload, role', rfl, -⟩ := hsound
    apply hview.of_ignored hinner htask (fun hself => (hsent hself).2) hother rfl
    · rw [hctask]
      rfl
    · rw [hctask]
      rfl
  | @left peer message broadcasts =>
    obtain ⟨roomHandle', role', id', hall⟩ := hsound
    obtain ⟨rfl, hknows⟩ := hall peer message List.mem_cons_self
    have hbroadcasts : (s.task c).broadcasts = (peer, .peerLeft role' id') :: broadcasts := by
      rw [hctask]
      rfl
    by_cases hreceiver : peer.connection = z
    · obtain ⟨-, hrole⟩ := hknows.registered (hreceiver ▸ hz)
      have hrole' : role.peer = role' := by rw [hrole, ClientRole.peer_peer]
      rw [hrole'] at hview ⊢
      have hmessages := messagesOf_of_placed htask rfl (hawaits rfl hreceiver) (hsent hreceiver).2
      apply hview.left hinner
      · intro id''
        rw [hmessages]
        exact mem_membersSeen_left
      · intro c' d
        rw [mem_broadcasts_of_head hbroadcasts rfl htask, ← hreceiver]
    · apply hview.of_other hinner htask (hother hreceiver) hbroadcasts hreceiver
      rw [hctask]
      rfl

/-! ### Operations -/

/-- The broadcasts of all tasks when a task that had none has computed some. -/
theorem mem_broadcasts_of_perform {c : ConnId} {task : Task}
    (hbefore : (s.task c).broadcasts = []) (htask : t.task = Function.update s.task c task)
    (c' : ConnId) (d : ClientHandle × ServerMessage) :
    d ∈ (t.task c').broadcasts ↔ d ∈ (s.task c').broadcasts ∨ (c' = c ∧ d ∈ task.broadcasts) := by
  by_cases hc : c' = c
  · subst hc
    rw [htask, Function.update_self, hbefore]
    simp
  · rw [htask, Function.update_of_ne hc]
    simp [hc]

/-- A client that registers learns its peers from the `Connected` that is on its way. -/
theorem Viewed.of_register {c : ConnId} {roomHandle : String} {role : ClientRole}
    {config : SecurityConfig} {now : ℕ} {preferredClientId : Option String}
    {outcome : RegisterOutcome} (hout : Outbound s)
    (hfresh : (s.task c).membership = .fresh) (hbefore : (s.task c).broadcasts = [])
    (hregister : register config now roomHandle role preferredClientId ⟨c⟩ s.inner =
      (.ok outcome, t.inner))
    (htask : t.task = Function.update s.task c
      (.announcing ⟨roomHandle, role, outcome.clientId⟩ outcome.initialMessages
        outcome.broadcasts))
    (hqueue : t.queue = s.queue) : Viewed t c roomHandle role.peer := by
  obtain ⟨-, hhandles, ⟨agents, zookeepers, hinitial, hagents, hzookeepers⟩, hbroadcasts⟩ :=
    register_ok hregister
  have hview (id : String) : id ∈ membersSeen role.peer (t.messagesOf c) ↔
      (handleAt t.inner roomHandle role.peer id).isSome := by
    rw [System.messagesOf, hqueue, hout.placed_of_fresh hfresh, htask, Function.update_self,
      Task.initialMessages, hinitial, membersSeen_connected, hhandles]
    cases role <;> simp [ClientRole.peer, ClientRole.select, hagents, hzookeepers]
  have hnone (c' : ConnId) (id : String) :
      (⟨c⟩, .peerLeft role.peer id) ∉ (t.task c').broadcasts := by
    intro hmem
    rcases (mem_broadcasts_of_perform hbefore htask c' _).mp hmem with hmem | ⟨-, hmem⟩
    · have hsound := hout.sound c'
      generalize s.task c' = task at hmem hsound
      cases task with
      | announcing seat initialMessages broadcasts =>
        exact (hsound.2 _ _ hmem).2.not_fresh hfresh
      | departing broadcasts =>
        obtain ⟨roomHandle', role', id', hall⟩ := hsound
        exact (hall _ _ hmem).2.not_fresh hfresh
      | _ => cases hmem
    · have hmessage := ((hbroadcasts _ _).mp hmem).1
      cases hmessage
  constructor
  · intro id c' hid
    right
    exact ⟨(hview id).mpr (by rw [hid]; rfl), fun c' => hnone c' id⟩
  · intro id hid hseen
    have hsome := (hview id).mp hseen
    rw [hid] at hsome
    cases hsome

/-- Who was there when another client registered is told about it. -/
theorem Viewed.of_peer_register {z c : ConnId} {roomHandle roomHandle' id : String}
    {role role' : ClientRole} {config : SecurityConfig} {now : ℕ}
    {preferredClientId : Option String} {outcome : RegisterOutcome} (hseats : s.Seats)
    (hz : (s.task z).membership = .registered roomHandle role id) (hne : z ≠ c)
    (hbefore : (s.task c).broadcasts = [])
    (hregister : register config now roomHandle' role' preferredClientId ⟨c⟩ s.inner =
      (.ok outcome, t.inner))
    (htask : t.task = Function.update s.task c
      (.announcing ⟨roomHandle', role', outcome.clientId⟩ outcome.initialMessages
        outcome.broadcasts))
    (hqueue : t.queue = s.queue) (h : Viewed s z roomHandle role.peer) :
    Viewed t z roomHandle role.peer := by
  obtain ⟨-, hhandles, -, hbroadcasts⟩ := register_ok hregister
  have hview : t.messagesOf z = s.messagesOf z := by
    rw [System.messagesOf, System.messagesOf, hqueue, htask, Function.update_of_ne hne]
  have hmem := mem_broadcasts_of_perform hbefore htask
  constructor
  · intro id' c' hid
    rw [hhandles] at hid
    split_ifs at hid with hpoint
    · obtain ⟨rfl, hrole, rfl⟩ := hpoint
      obtain rfl := ClientHandle.mk.inj (Option.some.inj hid)
      left
      rw [hmem]
      right
      refine ⟨rfl, (hbroadcasts _ _).mpr ⟨by rw [hrole], id, ?_⟩⟩
      rw [← hrole, ClientRole.peer_peer]
      exact (hseats roomHandle role id z).mpr hz
    · rcases h.present id' c' hid with hpending | ⟨hseen, hnot⟩
      · exact .inl ((hmem c' _).mpr (.inl hpending))
      · right
        refine ⟨by rwa [hview], fun c'' hleft => ?_⟩
        rcases (hmem c'' _).mp hleft with hleft | ⟨-, hleft⟩
        · exact hnot c'' hleft
        · have hmessage := ((hbroadcasts _ _).mp hleft).1
          cases hmessage
  · intro id' hid hseen
    rw [hhandles] at hid
    split_ifs at hid with hpoint
    rw [hview] at hseen
    obtain ⟨c', hpending⟩ := h.absent id' hid hseen
    exact ⟨c', (hmem c' _).mpr (.inl hpending)⟩

/-- Who is still there when a client unregisters is told about it. -/
theorem Viewed.of_unregister {z c : ConnId} {roomHandle : String} {role : ClientRole} {seat : Seat}
    {config : SecurityConfig} {now : ℕ} {outcome : UnregisterOutcome} {id : String}
    (hseats : s.Seats) (hz : (s.task z).membership = .registered roomHandle role id)
    (hne : z ≠ c) (hbefore : s.task c = .leaving seat)
    (hunregister : unregister config now seat.roomHandle seat.role seat.clientId s.inner =
      (outcome, t.inner))
    (htask : t.task = Function.update s.task c (.departing outcome.broadcasts))
    (hqueue : t.queue = s.queue) (h : Viewed s z roomHandle role.peer) :
    Viewed t z roomHandle role.peer := by
  obtain ⟨hhandles, hbroadcasts⟩ := unregister_spec hunregister
  have hseat : handleAt s.inner seat.roomHandle seat.role seat.clientId = some ⟨c⟩ :=
    (hseats _ _ _ c).mpr (by rw [hbefore]; rfl)
  have hview : t.messagesOf z = s.messagesOf z := by
    rw [System.messagesOf, System.messagesOf, hqueue, htask, Function.update_of_ne hne]
  have hmem := mem_broadcasts_of_perform (by rw [hbefore]; rfl) htask
  constructor
  · intro id' c' hid
    rw [hhandles] at hid
    split_ifs at hid with hpoint
    rcases h.present id' c' hid with hpending | ⟨hseen, hnot⟩
    · exact .inl ((hmem c' _).mpr (.inl hpending))
    · right
      refine ⟨by rwa [hview], fun c'' hleft => ?_⟩
      rcases (hmem c'' _).mp hleft with hleft | ⟨-, hleft⟩
      · exact hnot c'' hleft
      · obtain ⟨hmessage, -, idz, hpeer⟩ := (hbroadcasts _ _).mp hleft
        obtain ⟨hrole, rfl⟩ := ServerMessage.peerLeft.inj hmessage
        have hsame := (hseats _ _ _ z).mp hpeer
        rw [hz] at hsame
        obtain ⟨rfl, -, -⟩ := Membership.registered.inj hsame
        exact hpoint ⟨rfl, hrole, rfl⟩
  · intro id' hid hseen
    rw [hhandles] at hid
    rw [hview] at hseen
    split_ifs at hid with hpoint
    · obtain ⟨rfl, hrole, rfl⟩ := hpoint
      refine ⟨c, (hmem c _).mpr (.inr ⟨rfl, (hbroadcasts _ _).mpr ⟨by rw [hrole], ?_, id, ?_⟩⟩)⟩
      · rw [hseat]
        rfl
      · rw [← hrole, ClientRole.peer_peer]
        exact (hseats _ _ _ z).mpr hz
    · obtain ⟨c', hpending⟩ := h.absent id' hid hseen
      exact ⟨c', (hmem c' _).mpr (.inl hpending)⟩

/-- What an operation of the task `c` does to the view of a client: its own begins with its
`register`, and another one only ever waits for the broadcasts of `c`. -/
theorem Performs.viewed {z : ConnId} {now : ℕ} {op : Operation} {outcome : Outcome}
    {resume : Outcome → Task × List SocketFrame} {roomHandle id : String} {role : ClientRole}
    (hout : Outbound s) (hseats : s.Seats)
    (hperforms : Performs app label.connection (s.task label.connection) label.move op resume)
    (call : Applied app now s.inner op outcome t.inner)
    (htask : t.task = Function.update s.task label.connection (resume outcome).1)
    (hqueue : t.queue = s.queue)
    (hz : (t.task z).membership = .registered roomHandle role id)
    (h : (s.task z).membership = .registered roomHandle role id →
      Viewed s z roomHandle role.peer) : Viewed t z roomHandle role.peer := by
  generalize label.connection = c at *
  generalize label.move = move at hperforms
  generalize hctask : s.task c = task at hperforms
  have hother (hne : z ≠ c) : (s.task z).membership = .registered roomHandle role id := by
    rwa [htask, Function.update_of_ne hne] at hz
  have hself (hzc : z = c) : ((resume outcome).1).membership = .registered roomHandle role id := by
    rwa [hzc, htask, Function.update_self] at hz
  cases hperforms with
  | handshake operation =>
    have hne : z ≠ c := by
      intro hzc
      cases (Task.membership_ofHandshake _).symm.trans (hself hzc)
    apply (h (hother hne)).of_quiet (fun id' => ?_) (by rw [hqueue]) htask
    · rw [hctask]
      exact (Task.quiet_ofHandshake _).1
    · rw [hctask]
      exact (Task.quiet_ofHandshake _).2
    · exact handleAt_of_applied call (handshake_operation operation) roomHandle role.peer id'
  | @register role' clientAlias pendingLogin =>
    cases call with
    | @register _ _ _ _ result _ hregister =>
      cases result with
      | error error =>
        have hne : z ≠ c := by
          intro hzc
          cases hself hzc
        apply (h (hother hne)).of_quiet (fun id' => ?_) (by rw [hqueue]) htask
        · rw [hctask]
          rfl
        · rw [hctask]
          rfl
        · rw [(register_error hregister).2.1, handleAt_prune]
      | ok outcome =>
        have hbefore : (s.task c).broadcasts = [] := by rw [hctask]; rfl
        by_cases hzc : z = c
        · obtain ⟨rfl, rfl, -⟩ := Membership.registered.inj (hself hzc)
          rw [hzc]
          exact Viewed.of_register hout (by rw [hctask]; rfl) hbefore hregister htask hqueue
        · exact (h (hother hzc)).of_peer_register hseats (hother hzc) hzc hbefore hregister htask
            hqueue
  | @signal seat peerId payload =>
    cases call with
    | @forwardSignal _ _ _ _ result _ hforward =>
      have hmembership : (s.task z).membership = .registered roomHandle role id := by
        by_cases hzc : z = c
        · rw [hzc, hctask, ← hself hzc]
          cases result <;> rfl
        · exact hother hzc
      apply (h hmembership).of_quiet (fun id' => ?_) (by rw [hqueue]) htask
      · rw [hctask]
        cases result <;> rfl
      · rw [hctask]
        cases result <;> rfl
      · exact forwardSignal_handleAt hforward roomHandle role.peer id'
  | @unregister seat =>
    cases call with
    | unregister hunregister =>
      have hne : z ≠ c := by
        intro hzc
        cases hself hzc
      exact (h (hother hne)).of_unregister hseats (hother hne) hne hctask hunregister htask hqueue

theorem Converging.step (h : Converging s) (hout : Outbound s) (hseats : s.Seats)
    (taken : app.socketStep s label = some (t, shown)) (horder : ¬ OutOfOrder s label) :
    Converging t := by
  intro z roomHandle role id hz hpenalized
  obtain ⟨request, hrequest, hserved⟩ := AppState.socketStep_eq_some taken
  cases hserved with
  | goto after =>
    have hgoes := Task.request_goto hrequest
    have hmembership : (s.task z).membership = .registered roomHandle role id := by
      by_cases hzc : z = label.connection
      · rw [hzc, ← hgoes.membership]
        simpa [after, hzc] using hz
      · simpa [after, hzc] using hz
    have hview := h z roomHandle role id hmembership (by simpa [after] using hpenalized)
    exact hview.of_quiet (by simp [after]) (by rw [after]) (by rw [after]) hgoes.broadcasts.1
      hgoes.broadcasts.2
  | perform past call clock task_eq queue =>
    apply (Task.request_perform hrequest).viewed hout hseats (AppState.applied call) task_eq queue hz
    intro hmembership
    exact h z roomHandle role id hmembership (by rwa [queue] at hpenalized)
  | deliver send after =>
    obtain ⟨hmove, henqueues⟩ := Task.request_deliver hrequest
    have hmembership : (s.task z).membership = .registered roomHandle role id := by
      by_cases hzc : z = label.connection
      · rw [hzc, ← henqueues.membership]
        simpa [after, hzc] using hz
      · simpa [after, hzc] using hz
    exact henqueues.viewed hseats (hout.sound _) hmove send after hmembership hpenalized horder
      (h z roomHandle role id hmembership)
  | take next after =>
    have hqueue : (t.queue z).placed = (s.queue z).placed ∧
        (t.queue z).penalized = (s.queue z).penalized := by
      by_cases hzc : z = label.connection
      · subst hzc
        simp [after, Queue.advance]
      · simp [after, hzc]
    have hmembership : (s.task z).membership = .registered roomHandle role id := by
      rwa [after] at hz
    have hview := h z roomHandle role id hmembership (hqueue.2 ▸ hpenalized)
    apply hview.congr
    · simp [after]
    · rw [System.messagesOf, System.messagesOf, hqueue.1, after]
    · simp [after]

theorem converging_of_run (run : app.SystemRun history s)
    (horder : ∀ t ∈ history, ¬ OutOfOrder t.source t.label) : Converging s := by
  apply run.historyInvariant_of_forall (fun t => ¬ OutOfOrder t.source t.label)
    fun _ s => Converging s
  · intro z roomHandle role id hz
    cases hz
  · intro history s label t shown run h taken hclean
    exact h.step (outbound_of_run run) (handleAt_iff_membership run) taken hclean
  · exact horder

/-! ## Quiescent states -/

/-- Every broadcast that was computed has been enqueued. -/
def System.Quiescent (s : System) : Prop := ∀ c, (s.task c).broadcasts = []

/-- The messages of the client tell exactly which clients of the other role are in its room. -/
def System.ViewAgrees (s : System) (z : ConnId) (roomHandle : String) (role : ClientRole) : Prop :=
  ∃ room, s.inner.rooms.lookup roomHandle = some room ∧
    ∀ id, id ∈ membersSeen role.peer (s.queue z).placed ↔ id ∈ (room.clients role.peer).keys

/-- The views converge in every run that enqueues no broadcast before the `Connected` of its
receiver, and no `PeerJoined` before the `PeerLeft` of an earlier client of the same id. -/
theorem views_converge (run : app.SystemRun history s)
    (horder : ∀ t ∈ history, ¬ OutOfOrder t.source t.label) (hquiescent : s.Quiescent)
    {z : ConnId} {roomHandle id : String} {role : ClientRole}
    (hz : (s.task z).membership = .registered roomHandle role id)
    (hconnected : (s.task z).awaitsConnected = false)
    (hpenalized : (s.queue z).penalized = false) : s.ViewAgrees z roomHandle role := by
  have hview := converging_of_run run horder z roomHandle role id hz hpenalized
  have hseat := (handleAt_iff_membership run roomHandle role id z).mpr hz
  have hmessages : s.messagesOf z = (s.queue z).placed := by
    rw [System.messagesOf, Task.initialMessages_of_not_awaiting hconnected, List.append_nil]
  obtain ⟨room, hroom, -⟩ := Option.bind_eq_some_iff.mp hseat
  refine ⟨room, hroom, fun id' => ?_⟩
  rw [← hmessages, ← AList.mem_keys, ← AList.lookup_isSome, ← handleAt_of_lookup hroom]
  constructor
  · intro hseen
    by_contra hnot
    obtain ⟨c, hpending⟩ := hview.absent id' (Option.not_isSome_iff_eq_none.mp hnot) hseen
    rw [hquiescent c] at hpending
    cases hpending
  · intro hsome
    obtain ⟨⟨c⟩, hhandle⟩ := Option.isSome_iff_exists.mp hsome
    rcases hview.present id' c hhandle with hpending | ⟨hseen, -⟩
    · rw [hquiescent c] at hpending
      cases hpending
    · exact hseen

/-- Only the connections that a run speaks of have something to enqueue. -/
theorem System.Quiescent.of_connections (run : app.SystemRun history s) (connections : List ConnId)
    (hconnections : ∀ t ∈ history, t.label.connection ∈ connections)
    (hquiet : ∀ c ∈ connections, (s.task c).broadcasts = []) : s.Quiescent := by
  intro c
  by_cases hc : c ∈ connections
  · exact hquiet c hc
  · have hidle := idle_of_unlabelled run fun t ht heq => hc (heq.subst (hconnections t ht))
    rw [hidle]
    rfl

theorem not_outOfOrder_of_connections (run : app.SystemRun history s) (connections : List ConnId)
    (hconnections : ∀ t ∈ history, t.label.connection ∈ connections)
    (horder : ∀ t ∈ history, ¬ AnnouncesTooEarly t.source t.label ∧
      ∀ c ∈ connections, ¬ RevivesBefore t.source t.label c) :
    ∀ t ∈ history, ¬ OutOfOrder t.source t.label := by
  rintro t ht (hearly | ⟨c, hrevives⟩)
  · exact (horder t ht).1 hearly
  · by_cases hc : c ∈ connections
    · exact (horder t ht).2 c hc hrevives
    · have hidle := idle_at_source run (fun u hu heq => hc (heq.subst (hconnections u hu))) ht
      obtain ⟨d, -, left, hleft, -⟩ := hrevives
      rw [hidle] at hleft
      cases hleft

/-- An agent with the alias "a" and a zookeeper are in the room. The agent leaves, and another one
takes the alias. -/
def aliasTakenAgain (farewell announcement : List Label) : List Label :=
  Scenario.createRoom 0 1 "room" [7] (some "a") ++
    [Scenario.register 0 1, Scenario.enqueue 1, Scenario.enqueue 1] ++
    Scenario.beginLogin 1 2 .zookeeper "room" [7] none ++
    [Scenario.finishLogin 2 [7], Scenario.register 2 2] ++ List.replicate 3 (Scenario.enqueue 2) ++
    Scenario.beginLogin 3 3 .agent "room" [7] (some "a") ++ [Scenario.finishLogin 3 [7]] ++
    Scenario.leave 4 1 ++ farewell ++
    [Scenario.register 5 3] ++ announcement

/-- The farewell of the first agent is enqueued before the second one registers. -/
def takenAgainInOrder : List Label :=
  aliasTakenAgain [Scenario.enqueue 1] [Scenario.enqueue 3, Scenario.enqueue 3]

/-- The farewell of the first agent is enqueued after the announcement of the second one. -/
def takenAgainOutOfOrder : List Label :=
  aliasTakenAgain [] [Scenario.enqueue 3, Scenario.enqueue 3, Scenario.enqueue 1]

theorem views_converge_alias :
    (reached idealApp.socketStep System.initial takenAgainInOrder).ViewAgrees 2 "room"
      .zookeeper := by
  have run : idealApp.SystemRun (trace _ _ takenAgainInOrder) (reached _ _ takenAgainInOrder) :=
    Run.of_labels rfl
  have hconnections : ∀ t ∈ trace idealApp.socketStep System.initial takenAgainInOrder,
      t.label.connection ∈ [1, 2, 3] := by
    decide
  have horder := not_outOfOrder_of_connections run _ hconnections (by decide)
  have hquiescent := System.Quiescent.of_connections run _ hconnections (by decide)
  exact views_converge run horder hquiescent rfl rfl rfl

theorem view_loses_member :
    ¬ ∀ history s, idealApp.SystemRun history s → s.Quiescent →
      (∀ c, (s.queue c).penalized = false) → ∀ z roomHandle role id,
        (s.task z).membership = .registered roomHandle role id →
        (s.task z).awaitsConnected = false → s.ViewAgrees z roomHandle role := by
  intro hall
  have run : idealApp.SystemRun (trace _ _ takenAgainOutOfOrder)
    (reached _ _ takenAgainOutOfOrder) := Run.of_labels rfl
  have hconnections : ∀ t ∈ trace idealApp.socketStep System.initial takenAgainOutOfOrder,
      t.label.connection ∈ [1, 2, 3] := by
    decide
  have hquiescent := System.Quiescent.of_connections run _ hconnections (by decide)
  have hpenalized : ∀ c, ((reached idealApp.socketStep System.initial
      takenAgainOutOfOrder).queue c).penalized = false := by
    intro c
    by_cases hc : c ∈ [1, 2, 3]
    · revert c
      decide
    · have hidle := idle_of_unlabelled run fun t ht heq => hc (heq.subst (hconnections t ht))
      rw [(outbound_of_run run).unseen c (by rw [hidle]; rfl)]
      rfl
  obtain ⟨room, hroom, hview⟩ := hall _ _ run hquiescent hpenalized 2 "room" .zookeeper
    "zookeeper-1" rfl rfl
  -- agent 3 holds the id "a" in the room, and its announcement was taken back
  have hkeys : "a" ∈ (room.clients .agent).keys := by
    have hlookup : (reached idealApp.socketStep System.initial
      takenAgainOutOfOrder).inner.rooms.lookup "room" = some room := hroom
    rw [← AList.mem_keys, ← AList.lookup_isSome, ← handleAt_of_lookup hlookup]
    decide
  have hseen := (hview "a").mpr hkeys
  revert hseen
  decide

end ManInTheBox.Server
