import ManInTheBox.Server.Isolation
import ManInTheBox.Server.Socket

/-! # What is on its way to the queues

Between the operation that computes a message and the step that enqueues it the
message belongs to the task. The invariant here says, for every run and without
any assumption on its order, what such messages can be and to whom they go: a
task announces or takes back its own id, or forwards one signal, to clients that
have registered in its room.
-/

namespace ManInTheBox.Server

open Library

variable {app : AppState}

/-- The rooms hold exactly the registered tasks. -/
def System.Seats (s : System) : Prop :=
  ∀ roomHandle role id c, handleAt s.inner roomHandle role id = some ⟨c⟩ ↔
    (s.task c).membership = .registered roomHandle role id

/-- The connection has been a client of the room under the role, and may have left it. -/
def System.Knows (s : System) (roomHandle : String) (role : ClientRole) (c : ConnId) : Prop :=
  (∃ id, (s.task c).membership = .registered roomHandle role id) ∨
    (s.task c).membership = .departed

theorem System.Knows.not_fresh {s : System} {roomHandle : String} {role : ClientRole} {c : ConnId}
    (h : s.Knows roomHandle role c) : (s.task c).membership ≠ .fresh := by
  rcases h with ⟨id, h⟩ | h <;> simp [h]

theorem System.Seats.knows {s : System} (h : s.Seats) {roomHandle : String} {role : ClientRole}
    {id : String} {peer : ClientHandle} (hpeer : handleAt s.inner roomHandle role id = some peer) :
    s.Knows roomHandle role peer.connection :=
  .inl ⟨id, (h roomHandle role id peer.connection).mp hpeer⟩

/-- What a task may have left to put into the queues. -/
def Task.Sound (s : System) : Task → Prop
  | .announcing seat initialMessages broadcasts =>
    (initialMessages = [] ∨ ∃ agents zookeepers,
      initialMessages = [.connected seat.clientId seat.role agents zookeepers]) ∧
    ∀ peer message, (peer, message) ∈ broadcasts →
      message = .peerJoined seat.role seat.clientId ∧
        s.Knows seat.roomHandle seat.role.peer peer.connection
  | .answering _ message => message = .pong ∨ ∃ error, message = .error error
  | .forwarding seat peer message => ∃ senderId payload role,
    message = .signal senderId payload ∧ s.Knows seat.roomHandle role peer.connection
  | .departing broadcasts => ∃ roomHandle role id, ∀ peer message, (peer, message) ∈ broadcasts →
    message = .peerLeft role id ∧ s.Knows roomHandle role.peer peer.connection
  | _ => True

theorem Task.Sound.mono {s t : System}
    (hknows : ∀ roomHandle role c, s.Knows roomHandle role c → t.Knows roomHandle role c)
    {task : Task} (h : task.Sound s) : task.Sound t := by
  cases task with
  | announcing seat initialMessages broadcasts =>
    refine ⟨h.1, fun peer message hmem => ?_⟩
    obtain ⟨hmessage, hpeer⟩ := h.2 peer message hmem
    exact ⟨hmessage, hknows _ _ _ hpeer⟩
  | forwarding seat peer message =>
    obtain ⟨senderId, payload, role, hmessage, hpeer⟩ := h
    exact ⟨senderId, payload, role, hmessage, hknows _ _ _ hpeer⟩
  | departing broadcasts =>
    obtain ⟨roomHandle, role, id, hall⟩ := h
    refine ⟨roomHandle, role, id, fun peer message hmem => ?_⟩
    obtain ⟨hmessage, hpeer⟩ := hall peer message hmem
    exact ⟨hmessage, hknows _ _ _ hpeer⟩
  | answering seat message => exact h
  | _ => trivial

/-- The tasks are sound, and nobody writes to a connection that has not registered. -/
structure Outbound (s : System) : Prop where
  sound : ∀ c, (s.task c).Sound s
  unseen : ∀ c, (s.task c).membership = .fresh → s.queue c = .empty

theorem Task.sound_ofHandshake (s : System) (handshake : Handshake) :
    (Task.ofHandshake handshake).Sound s := by
  cases handshake <;> trivial

theorem Goes.sound {s : System} {task task' : Task} {move : Move} {frames : List SocketFrame}
    (h : Goes app task move task' frames) : task'.Sound s := by
  cases h with
  | receive progress => exact Task.sound_ofHandshake s _
  | answer reply => exact reply
  | _ => trivial

/-- An operation leaves its task with messages to clients of the room it was performed on. -/
theorem Performs.sound {s : System} (hseats : s.Seats) {now : ℕ} {c : ConnId} {task : Task}
    {move : Move} {op : Operation} {outcome : Outcome}
    {resume : Outcome → Task × List SocketFrame} {inner' : StateInner}
    (h : Performs app c task move op resume) (call : Applied app now s.inner op outcome inner') :
    (resume outcome).1.Sound s := by
  cases h with
  | handshake operation => exact Task.sound_ofHandshake s _
  | register =>
    cases call with
    | @register _ _ _ _ result _ hregister =>
      cases result with
      | error error => trivial
      | ok outcome =>
        obtain ⟨-, -, ⟨agents, zookeepers, hinitial, -⟩, hbroadcasts⟩ := register_ok hregister
        refine ⟨.inr ⟨agents, zookeepers, hinitial⟩, fun peer message hmem => ?_⟩
        obtain ⟨hmessage, id, hpeer⟩ := (hbroadcasts peer message).mp hmem
        exact ⟨hmessage, hseats.knows hpeer⟩
  | @signal seat =>
    cases call with
    | @forwardSignal _ _ _ _ result _ hforward =>
      cases result with
      | error error => exact .inr ⟨_, rfl⟩
      | ok delivery =>
        obtain ⟨hmessage, -, role, -, -, hpeer, -⟩ := forwardSignal_delivery hforward
        exact ⟨_, _, role, hmessage, hseats.knows hpeer⟩
  | @unregister seat =>
    cases call with
    | unregister hunregister =>
      refine ⟨seat.roomHandle, seat.role, seat.clientId, fun peer message hmem => ?_⟩
      obtain ⟨hmessage, -, id, hpeer⟩ := ((unregister_spec hunregister).2 peer message).mp hmem
      exact ⟨hmessage, hseats.knows hpeer⟩

/-- A task that has enqueued one message is left with the others. -/
theorem Enqueues.sound {s : System} {c receiver : ConnId} {task : Task} {message : ServerMessage}
    {resume : Bool → Task} (h : Enqueues c task receiver message resume) (hsound : task.Sound s)
    (sent : Bool) : (resume sent).Sound s := by
  cases h with
  | @initial seat message rest broadcasts =>
    obtain ⟨hinitial, hbroadcasts⟩ := hsound
    have hrest : rest = [] := by
      rcases hinitial with hnil | ⟨agents, zookeepers, hone⟩
      · cases hnil
      · exact (List.cons.inj hone).2
    exact ⟨.inl (by simp [hrest]), hbroadcasts⟩
  | joined => exact ⟨.inl rfl, fun peer message hmem => hsound.2 peer message (.tail _ hmem)⟩
  | answer => cases sent <;> trivial
  | forward => trivial
  | left =>
    obtain ⟨roomHandle, role, id, hall⟩ := hsound
    exact ⟨roomHandle, role, id, fun peer message hmem => hall peer message (.tail _ hmem)⟩

/-- Whoever is written to has registered. -/
theorem Enqueues.receiver_not_fresh {s : System} {c receiver : ConnId} {message : ServerMessage}
    {resume : Bool → Task} (h : Enqueues c (s.task c) receiver message resume)
    (hsound : (s.task c).Sound s) : (s.task receiver).membership ≠ .fresh := by
  generalize htask : s.task c = task at h hsound
  cases h with
  | initial => simp [htask, Task.membership]
  | joined => exact (hsound.2 _ _ List.mem_cons_self).2.not_fresh
  | answer => simp [htask, Task.membership]
  | forward =>
    obtain ⟨senderId, payload, role, -, hpeer⟩ := hsound
    exact hpeer.not_fresh
  | left =>
    obtain ⟨roomHandle, role, id, hall⟩ := hsound
    exact (hall _ _ List.mem_cons_self).2.not_fresh

/-- A membership goes from fresh to registered to departed. -/
theorem AppState.membership_step {s t : System} {label : Label} {shown : Shown}
    (taken : app.socketStep s label = some (t, shown)) (c : ConnId) :
    (t.task c).membership = (s.task c).membership ∨ (s.task c).membership = .fresh ∨
      (t.task c).membership = .departed := by
  by_cases hc : c = label.connection
  · subst hc
    obtain ⟨request, hrequest, hserved⟩ := AppState.socketStep_eq_some taken
    cases hserved with
    | goto after =>
      left
      simpa [after] using (Task.request_goto hrequest).membership
    | @perform op resume outcome past call clock task_eq queue =>
      have hperforms := Task.request_perform hrequest
      rw [task_eq, Function.update_self]
      generalize s.task label.connection = task at hperforms
      generalize label.move = move at hperforms
      cases hperforms with
      | handshake operation => exact .inr (.inl rfl)
      | register => exact .inr (.inl rfl)
      | signal =>
        cases AppState.applied call with
        | @forwardSignal _ _ _ _ result => cases result <;> exact .inl rfl
      | unregister =>
        cases AppState.applied call with
        | unregister => exact .inr (.inr rfl)
    | deliver send after =>
      left
      simpa [after] using (Task.request_deliver hrequest).2.membership _
    | take next after => exact .inl (by rw [after])
  · exact .inl (by rw [AppState.task_of_ne taken hc])

theorem System.Knows.step {s t : System} {label : Label} {shown : Shown}
    (taken : app.socketStep s label = some (t, shown)) (roomHandle : String) (role : ClientRole)
    (c : ConnId) (h : s.Knows roomHandle role c) : t.Knows roomHandle role c := by
  rcases AppState.membership_step taken c with hsame | hfresh | hdeparted
  · rw [System.Knows, hsame]
    exact h
  · exact absurd hfresh h.not_fresh
  · exact .inr hdeparted

theorem Outbound.step {s t : System} {label : Label} {shown : Shown} (h : Outbound s)
    (hseats : s.Seats) (taken : app.socketStep s label = some (t, shown)) : Outbound t := by
  have hknows := System.Knows.step taken
  obtain ⟨request, hrequest, hserved⟩ := AppState.socketStep_eq_some taken
  have hsound : (t.task label.connection).Sound s := by
    cases hserved with
    | goto after =>
      simpa [after] using (Task.request_goto hrequest).sound
    | perform past call clock task_eq queue =>
      rw [task_eq, Function.update_self]
      exact (Task.request_perform hrequest).sound hseats (AppState.applied call)
    | deliver send after =>
      simpa [after] using (Task.request_deliver hrequest).2.sound (h.sound _) _
    | take next after =>
      rw [after]
      exact h.sound _
  constructor
  · intro c
    by_cases hc : c = label.connection
    · rw [hc]
      exact hsound.mono hknows
    · rw [AppState.task_of_ne taken hc]
      exact (h.sound c).mono hknows
  · intro c hfresh
    have hbefore : (s.task c).membership = .fresh := by
      rcases AppState.membership_step taken c with hsame | hsame | hdeparted
      · rwa [hsame] at hfresh
      · exact hsame
      · rw [hdeparted] at hfresh
        cases hfresh
    cases hserved with
    | goto after => simpa [after] using h.unseen c hbefore
    | perform past call clock task_eq queue => rw [queue, h.unseen c hbefore]
    | @deliver receiver message resume sent queue send after =>
      have hreceiver := (Task.request_deliver hrequest).2.receiver_not_fresh (h.sound _)
      have hc : c ≠ receiver := by
        rintro rfl
        exact hreceiver hbefore
      simpa [after, hc] using h.unseen c hbefore
    | take next after =>
      have hc : c ≠ label.connection := by
        rintro rfl
        rw [h.unseen _ hbefore] at next
        cases next
      simpa [after, hc] using h.unseen c hbefore

theorem Outbound.placed_of_fresh {s : System} (h : Outbound s) {c : ConnId}
    (hfresh : (s.task c).membership = .fresh) : (s.queue c).placed = [] := by
  rw [h.unseen c hfresh]
  rfl

theorem outbound_of_run {history : List SystemTransition} {s : System}
    (run : app.SystemRun history s) : Outbound s := by
  apply run.historyInvariant fun _ s => Outbound s
  · exact ⟨fun _ => trivial, fun _ _ => rfl⟩
  · intro history s label t shown run h taken
    exact h.step (handleAt_iff_membership run) taken

end ManInTheBox.Server
