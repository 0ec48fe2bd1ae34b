import ManInTheBox.Server.Outbound

/-! # The first message of a client

A client can be written to as soon as its `register` releases the mutex, and its
own `Connected` is enqueued only afterwards. Its first message is `Connected`
exactly when no other task enqueues anything for it in between.
-/

namespace ManInTheBox.Server

open Library

variable {app : AppState} {history : List SystemTransition} {s t : System} {label : Label}
  {shown : Shown}

def ServerMessage.isConnected : ServerMessage → Bool
  | .connected _ _ _ _ => true
  | _ => false

namespace Task

/-- The task has registered and its own initial message is still to be enqueued. -/
def awaitsConnected : Task → Bool
  | .announcing _ (_ :: _) _ => true
  | _ => false

/-- The receiver and the message of the next enqueue. -/
def nextDelivery (c : ConnId) (task : Task) : Option (ConnId × ServerMessage) :=
  match task.enqueueNext c with
  | some (.deliver receiver message _) => some (receiver, message)
  | _ => none

end Task

/-- What a step enqueues, and for whom. -/
def Label.delivery (label : Label) (s : System) : Option (ConnId × ServerMessage) :=
  match label.move with
  | .enqueue => (s.task label.connection).nextDelivery label.connection
  | _ => none

/-- The step enqueues a message for another connection whose own `Connected` is still to come. -/
def Overtakes (s : System) (label : Label) : Prop :=
  ∃ d ∈ label.delivery s, d.1 ≠ label.connection ∧ (s.task d.1).awaitsConnected = true

instance (s : System) (label : Label) : Decidable (Overtakes s label) :=
  inferInstanceAs (Decidable (∃ _ ∈ _, _))

/-- The message is the initial message that the `register` of the connection returned. -/
def OwnConnected (history : List SystemTransition) (c : ConnId) (message : ServerMessage) : Prop :=
  ∃ t ∈ history, t.label.connection = c ∧ ∃ op outcome,
    t.output.call = some (op, .registered (.ok outcome)) ∧ outcome.initialMessages = [message]

/-- Whatever has been placed in a queue, the first message is the owner's `Connected`. -/
def ConnectedFirst (history : List SystemTransition) (s : System) : Prop :=
  ∀ c message, (s.queue c).placed.head? = some message → OwnConnected history c message

theorem OwnConnected.mono {c : ConnId} {message : ServerMessage}
    (h : OwnConnected history c message) (later : List SystemTransition) :
    OwnConnected (history ++ later) c message := by
  obtain ⟨t, ht, hrest⟩ := h
  exact ⟨t, List.mem_append_left _ ht, hrest⟩

theorem Label.delivery_of_enqueues {message : ServerMessage} {receiver : ConnId}
    {resume : Bool → Task} (hmove : label.move = .enqueue)
    (h : Enqueues label.connection (s.task label.connection) receiver message resume) :
    label.delivery s = some (receiver, message) := by
  rw [Label.delivery, hmove, Task.nextDelivery]
  generalize s.task label.connection = task at h
  cases h <;> rfl

/-! ## Sending -/

theorem Queue.trySend_cases {queue queue' : Queue} {closed sent : Bool} {message : ServerMessage}
    (h : queue.trySend closed message = (queue', sent)) :
    (queue'.placed = queue.placed ∧ sent = false) ∨
      (closed = false ∧ queue'.placed = queue.placed ++ [message] ∧ sent = true) := by
  rw [Queue.trySend] at h
  split_ifs at h with hclosed hroom
  · obtain ⟨rfl, rfl⟩ := Prod.mk.inj h
    exact .inl ⟨rfl, rfl⟩
  · obtain ⟨rfl, rfl⟩ := Prod.mk.inj h
    exact .inr ⟨Bool.eq_false_iff.mpr hclosed, rfl, rfl⟩
  · obtain ⟨rfl, rfl⟩ := Prod.mk.inj h
    exact .inl ⟨rfl, rfl⟩

/-- An empty queue that is open takes a message. -/
theorem Queue.trySend_of_empty {queue queue' : Queue} {sent : Bool} {message : ServerMessage}
    (hempty : queue.placed = []) (h : queue.trySend false message = (queue', sent)) :
    queue'.placed = [message] ∧ sent = true := by
  rw [Queue.trySend, if_neg (by simp), hempty] at h
  rw [if_pos (by simp [outboundQueueCapacity])] at h
  obtain ⟨rfl, rfl⟩ := Prod.mk.inj h
  exact ⟨rfl, rfl⟩

/-- What is at the front of a queue stays there. -/
theorem Queue.head_of_trySend {queue queue' : Queue} {closed sent : Bool}
    {message first : ServerMessage} (h : queue.trySend closed message = (queue', sent))
    (hfirst : queue.placed.head? = some first) : queue'.placed.head? = some first := by
  rcases Queue.trySend_cases h with ⟨hsame, -⟩ | ⟨-, happend, -⟩
  · rw [hsame, hfirst]
  · rw [happend, List.head?_append, hfirst, Option.some_or]

/-! ## Without overtaking -/

/-- Where the `Connected` of a connection is: on its way, or at the front of the queue. -/
def Task.Greets (history : List SystemTransition) (c : ConnId) (placed : List ServerMessage) :
    Task → Prop
  | .idle => placed = []
  | .authenticating _ => placed = []
  | .announcing _ (message :: rest) _ => rest = [] ∧ OwnConnected history c message ∧ placed = []
  | .rejected => placed = []
  | .closed => ∀ message, placed.head? = some message → OwnConnected history c message
  | _ => ∃ message, placed.head? = some message ∧ OwnConnected history c message

abbrev Greeting (history : List SystemTransition) (s : System) : Prop :=
  ∀ c, (s.task c).Greets history c (s.queue c).placed

namespace Task

variable {c : ConnId} {placed placed' : List ServerMessage} {task task' : Task}

theorem Greets.connectedFirst (h : task.Greets history c placed) {message : ServerMessage}
    (hfirst : placed.head? = some message) : OwnConnected history c message := by
  have hnone (hempty : placed = []) : OwnConnected history c message := by
    rw [hempty] at hfirst
    cases hfirst
  have hsome (hgreeted : ∃ m, placed.head? = some m ∧ OwnConnected history c m) :
      OwnConnected history c message := by
    obtain ⟨m, hm, hown⟩ := hgreeted
    rw [hm] at hfirst
    exact Option.some.inj hfirst ▸ hown
  cases task with
  | idle => exact hnone h
  | authenticating handshake => exact hnone h
  | announcing seat initialMessages broadcasts =>
    cases initialMessages with
    | nil => exact hsome h
    | cons m rest => exact hnone h.2.2
  | rejected => exact hnone h
  | closed => exact h message hfirst
  | _ => exact hsome h

theorem Greets.mono (h : task.Greets history c placed) (later : List SystemTransition) :
    task.Greets (history ++ later) c placed := by
  have hsome (hgreeted : ∃ m, placed.head? = some m ∧ OwnConnected history c m) :
      ∃ m, placed.head? = some m ∧ OwnConnected (history ++ later) c m := by
    obtain ⟨m, hm, hown⟩ := hgreeted
    exact ⟨m, hm, hown.mono later⟩
  cases task with
  | idle => exact h
  | authenticating handshake => exact h
  | announcing seat initialMessages broadcasts =>
    cases initialMessages with
    | nil => exact hsome h
    | cons m rest => exact ⟨h.1, h.2.1.mono later, h.2.2⟩
  | rejected => exact h
  | closed => exact fun m hm => (h m hm).mono later
  | _ => exact hsome h

/-- A task that does not await its `Connected` keeps greeting when the queue grows at its end. -/
theorem Greets.of_head (h : task.Greets history c placed) (hseen : task.membership ≠ .fresh)
    (hawaits : task.awaitsConnected = false) (hopen : task.isClosed = false)
    (hhead : ∀ message, placed.head? = some message → placed'.head? = some message) :
    task.Greets history c placed' := by
  have hsome (hgreeted : ∃ m, placed.head? = some m ∧ OwnConnected history c m) :
      ∃ m, placed'.head? = some m ∧ OwnConnected history c m := by
    obtain ⟨m, hm, hown⟩ := hgreeted
    exact ⟨m, hhead m hm, hown⟩
  cases task with
  | idle => exact absurd rfl hseen
  | authenticating handshake => exact absurd rfl hseen
  | rejected => exact absurd rfl hseen
  | closed => cases hopen
  | announcing seat initialMessages broadcasts =>
    cases initialMessages with
    | nil => exact hsome h
    | cons m rest => cases hawaits
  | _ => exact hsome h

theorem Greets.ofHandshake (hempty : placed = []) (handshake : Handshake) :
    (Task.ofHandshake handshake).Greets history c placed := by
  cases handshake <;> exact hempty

end Task

theorem Goes.greets {c : ConnId} {placed : List ServerMessage} {task task' : Task} {move : Move}
    {frames : List SocketFrame} (h : Goes app task move task' frames)
    (hgreets : task.Greets history c placed) : task'.Greets history c placed := by
  cases h with
  | receive progress => exact .ofHandshake hgreets _
  | departed => exact fun message hfirst => hgreets.connectedFirst hfirst
  | _ => exact hgreets

theorem Performs.greets {c : ConnId} {placed : List ServerMessage} {task : Task} {move : Move}
    {op : Operation} {outcome : Outcome} {resume : Outcome → Task × List SocketFrame} {now : ℕ}
    {inner inner' : StateInner} (h : Performs app c task move op resume)
    (call : Applied app now inner op outcome inner') (hgreets : task.Greets history c placed)
    {u : SystemTransition} (hu : u.label.connection = c) (hcall : u.output.call = some (op, outcome)) :
    (resume outcome).1.Greets (history ++ [u]) c placed := by
  cases h with
  | handshake operation => exact .ofHandshake hgreets _
  | register =>
    cases call with
    | @register _ _ _ _ result _ hregister =>
      cases result with
      | error error =>
        intro message hfirst
        rw [show placed = [] from hgreets] at hfirst
        cases hfirst
      | ok outcome =>
        obtain ⟨-, -, ⟨agents, zookeepers, hinitial, -⟩, -⟩ := register_ok hregister
        have hown : OwnConnected (history ++ [u]) c
            (.connected outcome.clientId _ agents zookeepers) :=
          ⟨u, by simp, hu, _, _, hcall, hinitial⟩
        simp only [Task.afterRegister, hinitial]
        exact ⟨rfl, hown, hgreets⟩
  | signal =>
    cases call with
    | @forwardSignal _ _ _ _ result => cases result <;> exact Task.Greets.mono hgreets [u]
  | unregister =>
    cases call with
    | unregister => exact Task.Greets.mono hgreets [u]

/-- The task that enqueues: its `Connected` finds an empty queue, and later messages leave the
front alone. -/
theorem Enqueues.greets {c receiver : ConnId} {message : ServerMessage} {resume : Bool → Task}
    {queue : Queue} {sent : Bool} (h : Enqueues c (s.task c) receiver message resume)
    (hgreets : (s.task c).Greets history c (s.queue c).placed)
    (send : (s.queue receiver).trySend (s.task receiver).isClosed message = (queue, sent)) :
    (resume sent).Greets history c (Function.update s.queue receiver queue c).placed := by
  have hhead : ∀ m, (s.queue c).placed.head? = some m →
      (Function.update s.queue receiver queue c).placed.head? = some m := by
    intro m hm
    by_cases hc : c = receiver
    · subst hc
      rw [Function.update_self]
      exact Queue.head_of_trySend send hm
    · rwa [Function.update_of_ne hc]
  generalize htask : s.task c = task at h hgreets
  cases h with
  | initial =>
    obtain ⟨rfl, hown, hempty⟩ := hgreets
    rw [htask] at send
    obtain ⟨hplaced, rfl⟩ := Queue.trySend_of_empty hempty send
    exact ⟨_, by rw [Function.update_self, hplaced]; rfl, hown⟩
  | joined =>
    obtain ⟨m, hm, hown⟩ := hgreets
    exact ⟨m, hhead m hm, hown⟩
  | answer =>
    obtain ⟨m, hm, hown⟩ := hgreets
    cases sent <;> exact ⟨m, hhead m hm, hown⟩
  | forward =>
    obtain ⟨m, hm, hown⟩ := hgreets
    exact ⟨m, hhead m hm, hown⟩
  | left =>
    obtain ⟨m, hm, hown⟩ := hgreets
    exact ⟨m, hhead m hm, hown⟩

theorem Greeting.step (h : Greeting history s) (hout : Outbound s)
    (taken : app.socketStep s label = some (t, shown)) (hclean : ¬ Overtakes s label) :
    Greeting (history ++ [⟨s, label, shown, t⟩]) t := by
  intro c'
  obtain ⟨request, hrequest, hserved⟩ := AppState.socketStep_eq_some taken
  by_cases hc : c' = label.connection
  · subst hc
    cases hserved with
    | goto after =>
      have hgoes := (Task.request_goto hrequest).greets (h label.connection)
      simpa [after] using hgoes.mono _
    | perform past call clock task_eq queue =>
      rw [task_eq, Function.update_self, queue]
      exact (Task.request_perform hrequest).greets (AppState.applied call) (h _) rfl rfl
    | deliver send after =>
      have henqueues := (Task.request_deliver hrequest).2.greets (h label.connection) send
      simpa [after] using henqueues.mono _
    | take next after =>
      simpa [after, Queue.advance] using (h label.connection).mono _
  · rw [AppState.task_of_ne taken hc]
    cases hserved with
    | goto after => simpa [after] using (h c').mono _
    | perform past call clock task_eq queue => simpa [queue] using (h c').mono _
    | @deliver receiver message resume sent queue send after =>
      obtain ⟨hmove, henqueues⟩ := Task.request_deliver hrequest
      by_cases hreceiver : c' = receiver
      · subst hreceiver
        have hseen := henqueues.receiver_not_fresh (hout.sound _)
        have hawaits : (s.task c').awaitsConnected = false := by
          by_contra hawaits
          exact hclean ⟨_, Label.delivery_of_enqueues hmove henqueues, hc,
            Bool.not_eq_false _ ▸ hawaits⟩
        cases hclosed : (s.task c').isClosed with
        | false =>
          have hgreets := (h c').of_head hseen hawaits hclosed
            fun m hm => Queue.head_of_trySend send hm
          simpa [after] using hgreets.mono _
        | true =>
          rw [hclosed] at send
          obtain ⟨rfl, -⟩ := Prod.mk.inj send
          simpa [after] using (h c').mono _
      · simpa [after, hreceiver] using (h c').mono _
    | take next after => simpa [after, hc] using (h c').mono _

theorem greeting_of_run (run : app.SystemRun history s)
    (hclean : ∀ t ∈ history, ¬ Overtakes t.source t.label) : Greeting history s := by
  apply run.historyInvariant_of_forall (fun t => ¬ Overtakes t.source t.label) Greeting
  · exact fun _ => rfl
  · intro history s label t shown run h taken hclean
    exact h.step (outbound_of_run run) taken hclean
  · exact hclean

/-! ## With overtaking -/

/-- What is enqueued for another connection is not a `Connected`. -/
theorem Enqueues.not_connected {c receiver : ConnId} {task : Task} {message : ServerMessage}
    {resume : Bool → Task} (h : Enqueues c task receiver message resume) (hsound : task.Sound s)
    (hne : receiver ≠ c) : message.isConnected = false := by
  cases h with
  | initial => exact absurd rfl hne
  | joined =>
    rw [(hsound.2 _ _ List.mem_cons_self).1]
    rfl
  | answer => exact absurd rfl hne
  | forward =>
    obtain ⟨senderId, payload, role, hmessage, -⟩ := hsound
    rw [hmessage]
    rfl
  | left =>
    obtain ⟨roomHandle, role, id, hall⟩ := hsound
    rw [(hall _ _ List.mem_cons_self).1]
    rfl

/-- Nothing in the queue of a connection that awaits its `Connected` is one. -/
def PlainWhileAwaiting (s : System) : Prop :=
  ∀ c, (s.task c).awaitsConnected = true →
    ∀ message ∈ (s.queue c).placed, message.isConnected = false

theorem Performs.placed_of_awaits {c : ConnId} {task : Task} {move : Move} {op : Operation}
    {outcome : Outcome} {resume : Outcome → Task × List SocketFrame} {now : ℕ}
    {inner inner' : StateInner} (h : Performs app c task move op resume)
    (call : Applied app now inner op outcome inner')
    (hawaits : (resume outcome).1.awaitsConnected = true) : task.membership = .fresh := by
  cases h with
  | handshake operation => rfl
  | register => rfl
  | signal =>
    cases call with
    | @forwardSignal _ _ _ _ result => cases result <;> cases hawaits
  | unregister =>
    cases call with
    | unregister => cases hawaits

theorem Goes.not_awaiting {task task' : Task} {move : Move} {frames : List SocketFrame}
    (h : Goes app task move task' frames) : task'.awaitsConnected = false := by
  cases h with
  | @receive handshake received rng token p progress =>
    generalize p.1 = handshake'
    cases handshake' <;> rfl
  | _ => rfl

/-- There is only one initial message, so a task awaits its `Connected` until its first enqueue. -/
theorem Enqueues.not_awaiting {c receiver : ConnId} {task : Task} {message : ServerMessage}
    {resume : Bool → Task} (h : Enqueues c task receiver message resume) (hsound : task.Sound s)
    (sent : Bool) : (resume sent).awaitsConnected = false := by
  cases h with
  | initial =>
    rcases hsound.1 with hnil | ⟨agents, zookeepers, hone⟩
    · cases hnil
    · obtain ⟨-, rfl⟩ := List.cons.inj hone
      cases sent <;> rfl
  | answer => cases sent <;> rfl
  | _ => rfl

theorem PlainWhileAwaiting.step (h : PlainWhileAwaiting s) (hout : Outbound s)
    (taken : app.socketStep s label = some (t, shown)) : PlainWhileAwaiting t := by
  intro c hawaits message hmem
  obtain ⟨request, hrequest, hserved⟩ := AppState.socketStep_eq_some taken
  by_cases hc : c = label.connection
  · subst hc
    cases hserved with
    | goto after =>
      rw [after] at hawaits
      simp [(Task.request_goto hrequest).not_awaiting] at hawaits
    | perform past call clock task_eq queue =>
      rw [task_eq, Function.update_self] at hawaits
      have hfresh := (Task.request_perform hrequest).placed_of_awaits (AppState.applied call) hawaits
      rw [queue, hout.placed_of_fresh hfresh] at hmem
      cases hmem
    | deliver send after =>
      rw [after] at hawaits
      simp [(Task.request_deliver hrequest).2.not_awaiting (hout.sound _)] at hawaits
    | take next after =>
      rw [after] at hawaits hmem
      simp only [Function.update_self, Queue.advance] at hmem
      exact h _ hawaits message hmem
  · rw [AppState.task_of_ne taken hc] at hawaits
    cases hserved with
    | goto after =>
      rw [after] at hmem
      exact h c hawaits message hmem
    | perform past call clock task_eq queue =>
      rw [queue] at hmem
      exact h c hawaits message hmem
    | @deliver receiver delivered resume sent queue send after =>
      rw [after] at hmem
      by_cases hreceiver : c = receiver
      · subst hreceiver
        simp only [Function.update_self] at hmem
        have hplain := (Task.request_deliver hrequest).2.not_connected (hout.sound _) hc
        rcases Queue.trySend_cases send with ⟨hsame, -⟩ | ⟨-, happend, -⟩
        · exact h c hawaits message (hsame ▸ hmem)
        · rw [happend, List.mem_append, List.mem_singleton] at hmem
          rcases hmem with hmem | rfl
          · exact h c hawaits message hmem
          · exact hplain
      · simp only [Function.update_of_ne hreceiver] at hmem
        exact h c hawaits message hmem
    | take next after =>
      rw [after] at hmem
      simp only [Function.update_of_ne hc] at hmem
      exact h c hawaits message hmem

/-- The initial message that a `register` returns is a `Connected`. -/
theorem OwnConnected.isConnected (run : app.SystemRun history s) {c : ConnId}
    {message : ServerMessage} (h : OwnConnected history c message) :
    message.isConnected = true := by
  obtain ⟨u, hu, -, op, outcome, hcall, hinitial⟩ := h
  obtain ⟨request, hrequest, hserved⟩ := AppState.socketStep_eq_some (run.mem_step hu).2
  generalize u.output = shown at hserved hcall
  cases hserved with
  | perform past call clock task_eq queue =>
    obtain ⟨rfl, rfl⟩ := Prod.mk.inj (Option.some.inj hcall)
    cases AppState.applied call with
    | register hregister =>
      obtain ⟨-, -, ⟨agents, zookeepers, hinitial', -⟩, -⟩ := register_ok hregister
      obtain rfl := List.singleton_inj.mp (hinitial.symm.trans hinitial')
      rfl
  | _ => cases hcall

/-- What a label enqueues is what its task asks to deliver. -/
theorem Label.request_of_delivery {request : Request} {d : ConnId × ServerMessage}
    (hrequest : (s.task label.connection).request app label.connection label.move = some request)
    (h : label.delivery s = some d) : ∃ resume, request = .deliver d.1 d.2 resume := by
  rw [Label.delivery] at h
  split at h
  · rename_i hmove
    rw [hmove, Task.request_enqueue] at hrequest
    rw [Task.nextDelivery, hrequest] at h
    split at h
    · rename_i receiver message resume heq
      obtain rfl := Option.some.inj heq
      obtain rfl := Option.some.inj h
      exact ⟨resume, rfl⟩
    · cases h
  · cases h

/-- A step that overtakes puts its message in front of the `Connected`. -/
theorem overtaking_breaks (run : app.SystemRun history s) (hplain : PlainWhileAwaiting s)
    (taken : app.socketStep s label = some (t, shown)) (hover : Overtakes s label)
    (hfirst : ConnectedFirst history s) :
    ¬ ConnectedFirst (history ++ [⟨s, label, shown, t⟩]) t := by
  obtain ⟨⟨receiver, message⟩, hdelivery, hne, hawaits⟩ := hover
  intro hafter
  have hempty : (s.queue receiver).placed = [] := by
    cases hplaced : (s.queue receiver).placed with
    | nil => rfl
    | cons first rest =>
      have hconnected := (hfirst receiver first (by rw [hplaced]; rfl)).isConnected run
      have hnot := hplain receiver hawaits first (by simp [hplaced])
      rw [hconnected] at hnot
      cases hnot
  have hopen : (s.task receiver).isClosed = false := by
    generalize s.task receiver = task at hawaits
    cases task <;> first | rfl | cases hawaits
  obtain ⟨request, hrequest, hserved⟩ := AppState.socketStep_eq_some taken
  obtain ⟨resume, rfl⟩ := Label.request_of_delivery hrequest hdelivery
  have hmessage := (Task.request_deliver hrequest).2.not_connected
    ((outbound_of_run run).sound _) hne
  cases hserved with
  | deliver send after =>
    dsimp only at send
    rw [hopen] at send
    obtain ⟨hplaced, -⟩ := Queue.trySend_of_empty hempty send
    have hown := hafter receiver message (by simp [after, hplaced])
    rw [hown.isConnected (run.step taken)] at hmessage
    cases hmessage

/-- In the states that a run goes through the first message of every queue is the `Connected` of
its owner if and only if no step of the run enqueues a message for a connection between the
`register` of that connection and the enqueue of its `Connected`. -/
theorem connected_first_iff_no_overtaking (run : app.SystemRun history s) :
    (∀ past later u, history = past ++ later → app.SystemRun past u → ConnectedFirst past u) ↔
      ∀ t ∈ history, ¬ Overtakes t.source t.label := by
  constructor
  · intro hfirst t ht hover
    obtain ⟨past, later, rfl⟩ := List.append_of_mem ht
    obtain ⟨before, taken⟩ := run.cut
    have hplain : PlainWhileAwaiting t.source := by
      apply before.historyInvariant fun _ s => PlainWhileAwaiting s
      · intro c hawaits
        cases hawaits
      · intro history s label t shown run h taken
        exact h.step (outbound_of_run run) taken
    apply overtaking_breaks before hplain taken hover
    · exact hfirst past (t :: later) t.source rfl before
    · exact hfirst (past ++ [t]) later t.target (by simp) (before.step taken)
  · rintro hclean past later u rfl before c message hhead
    have hgreeting := greeting_of_run before fun t ht => hclean t (List.mem_append_left _ ht)
    exact (hgreeting c).connectedFirst hhead

/-- An agent and a zookeeper that each put their `Connected` into their queue at once. -/
def greetingLabels : List Label :=
  Scenario.createRoom 0 1 "room" [7] none ++
    [Scenario.register 0 1, Scenario.enqueue 1, Scenario.enqueue 1] ++
    Scenario.beginLogin 1 2 .zookeeper "room" [7] none ++
    [Scenario.finishLogin 2 [7], Scenario.register 2 2, Scenario.enqueue 2, Scenario.enqueue 2]

theorem connected_first_iff_no_overtaking_greeting :
    ((reached idealApp.socketStep System.initial greetingLabels).queue 1).placed =
      [.connected "agent-1" .agent [] [], .peerJoined .zookeeper "zookeeper-2"] ∧
    ConnectedFirst (trace idealApp.socketStep System.initial greetingLabels)
      (reached idealApp.socketStep System.initial greetingLabels) := by
  have run : idealApp.SystemRun (trace _ _ greetingLabels) (reached _ _ greetingLabels) :=
    Run.of_labels rfl
  have hclean : ∀ t ∈ trace idealApp.socketStep System.initial greetingLabels,
      ¬ Overtakes t.source t.label := by
    decide
  have hfirst := (connected_first_iff_no_overtaking run).mpr hclean
  exact ⟨rfl, hfirst _ [] _ (List.append_nil _).symm run⟩

/-- The zookeeper registers and announces itself while the agent has registered and not yet
enqueued its `Connected`. -/
def overtakingLabels : List Label :=
  Scenario.createRoom 0 1 "room" [7] none ++ Scenario.beginLogin 1 2 .zookeeper "room" [7] none ++
    [Scenario.register 2 1, Scenario.finishLogin 2 [7], Scenario.register 3 2, Scenario.enqueue 2,
      Scenario.enqueue 2, Scenario.enqueue 1]

theorem connected_overtaken :
    ¬ ∀ history s, idealApp.SystemRun history s → ConnectedFirst history s := by
  intro hall
  have run : idealApp.SystemRun (trace _ _ overtakingLabels) (reached _ _ overtakingLabels) :=
    Run.of_labels rfl
  have hown := hall _ _ run 1 (.peerJoined .zookeeper "zookeeper-2") rfl
  have hconnected := hown.isConnected run
  cases hconnected

end ManInTheBox.Server
