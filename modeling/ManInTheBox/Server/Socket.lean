import ManInTheBox.Server.Handshake
import ManInTheBox.Server.Sessions

/-! # The connections of the server, step by step

`handle_socket` as a task: it authenticates, registers, puts its initial
messages and its broadcasts into the outbound queues one by one, serves its
socket and unregisters. Only the operations on the shared state are atomic, so
between any two steps of one task the other tasks may take steps of their own.
What a task wants to do next is a request, and the system carries it out.
-/

namespace ManInTheBox.Server

open Library

/-- Where a registered connection sits. -/
structure Seat where
  roomHandle : String
  role : ClientRole
  clientId : String
  deriving DecidableEq, Repr

inductive Task
  | idle
  | authenticating (handshake : Handshake)
  | announcing (seat : Seat) (initialMessages : List ServerMessage)
      (broadcasts : List (ClientHandle × ServerMessage))
  | serving (seat : Seat)
  | answering (seat : Seat) (message : ServerMessage)
  | forwarding (seat : Seat) (peer : ClientHandle) (message : ServerMessage)
  | leaving (seat : Seat)
  | departing (broadcasts : List (ClientHandle × ServerMessage))
  | rejected
  | closed
  deriving DecidableEq

/-- A label names the connection whose task moves, and what the task cannot determine itself. -/
inductive Move
  | accept (ip : IpAddr)
  | operate (rng : ℕ) (token : Except String String)
  | receive (received : Received) (rng : ℕ) (token : Except String String)
  | giveUp
  | register
  | enqueue
  | inbound (received : Received)
  | take
  | stop
  | unregister

/-- What a task asks for: a step of its own, an operation on the shared state, one message put
into a queue, or the next message of its own queue. -/
inductive Request
  | goto (task : Task) (frames : List SocketFrame)
  | perform (op : Operation) (resume : Outcome → Task × List SocketFrame)
  | deliver (receiver : ConnId) (message : ServerMessage) (resume : Bool → Task)
  | take

namespace Task

/-- A handshake that was refused ends the task before it registers. -/
def ofHandshake : Handshake → Task
  | .refused => .rejected
  | handshake => .authenticating handshake

def progress (p : Handshake.Progress) : Task × List SocketFrame := (ofHandshake p.1, p.2)

def afterRegister (pendingLogin : PendingLogin) (role : ClientRole) : Outcome →
    Task × List SocketFrame
  | .registered (.ok outcome) =>
    (.announcing ⟨pendingLogin.roomHandle, role, outcome.clientId⟩ outcome.initialMessages
      outcome.broadcasts, [])
  | _ => (.closed, [])

def afterUnregister : Outcome → Task × List SocketFrame
  | .unregistered outcome => (.departing outcome.broadcasts, [])
  | _ => (.closed, [])

def afterForward (seat : Seat) : Outcome → Task × List SocketFrame
  | .forwarded (.ok (peer, message)) => (.forwarding seat peer message, [])
  | .forwarded (.error error) => (.answering seat (.error error.message), [])
  | _ => (.serving seat, [])

/-- `handle_incoming_message`: what a serving task does with a frame. -/
def handleIncomingMessage (seat : Seat) : Received → Option Request
  | .message (.signal peerId payload) =>
    some (.perform (.forwardSignal seat.roomHandle seat.clientId peerId payload)
      (afterForward seat))
  | .message .ping => some (.goto (.answering seat .pong) [])
  | .message _ => some (.goto (.answering seat (.error "client already authenticated")) [])
  | .invalid error =>
    some (.goto (.answering seat (.error ("invalid client message: " ++ error))) [])
  | .binary =>
    some (.goto (.answering seat (.error "binary websocket frames are not supported")) [])
  | .ping _ => some (.goto (.answering seat .pong) [])
  | .pong => some (.goto (.serving seat) [])
  | .closed => some (.goto (.leaving seat) [])
  | .timedOut => none

/-- The enqueues of a task, in their order: its own initial messages until one fails, then its
broadcasts; or the one message it answers or forwards. -/
def enqueueNext (c : ConnId) : Task → Option Request
  | .announcing seat (message :: initialMessages) broadcasts =>
    some (.deliver c message fun sent =>
      .announcing seat (if sent then initialMessages else []) broadcasts)
  | .announcing seat [] ((peer, message) :: broadcasts) =>
    some (.deliver peer.connection message fun _ => .announcing seat [] broadcasts)
  | .announcing seat [] [] => some (.goto (.serving seat) [])
  | .answering seat message =>
    some (.deliver c message fun sent => if sent then .serving seat else .leaving seat)
  | .forwarding seat peer message =>
    some (.deliver peer.connection message fun _ => .serving seat)
  | .departing ((peer, message) :: broadcasts) =>
    some (.deliver peer.connection message fun _ => .departing broadcasts)
  | .departing [] => some (.goto .closed [])
  | _ => none

/-- What the task of a connection asks for at a move, if the move is one of its own. A serving
task stops when it is penalized, when it has not read for too long or when its socket fails. -/
def request (app : AppState) (c : ConnId) : Task → Move → Option Request
  | .idle, .accept ip => some (.goto (.authenticating (.checkRateLimit ip)) [])
  | .authenticating (.authenticated role clientAlias pendingLogin), .register =>
    some (.perform (.register pendingLogin.roomHandle role clientAlias ⟨c⟩)
      (afterRegister pendingLogin role))
  | .authenticating (.authenticated _ _ _), _ => none
  | .authenticating handshake, .operate rng token =>
    (handshake.operation rng token).map fun op =>
      .perform op fun outcome => progress (handshake.resume app outcome)
  | .authenticating handshake, .receive received rng token =>
    (handshake.receive app rng token received).map fun p =>
      .goto (progress p).1 (progress p).2
  | .authenticating _, .giveUp => some (.goto .rejected [])
  | .serving seat, .inbound received => handleIncomingMessage seat received
  | .serving _, .take => some .take
  | .serving seat, .stop => some (.goto (.leaving seat) [])
  | .leaving seat, .unregister =>
    some (.perform (.unregister seat.roomHandle seat.role seat.clientId) afterUnregister)
  | task, .enqueue => task.enqueueNext c
  | _, _ => none

/-- The outbound queue of a task that has returned is closed. -/
def isClosed : Task → Bool
  | .rejected => true
  | .closed => true
  | _ => false

end Task

/-- An outbound channel: everything ever put into it, and how much of that was taken out. -/
structure Queue where
  placed : List ServerMessage
  taken : ℕ
  penalized : Bool
  deriving DecidableEq

def Queue.empty : Queue := ⟨[], 0, false⟩

/-- `WS_OUTBOUND_QUEUE_CAPACITY`. -/
def outboundQueueCapacity : ℕ := 256

/-- `try_send`: a full queue penalizes its owner, a closed one drops the message. -/
def Queue.trySend (queue : Queue) (closed : Bool) (message : ServerMessage) : Queue × Bool :=
  if closed then (queue, false)
  else if queue.placed.length - queue.taken < outboundQueueCapacity then
    ({ queue with placed := queue.placed ++ [message] }, true)
  else ({ queue with penalized := true }, false)

/-- The front message has been taken out. -/
def Queue.advance (queue : Queue) : Queue := { queue with taken := queue.taken + 1 }

structure System where
  clock : ℕ
  inner : StateInner
  task : ConnId → Task
  queue : ConnId → Queue

def System.initial : System := ⟨0, .empty, fun _ => .idle, fun _ => .empty⟩

structure Label where
  now : ℕ
  connection : ConnId
  move : Move

/-- What a step shows: the operation it performed, and the frames on the socket of its task. -/
structure Shown where
  call : Option (Operation × Outcome)
  frames : List SocketFrame

/-- Carry out the request of a task. Only operations read the clock. -/
def AppState.serve (app : AppState) (s : System) (now : ℕ) (c : ConnId) :
    Request → Option (System × Shown)
  | .goto task frames =>
    some ({ s with task := Function.update s.task c task }, ⟨none, frames⟩)
  | .perform op resume =>
    if s.clock ≤ now then
      let r := app.apply now op s.inner
      some (⟨now, r.2, Function.update s.task c (resume r.1).1, s.queue⟩,
        ⟨some (op, r.1), (resume r.1).2⟩)
    else none
  | .deliver receiver message resume =>
    let r := (s.queue receiver).trySend (s.task receiver).isClosed message
    some ({ s with
        task := Function.update s.task c (resume r.2)
        queue := Function.update s.queue receiver r.1 }, ⟨none, []⟩)
  | .take =>
    (s.queue c).placed[(s.queue c).taken]?.map fun message =>
      ({ s with queue := Function.update s.queue c (s.queue c).advance },
        ⟨none, [.message message]⟩)

def AppState.socketStep (app : AppState) (s : System) (label : Label) : Option (System × Shown) :=
  ((s.task label.connection).request app label.connection label.move).bind
    (app.serve s label.now label.connection)

abbrev SystemTransition := Transition System Label Shown

abbrev AppState.SystemRun (app : AppState) := Run app.socketStep System.initial

/-! ## What a step is -/

/-- A request that was carried out. -/
inductive Served (app : AppState) (now : ℕ) (s t : System) (c : ConnId) : Request → Shown → Prop
  | goto {task frames} (after : t = { s with task := Function.update s.task c task }) :
      Served app now s t c (.goto task frames) ⟨none, frames⟩
  | perform {op resume outcome} (past : s.clock ≤ now)
      (call : app.apply now op s.inner = (outcome, t.inner)) (clock : t.clock = now)
      (task_eq : t.task = Function.update s.task c (resume outcome).1) (queue : t.queue = s.queue) :
      Served app now s t c (.perform op resume) ⟨some (op, outcome), (resume outcome).2⟩
  | deliver {receiver message resume sent} {queue : Queue}
      (send : (s.queue receiver).trySend (s.task receiver).isClosed message = (queue, sent))
      (after : t = { s with
        task := Function.update s.task c (resume sent)
        queue := Function.update s.queue receiver queue }) :
      Served app now s t c (.deliver receiver message resume) ⟨none, []⟩
  | take {message} (next : (s.queue c).placed[(s.queue c).taken]? = some message)
      (after : t = { s with queue := Function.update s.queue c (s.queue c).advance }) :
      Served app now s t c .take ⟨none, [.message message]⟩

theorem AppState.socketStep_eq_some {app : AppState} {s t : System} {label : Label}
    {shown : Shown} (h : app.socketStep s label = some (t, shown)) : ∃ request,
      (s.task label.connection).request app label.connection label.move = some request ∧
      Served app label.now s t label.connection request shown := by
  obtain ⟨request, hrequest, hserve⟩ := Option.bind_eq_some_iff.mp h
  refine ⟨request, hrequest, ?_⟩
  cases request with
  | goto task frames =>
    obtain ⟨rfl, rfl⟩ := Prod.mk.inj (Option.some.inj hserve)
    exact .goto rfl
  | perform op resume =>
    simp only [AppState.serve] at hserve
    split_ifs at hserve with hclock
    obtain ⟨rfl, rfl⟩ := Prod.mk.inj (Option.some.inj hserve)
    exact .perform hclock rfl rfl rfl rfl
  | deliver receiver message resume =>
    obtain ⟨rfl, rfl⟩ := Prod.mk.inj (Option.some.inj hserve)
    exact .deliver rfl rfl
  | take =>
    obtain ⟨message, hnext, heq⟩ := Option.map_eq_some_iff.mp hserve
    obtain ⟨rfl, rfl⟩ := Prod.mk.inj heq
    exact .take hnext rfl

/-- The operations of a task: those of its handshake, one `register`, signals while it serves and
one `unregister`. -/
inductive Performs (app : AppState) (c : ConnId) :
    Task → Move → Operation → (Outcome → Task × List SocketFrame) → Prop
  | handshake {handshake : Handshake} {rng token op}
      (operation : handshake.operation rng token = some op) :
      Performs app c (.authenticating handshake) (.operate rng token) op
        fun outcome => Task.progress (handshake.resume app outcome)
  | register {role clientAlias pendingLogin} :
      Performs app c (.authenticating (.authenticated role clientAlias pendingLogin)) .register
        (.register pendingLogin.roomHandle role clientAlias ⟨c⟩)
        (Task.afterRegister pendingLogin role)
  | signal {seat : Seat} {peerId payload} :
      Performs app c (.serving seat) (.inbound (.message (.signal peerId payload)))
        (.forwardSignal seat.roomHandle seat.clientId peerId payload) (Task.afterForward seat)
  | unregister {seat : Seat} :
      Performs app c (.leaving seat) .unregister
        (.unregister seat.roomHandle seat.role seat.clientId) Task.afterUnregister

/-- The steps of its own: a handshake continues from a message or is given up, a serving task
reacts to a frame or stops, and a task with nothing left to enqueue goes on. -/
inductive Goes (app : AppState) : Task → Move → Task → List SocketFrame → Prop
  | accept {ip} : Goes app .idle (.accept ip) (.authenticating (.checkRateLimit ip)) []
  | receive {handshake : Handshake} {received rng token p}
      (progress : handshake.receive app rng token received = some p) :
      Goes app (.authenticating handshake) (.receive received rng token) (.ofHandshake p.1) p.2
  | giveUp {handshake} : Goes app (.authenticating handshake) .giveUp .rejected []
  | announced {seat} : Goes app (.announcing seat [] []) .enqueue (.serving seat) []
  | answer {seat received message}
      (reply : message = .pong ∨ ∃ error, message = .error error) :
      Goes app (.serving seat) (.inbound received) (.answering seat message) []
  | ignore {seat received} : Goes app (.serving seat) (.inbound received) (.serving seat) []
  | stop {seat move} : Goes app (.serving seat) move (.leaving seat) []
  | departed : Goes app (.departing []) .enqueue .closed []

/-- The enqueues: what a task puts into which queue, and how it goes on. -/
inductive Enqueues (c : ConnId) : Task → ConnId → ServerMessage → (Bool → Task) → Prop
  | initial {seat message rest broadcasts} :
      Enqueues c (.announcing seat (message :: rest) broadcasts) c message fun sent =>
        .announcing seat (if sent then rest else []) broadcasts
  | joined {seat peer message broadcasts} :
      Enqueues c (.announcing seat [] ((peer, message) :: broadcasts)) peer.connection message
        fun _ => .announcing seat [] broadcasts
  | answer {seat message} :
      Enqueues c (.answering seat message) c message fun sent =>
        if sent then .serving seat else .leaving seat
  | forward {seat peer message} :
      Enqueues c (.forwarding seat peer message) peer.connection message fun _ => .serving seat
  | left {peer message broadcasts} :
      Enqueues c (.departing ((peer, message) :: broadcasts)) peer.connection message
        fun _ => .departing broadcasts

namespace Task

variable {app : AppState} {c : ConnId} {task task' : Task} {move : Move}

theorem request_enqueue : task.request app c .enqueue = task.enqueueNext c := by
  cases task with
  | authenticating handshake => cases handshake <;> rfl
  | _ => rfl

theorem request_perform {op : Operation} {resume : Outcome → Task × List SocketFrame}
    (h : task.request app c move = some (.perform op resume)) :
    Performs app c task move op resume := by
  cases move with
  | enqueue =>
    rw [request_enqueue] at h
    rw [enqueueNext.eq_def] at h
    split at h <;> cases h
  | operate rng token =>
    cases task with
    | authenticating handshake =>
      have hrequest : (handshake.operation rng token).map (fun op => Request.perform op
          fun outcome => progress (handshake.resume app outcome)) = some (.perform op resume) := by
        cases handshake <;> exact h
      obtain ⟨op', hop', heq⟩ := Option.map_eq_some_iff.mp hrequest
      obtain ⟨rfl, rfl⟩ := Request.perform.inj heq
      exact .handshake hop'
    | _ => cases h
  | receive received rng token =>
    cases task with
    | authenticating handshake =>
      cases handshake <;> simp [request, Handshake.receive] at h
    | _ => cases h
  | register =>
    cases task with
    | authenticating handshake =>
      cases handshake with
      | authenticated role clientAlias pendingLogin =>
        obtain ⟨rfl, rfl⟩ := Request.perform.inj (Option.some.inj h)
        exact .register
      | _ => cases h
    | _ => cases h
  | inbound received =>
    cases task with
    | authenticating handshake => cases handshake <;> cases h
    | serving seat =>
      simp only [request] at h
      rw [handleIncomingMessage.eq_def] at h
      split at h <;> cases h
      exact .signal
    | _ => cases h
  | unregister =>
    cases task with
    | authenticating handshake => cases handshake <;> cases h
    | leaving seat =>
      obtain ⟨rfl, rfl⟩ := Request.perform.inj (Option.some.inj h)
      exact .unregister
    | _ => cases h
  | _ =>
    cases task with
    | authenticating handshake => cases handshake <;> cases h
    | _ => cases h

/-! ## Membership -/

/-- Where the task stands with respect to the rooms. -/
def membership : Task → Membership
  | .announcing seat _ _ => .registered seat.roomHandle seat.role seat.clientId
  | .serving seat => .registered seat.roomHandle seat.role seat.clientId
  | .answering seat _ => .registered seat.roomHandle seat.role seat.clientId
  | .forwarding seat _ _ => .registered seat.roomHandle seat.role seat.clientId
  | .leaving seat => .registered seat.roomHandle seat.role seat.clientId
  | .departing _ => .departed
  | .closed => .departed
  | _ => .fresh

@[simp] theorem membership_ofHandshake (handshake : Handshake) :
    (ofHandshake handshake).membership = .fresh := by
  cases handshake <;> rfl

theorem request_goto {frames : List SocketFrame}
    (h : task.request app c move = some (.goto task' frames)) :
    Goes app task move task' frames := by
  cases move with
  | enqueue =>
    rw [request_enqueue] at h
    rw [enqueueNext.eq_def] at h
    split at h <;> cases h
    · exact .announced
    · exact .departed
  | receive received rng token =>
    cases task with
    | authenticating handshake =>
      have hrequest : (handshake.receive app rng token received).map (fun p =>
          Request.goto (progress p).1 (progress p).2) = some (.goto task' frames) := by
        cases handshake <;> exact h
      obtain ⟨p, hp, heq⟩ := Option.map_eq_some_iff.mp hrequest
      obtain ⟨rfl, rfl⟩ := Request.goto.inj heq
      exact .receive hp
    | _ => cases h
  | inbound received =>
    cases task with
    | authenticating handshake => cases handshake <;> cases h
    | serving seat =>
      simp only [request] at h
      rw [handleIncomingMessage.eq_def] at h
      split at h <;> cases h <;> constructor <;> simp
    | _ => cases h
  | operate rng token =>
    cases task with
    | authenticating handshake => cases handshake <;> simp [request, Handshake.operation] at h
    | _ => cases h
  | _ =>
    cases task with
    | authenticating handshake => cases handshake <;> cases h <;> constructor
    | _ => cases h <;> constructor

theorem request_deliver {receiver : ConnId} {message : ServerMessage} {resume : Bool → Task}
    (h : task.request app c move = some (.deliver receiver message resume)) :
    move = .enqueue ∧ Enqueues c task receiver message resume := by
  cases move with
  | enqueue =>
    rw [request_enqueue] at h
    rw [enqueueNext.eq_def] at h
    refine ⟨rfl, ?_⟩
    split at h <;> cases h <;> constructor
  | receive received rng token =>
    cases task with
    | authenticating handshake => cases handshake <;> simp [request, Handshake.receive] at h
    | _ => cases h
  | inbound received =>
    cases task with
    | authenticating handshake => cases handshake <;> cases h
    | serving seat =>
      simp only [request] at h
      rw [handleIncomingMessage.eq_def] at h
      split at h <;> cases h
    | _ => cases h
  | operate rng token =>
    cases task with
    | authenticating handshake => cases handshake <;> simp [request, Handshake.operation] at h
    | _ => cases h
  | _ =>
    cases task with
    | authenticating handshake => cases handshake <;> cases h
    | _ => cases h

end Task

/-- Only an operation changes the membership of a task. -/
theorem Goes.membership {app : AppState} {task task' : Task} {move : Move}
    {frames : List SocketFrame} (h : Goes app task move task' frames) :
    task'.membership = task.membership := by
  cases h with
  | receive progress => exact Task.membership_ofHandshake _
  | _ => rfl

theorem Enqueues.membership {c receiver : ConnId} {task : Task} {message : ServerMessage}
    {resume : Bool → Task} (h : Enqueues c task receiver message resume) (sent : Bool) :
    (resume sent).membership = task.membership := by
  cases h <;> cases sent <;> rfl

/-- The sessions of the system: what its tasks are to the rooms. -/
def System.sessions (s : System) : Sessions :=
  ⟨s.clock, s.inner, fun c => (s.task c).membership⟩

theorem handshake_operation {handshake : Handshake} {rng : ℕ} {token : Except String String}
    {op : Operation} (h : handshake.operation rng token = some op) :
    op.changesMembership = false := by
  cases handshake <;> simp only [Handshake.operation, Option.some.injEq, reduceCtorEq] at h <;>
    subst h <;> rfl

theorem membership_update (task : ConnId → Task) (c : ConnId) (task' : Task) :
    (fun c' => (Function.update task c task' c').membership) =
      Function.update (fun c' => (task c').membership) c task'.membership := by
  funext c'
  by_cases hc : c' = c
  · subst hc
    simp
  · simp [hc]

theorem Performs.sessionStep {app : AppState} {s t : System} {now : ℕ} {c : ConnId}
    {task : Task} {move : Move} {op : Operation} {outcome : Outcome}
    {resume : Outcome → Task × List SocketFrame} (h : Performs app c task move op resume)
    (hc : s.task c = task) (past : s.clock ≤ now)
    (call : app.apply now op s.inner = (outcome, t.inner)) (clock : t.clock = now)
    (task_eq : t.task = Function.update s.task c (resume outcome).1) :
    ∃ action, app.sessionStep s.sessions ⟨now, action⟩ = some (t.sessions, op, outcome) := by
  have hsessions (status : ConnId → Membership)
      (hstatus : status = Function.update s.sessions.status c (resume outcome).1.membership) :
      t.sessions = ⟨now, t.inner, status⟩ := by
    rw [System.sessions, clock, task_eq, membership_update, hstatus]
    rfl
  have hstay (hsame : (resume outcome).1.membership = (s.task c).membership) :
      t.sessions = ⟨now, t.inner, s.sessions.status⟩ := by
    apply hsessions
    rw [hsame]
    exact (Function.update_eq_self c s.sessions.status).symm
  have hstatus : s.sessions.status c = task.membership := by rw [← hc]; rfl
  have hpast : s.sessions.clock ≤ now := past
  have hinner : s.sessions.inner = s.inner := rfl
  cases h with
  | handshake operation =>
    refine ⟨.call op, ?_⟩
    rw [hstay (by rw [hc]; exact Task.membership_ofHandshake _)]
    simp [AppState.sessionStep, hpast, operationOf, handshake_operation operation, hinner, call,
      statusAfter]
  | @register role clientAlias pendingLogin =>
    refine ⟨.register c pendingLogin.roomHandle role clientAlias, ?_⟩
    have hfresh : s.sessions.status c = .fresh := hstatus
    have hresult : ∃ result, outcome = .registered result := ⟨_, (Prod.mk.inj call).1.symm⟩
    obtain ⟨result, rfl⟩ := hresult
    cases result with
    | ok outcome =>
      rw [hsessions _ rfl]
      simp [AppState.sessionStep, hpast, operationOf, hfresh, hinner, call, statusAfter,
        Task.afterRegister, Task.membership]
    | error error =>
      rw [hsessions _ rfl]
      simp [AppState.sessionStep, hpast, operationOf, hfresh, hinner, call, statusAfter,
        Task.afterRegister, Task.membership]
  | @signal seat peerId payload =>
    refine ⟨.signal c peerId payload, ?_⟩
    have hresult : ∃ result, outcome = .forwarded result := ⟨_, (Prod.mk.inj call).1.symm⟩
    obtain ⟨result, rfl⟩ := hresult
    rw [hstay (by rw [hc]; cases result <;> rfl)]
    simp [AppState.sessionStep, hpast, operationOf, hstatus, Task.membership, hinner, call,
      statusAfter]
  | @unregister seat =>
    refine ⟨.unregister c, ?_⟩
    have hresult : ∃ result, outcome = .unregistered result := ⟨_, (Prod.mk.inj call).1.symm⟩
    obtain ⟨result, rfl⟩ := hresult
    rw [hsessions _ rfl]
    simp [AppState.sessionStep, hpast, operationOf, hstatus, Task.membership, hinner, call,
      statusAfter, Task.afterUnregister]

/-- Every step of the system is a step of its sessions or invisible to them. -/
theorem AppState.sessions_step {app : AppState} {s t : System} {label : Label} {shown : Shown}
    (h : app.socketStep s label = some (t, shown)) :
    t.sessions = s.sessions ∧ shown.call = none ∨ ∃ action op outcome,
      shown.call = some (op, outcome) ∧
      app.sessionStep s.sessions ⟨label.now, action⟩ = some (t.sessions, op, outcome) := by
  obtain ⟨request, hrequest, hserved⟩ := AppState.socketStep_eq_some h
  have hsame {task : Task} (hmembership : task.membership = (s.task label.connection).membership) :
      (fun c => (Function.update s.task label.connection task c).membership) =
        s.sessions.status := by
    rw [membership_update, hmembership]
    exact Function.update_eq_self label.connection s.sessions.status
  cases hserved with
  | goto after =>
    left
    rw [after, System.sessions, hsame (Task.request_goto hrequest).membership]
    exact ⟨rfl, rfl⟩
  | @perform op resume outcome past call clock task_eq queue =>
    right
    obtain ⟨action, haction⟩ :=
      (Task.request_perform hrequest).sessionStep rfl past call clock task_eq
    exact ⟨action, op, outcome, rfl, haction⟩
  | deliver send after =>
    left
    rw [after, System.sessions, hsame ((Task.request_deliver hrequest).2.membership _)]
    exact ⟨rfl, rfl⟩
  | take next after =>
    left
    rw [after]
    exact ⟨rfl, rfl⟩

/-- A step changes no task but its own. -/
theorem AppState.task_of_ne {app : AppState} {s t : System} {label : Label} {shown : Shown}
    (h : app.socketStep s label = some (t, shown)) {c : ConnId} (hc : c ≠ label.connection) :
    t.task c = s.task c := by
  obtain ⟨request, -, hserved⟩ := AppState.socketStep_eq_some h
  cases hserved with
  | goto after =>
    rw [after]
    exact Function.update_of_ne hc _ _
  | perform past call clock task_eq queue => rw [task_eq, Function.update_of_ne hc]
  | deliver send after =>
    rw [after]
    exact Function.update_of_ne hc _ _
  | take next after => rw [after]

theorem sessionRun_of_systemRun {app : AppState} {history : List SystemTransition} {s : System}
    (run : app.SystemRun history s) : ∃ history', app.SessionRun history' s.sessions := by
  apply run.project System.sessions
  intro s label t shown taken
  rcases AppState.sessions_step taken with ⟨hsame, -⟩ | ⟨action, op, outcome, -, haction⟩
  · exact .inl hsame
  · exact .inr ⟨_, _, haction⟩

/-- In every state of the system the rooms hold exactly the handles of the registered tasks. -/
theorem handleAt_iff_membership {app : AppState} {history : List SystemTransition} {s : System}
    (run : app.SystemRun history s) (roomHandle : String) (role : ClientRole) (id : String)
    (c : ConnId) : handleAt s.inner roomHandle role id = some ⟨c⟩ ↔
      (s.task c).membership = .registered roomHandle role id := by
  obtain ⟨history', run'⟩ := sessionRun_of_systemRun run
  exact (seated_of_run run').handles roomHandle role id c

/-- A connection that no step of the run belongs to has not been accepted. -/
theorem idle_of_unlabelled {app : AppState} {history : List SystemTransition} {s : System}
    (run : app.SystemRun history s) {c : ConnId} (h : ∀ t ∈ history, t.label.connection ≠ c) :
    s.task c = .idle := by
  apply run.invariant_of_forall (fun t => t.label.connection ≠ c) (fun s => s.task c = .idle)
  · rfl
  · intro s label t shown hidle taken hc
    rw [AppState.task_of_ne taken (Ne.symm hc)]
    exact hidle
  · exact h

/-- The same at the source of any step of the run. -/
theorem idle_at_source {app : AppState} {history : List SystemTransition} {s : System}
    (run : app.SystemRun history s) {c : ConnId} (h : ∀ t ∈ history, t.label.connection ≠ c)
    {t : SystemTransition} (ht : t ∈ history) : t.source.task c = .idle := by
  obtain ⟨past, later, rfl⟩ := List.append_of_mem ht
  exact idle_of_unlabelled run.cut.1 fun u hu => h u (List.mem_append_left _ hu)

/-! ## Undisturbed handshakes with the ideal PAKE -/

namespace Scenario

/-- One operation of a handshake. -/
def operate (now : ℕ) (c : ConnId) : Label := ⟨now, c, .operate 0 (.ok "token")⟩

/-- One message of a handshake. -/
def send (c : ConnId) (message : ClientMessage) : Label :=
  ⟨0, c, .receive (.message message) 0 (.ok "token")⟩

/-- A client with the secret of a room begins to log in: its request is read and the password file
of the room looked up. -/
def beginLogin (now : ℕ) (c : ConnId) (role : ClientRole) (roomHandle : String) (secret : Bytes)
    (clientAlias : Option String) : List Label :=
  [⟨now, c, .accept c⟩, operate now c,
    send c (.pakeInit role roomHandle (encodeBytes secret) clientAlias), operate now c]

def finishLogin (c : ConnId) (secret : Bytes) : Label :=
  send c (.pakeCredentialFinalization "token" (encodeBytes secret))

/-- An agent finds no room and creates it, up to the point where it registers. -/
def createRoom (now : ℕ) (c : ConnId) (roomHandle : String) (secret : Bytes)
    (clientAlias : Option String) : List Label :=
  beginLogin now c .agent roomHandle secret clientAlias ++
    [operate now c, send c (.pakeRegistrationRequest (encodeBytes secret)),
      send c (.pakeRegistrationUpload (encodeBytes secret) (encodeBytes secret)),
      finishLogin c secret, operate now c]

def register (now : ℕ) (c : ConnId) : Label := ⟨now, c, .register⟩

def enqueue (c : ConnId) : Label := ⟨0, c, .enqueue⟩

/-- A serving client stops and unregisters. -/
def leave (now : ℕ) (c : ConnId) : List Label := [⟨now, c, .stop⟩, ⟨now, c, .unregister⟩]

end Scenario

end ManInTheBox.Server
