import Mathlib.Tactic
import ManInTheBox.Library.Run

/-! # The stream bridge

Streams of the guest and channels of the host are joined by two pollers. The
consumer reads a batch from the stream and tries to send its items one by one; what
the channel has no room for waits in a queue. The producer fills a buffer of the
capacity it is offered with the items it can receive at once.
-/

namespace ManInTheBox.Host

open Library

inductive StreamResult
  | completed
  | cancelled
  | dropped
  deriving DecidableEq

inductive Poll
  | ready (result : StreamResult)
  | pending
  | failed
  deriving DecidableEq

variable {α : Type}

/-! ## The consumer -/

/-- The result of one `try_send`. -/
inductive TrySend
  | ok
  | full
  | closed
  deriving DecidableEq

/-- How a run of `try_send`s over some items ended, with the items that were not sent. -/
inductive Sent (α : Type)
  | all
  | full (rest : List α)
  | closed (rest : List α)

/-- Try to send items until one is refused; `trySend n` is the result of attempt number `n` of the
poll. A full channel hands its item back, a closed one does not. -/
def trySendAll (trySend : ℕ → TrySend) : (attempt : ℕ) → (channel : List α) → List α →
    ℕ × List α × Sent α
  | attempt, channel, [] => (attempt, channel, .all)
  | attempt, channel, item :: items =>
    match trySend attempt with
    | .ok => trySendAll trySend (attempt + 1) (channel ++ [item]) items
    | .full => (attempt + 1, channel, .full (item :: items))
    | .closed => (attempt + 1, channel, .closed items)

/-- The consumer with its two ends: the items it has put into the channel, those it has read from
the source, and its own queue. -/
structure MpscStreamConsumer (α : Type) where
  channel : List α
  pending : List α
  source : List α

def MpscStreamConsumer.new : MpscStreamConsumer α := ⟨[], [], []⟩

/-- One poll: what its `try_send`s return, how many items the source announces, what a read of them
yields, and whether the stream is finishing. -/
structure ConsumePoll (α : Type) where
  trySend : ℕ → TrySend
  remaining : ℕ
  read : Option (List α)
  finish : Bool

def MpscStreamConsumer.pollConsume (this : MpscStreamConsumer α) (poll : ConsumePoll α) :
    MpscStreamConsumer α × Poll :=
  match trySendAll poll.trySend 0 this.channel this.pending with
  | (_, channel, .full pending) => ({ this with channel, pending }, .pending)
  | (_, channel, .closed pending) => ({ this with channel, pending }, .ready .dropped)
  | (attempt, channel, .all) =>
    if 0 < poll.remaining then
      match poll.read with
      | none => ({ this with channel, pending := [] }, .failed)
      | some buf =>
        let source := this.source ++ buf
        match trySendAll poll.trySend attempt channel buf with
        | (_, channel, .full pending) => (⟨channel, pending, source⟩, .pending)
        | (_, channel, .closed _) => (⟨channel, [], source⟩, .ready .dropped)
        | (_, channel, .all) => (⟨channel, [], source⟩, .ready .completed)
    else if poll.finish then ({ this with channel, pending := [] }, .ready .cancelled)
    else ({ this with channel, pending := [] }, .ready .completed)

abbrev ConsumerTransition (α : Type) :=
  Transition (MpscStreamConsumer α) (ConsumePoll α) Poll

abbrev ConsumerRun :=
  Run (fun this poll => some (MpscStreamConsumer.pollConsume (α := α) this poll))
    MpscStreamConsumer.new

/-! ## The producer -/

/-- The producer with its two ends: what waits in the channel, whether all senders are gone, the
items sent and those received, and the buffers handed out. -/
structure MpscStreamProducer (α : Type) where
  queue : List α
  closed : Bool
  sent : List α
  received : List α
  buffers : List (List α)

def MpscStreamProducer.new : MpscStreamProducer α := ⟨[], false, [], [], []⟩

/-- What happens at the other end before a `poll_recv`: items arrive, then the senders may go. The
receiver may be put off although there is something to receive. -/
structure Arrival (α : Type) where
  items : List α
  close : Bool
  putOff : Bool

inductive PollRecv (α : Type)
  | item (item : α)
  | closed
  | pending

def MpscStreamProducer.arrive (this : MpscStreamProducer α) (arrival : Arrival α) :
    MpscStreamProducer α :=
  if this.closed then this
  else
    { this with
      queue := this.queue ++ arrival.items
      sent := this.sent ++ arrival.items
      closed := arrival.close }

def MpscStreamProducer.pollRecv (this : MpscStreamProducer α) (arrival : Arrival α) :
    MpscStreamProducer α × PollRecv α :=
  let this := this.arrive arrival
  if arrival.putOff then (this, .pending)
  else
    match this.queue with
    | item :: queue =>
      ({ this with queue, received := this.received ++ [item] }, .item item)
    | [] => if this.closed then (this, .closed) else (this, .pending)

def MpscStreamProducer.setBuffer (this : MpscStreamProducer α) (buf : List α) :
    MpscStreamProducer α :=
  { this with buffers := this.buffers ++ [buf] }

/-- The loop of `poll_produce`, with the room that is left in the buffer. -/
def MpscStreamProducer.fill (arrivals : ℕ → Arrival α) : (room : ℕ) → (attempt : ℕ) →
    (buf : List α) → MpscStreamProducer α → MpscStreamProducer α × Poll
  | 0, _, buf, this => (this.setBuffer buf, .ready .completed)
  | room + 1, attempt, buf, this =>
    match this.pollRecv (arrivals attempt) with
    | (this, .item item) => fill arrivals room (attempt + 1) (buf ++ [item]) this
    | (this, .closed) =>
      if buf.isEmpty then (this, .ready .dropped) else (this.setBuffer buf, .ready .dropped)
    | (this, .pending) =>
      if buf.isEmpty then (this, .pending) else (this.setBuffer buf, .ready .completed)

/-- One poll: the capacity of the destination, if it has one, and the arrivals during the poll. -/
structure ProducePoll (α : Type) where
  remaining : Option ℕ
  arrivals : ℕ → Arrival α

/-- The number of items a poll may hand out. -/
def ProducePoll.count (poll : ProducePoll α) : ℕ := poll.remaining.getD 32

def MpscStreamProducer.pollProduce (this : MpscStreamProducer α) (poll : ProducePoll α) :
    MpscStreamProducer α × Poll :=
  if poll.count = 0 then (this, .ready .completed)
  else fill poll.arrivals poll.count 0 [] this

abbrev ProducerTransition (α : Type) :=
  Transition (MpscStreamProducer α) (ProducePoll α) Poll

abbrev ProducerRun :=
  Run (fun this poll => some (MpscStreamProducer.pollProduce (α := α) this poll))
    MpscStreamProducer.new

/-! ## Nothing is lost by the consumer -/

/-- The items that were not sent. -/
def Sent.rest : Sent α → List α
  | .all => []
  | .full rest => rest
  | .closed rest => rest

theorem trySendAll_conserves {trySend : ℕ → TrySend} (hopen : ∀ n, trySend n ≠ .closed)
    {attempt attempt' : ℕ} {channel channel' items : List α} {sent : Sent α}
    (h : trySendAll trySend attempt channel items = (attempt', channel', sent)) :
    channel' ++ sent.rest = channel ++ items ∧ ∀ rest, sent ≠ .closed rest := by
  induction items generalizing attempt channel with
  | nil =>
    obtain ⟨-, rfl, rfl⟩ : attempt = attempt' ∧ channel = channel' ∧ Sent.all = sent := by
      simpa [trySendAll] using h
    simp [Sent.rest]
  | cons item items ih =>
    rw [trySendAll] at h
    cases hsend : trySend attempt with
    | ok =>
      simp only [hsend] at h
      obtain ⟨hconserved, hnot⟩ := ih h
      refine ⟨?_, hnot⟩
      rw [hconserved, List.append_assoc]
      rfl
    | full =>
      simp only [hsend] at h
      obtain ⟨-, rfl, rfl⟩ : attempt + 1 = attempt' ∧ channel = channel' ∧
        Sent.full (item :: items) = sent := by simpa using h
      simp [Sent.rest]
    | closed => exact absurd hsend (hopen attempt)

theorem pollConsume_conserves {this this' : MpscStreamConsumer α} {poll : ConsumePoll α}
    {result : Poll} (hopen : ∀ n, poll.trySend n ≠ .closed)
    (h : this.channel ++ this.pending = this.source)
    (hpoll : this.pollConsume poll = (this', result)) :
    this'.channel ++ this'.pending = this'.source := by
  rw [MpscStreamConsumer.pollConsume] at hpoll
  rcases hqueue : trySendAll poll.trySend 0 this.channel this.pending with ⟨attempt, channel, sent⟩
  obtain ⟨hsent, hnot⟩ := trySendAll_conserves hopen hqueue
  cases sent with
  | full pending =>
    simp only [hqueue] at hpoll
    obtain ⟨rfl, -⟩ := Prod.mk.inj hpoll
    exact hsent.trans h
  | closed pending => exact absurd rfl (hnot pending)
  | all =>
    -- The queue is empty from here on.
    have hchannel : channel = this.source := by simpa [Sent.rest, h] using hsent
    simp only [hqueue] at hpoll
    split_ifs at hpoll
    · cases hread : poll.read with
      | none =>
        simp only [hread] at hpoll
        obtain ⟨rfl, -⟩ := Prod.mk.inj hpoll
        simpa using hchannel
      | some buf =>
        rcases hbatch : trySendAll poll.trySend attempt channel buf with ⟨attempt', channel', sent⟩
        obtain ⟨hsent', hnot'⟩ := trySendAll_conserves hopen hbatch
        rw [hchannel] at hsent'
        cases sent with
        | full pending =>
          simp only [hread, hbatch] at hpoll
          obtain ⟨rfl, -⟩ := Prod.mk.inj hpoll
          exact hsent'
        | closed pending => exact absurd rfl (hnot' pending)
        | all =>
          simp only [hread, hbatch] at hpoll
          obtain ⟨rfl, -⟩ := Prod.mk.inj hpoll
          exact hsent'
    · obtain ⟨rfl, -⟩ := Prod.mk.inj hpoll
      simpa using hchannel
    · obtain ⟨rfl, -⟩ := Prod.mk.inj hpoll
      simpa using hchannel

/-- `Completed` is only reported when nothing waits. -/
theorem pollConsume_completed {this this' : MpscStreamConsumer α} {poll : ConsumePoll α}
    (hpoll : this.pollConsume poll = (this', .ready .completed)) : this'.pending = [] := by
  rw [MpscStreamConsumer.pollConsume] at hpoll
  split at hpoll
  · cases (Prod.mk.inj hpoll).2
  · cases (Prod.mk.inj hpoll).2
  · split_ifs at hpoll
    · split at hpoll
      · cases (Prod.mk.inj hpoll).2
      · simp only at hpoll
        split at hpoll
        · cases (Prod.mk.inj hpoll).2
        · cases (Prod.mk.inj hpoll).2
        · rw [← (Prod.mk.inj hpoll).1]
    · cases (Prod.mk.inj hpoll).2
    · rw [← (Prod.mk.inj hpoll).1]

/-! ## Nothing is lost by the producer -/

/-- What was sent has been received or waits in the channel; what was received has been handed out
or is in the buffer. -/
structure Holding (this : MpscStreamProducer α) (buf : List α) : Prop where
  queue : this.received ++ this.queue = this.sent
  buffers : this.buffers.flatten ++ buf = this.received

theorem Holding.arrive {this : MpscStreamProducer α} {buf : List α} (h : Holding this buf)
    (arrival : Arrival α) : Holding (this.arrive arrival) buf := by
  rw [MpscStreamProducer.arrive]
  split_ifs
  · exact h
  · constructor
    · rw [← List.append_assoc, h.queue]
    · exact h.buffers

theorem Holding.setBuffer {this : MpscStreamProducer α} {buf : List α} (h : Holding this buf) :
    Holding (this.setBuffer buf) [] where
  queue := h.queue
  buffers := by simpa [MpscStreamProducer.setBuffer] using h.buffers

/-- A `poll_recv` takes the oldest item, finds the channel closed and drained, or finds nothing. -/
theorem pollRecv_cases {this this' : MpscStreamProducer α} {buf : List α} {arrival : Arrival α}
    {result : PollRecv α} (h : Holding this buf)
    (hpoll : this.pollRecv arrival = (this', result)) :
    this'.buffers = this.buffers ∧
      ((∃ item, result = .item item ∧ Holding this' (buf ++ [item])) ∨
        (result = .closed ∧ Holding this' buf ∧ this'.closed = true ∧ this'.queue = []) ∨
        (result = .pending ∧ Holding this' buf)) := by
  have harrive := h.arrive arrival
  have hbuffers : (this.arrive arrival).buffers = this.buffers := by
    rw [MpscStreamProducer.arrive]
    split_ifs <;> rfl
  simp only [MpscStreamProducer.pollRecv] at hpoll
  split at hpoll
  · obtain ⟨rfl, rfl⟩ := Prod.mk.inj hpoll
    exact ⟨hbuffers, .inr (.inr ⟨rfl, harrive⟩)⟩
  · split at hpoll
    · rename_i item queue hqueue
      obtain ⟨rfl, rfl⟩ := Prod.mk.inj hpoll
      refine ⟨hbuffers, .inl ⟨item, rfl, ?_, ?_⟩⟩
      · have hsent := harrive.queue
        rw [hqueue] at hsent
        simpa using hsent
      · simp only [← List.append_assoc, harrive.buffers]
    · rename_i hqueue
      split_ifs at hpoll with hclosed
      · obtain ⟨rfl, rfl⟩ := Prod.mk.inj hpoll
        exact ⟨hbuffers, .inr (.inl ⟨rfl, harrive, hclosed, hqueue⟩)⟩
      · obtain ⟨rfl, rfl⟩ := Prod.mk.inj hpoll
        exact ⟨hbuffers, .inr (.inr ⟨rfl, harrive⟩)⟩

/-- What a poll that may hand out `count` items has done. -/
structure Produced (count : ℕ) (this this' : MpscStreamProducer α) (result : Poll) : Prop where
  holding : Holding this' []
  buffers : ∃ handed, this'.buffers = this.buffers ++ handed ∧ handed.length ≤ 1 ∧
    ∀ buf ∈ handed, buf.length ≤ count
  dropped : result = .ready .dropped → this'.closed = true ∧ this'.queue = []

/-- A poll ends by handing out its buffer, unless the buffer is empty. -/
theorem Produced.of_holding {this next : MpscStreamProducer α} {buf : List α} {count : ℕ}
    {result : Poll} (h : Holding next buf) (hbuffers : next.buffers = this.buffers)
    (hle : buf.length ≤ count)
    (hdropped : result = .ready .dropped → next.closed = true ∧ next.queue = []) :
    Produced count this (if buf.isEmpty then next else next.setBuffer buf) result := by
  cases buf with
  | nil => exact ⟨h, ⟨[], by simpa using hbuffers, by simp, by simp⟩, hdropped⟩
  | cons item items =>
    refine ⟨h.setBuffer, ⟨[item :: items], ?_, by simp, by simpa using hle⟩, hdropped⟩
    rw [← hbuffers]
    rfl

theorem fill_produced {arrivals : ℕ → Arrival α} {room attempt count : ℕ} {buf : List α}
    {this this' : MpscStreamProducer α} {result : Poll} (h : Holding this buf)
    (hroom : buf.length + room = count)
    (hfill : this.fill arrivals room attempt buf = (this', result)) :
    Produced count this this' result := by
  induction room generalizing attempt buf this with
  | zero =>
    obtain ⟨rfl, rfl⟩ := Prod.mk.inj hfill
    refine ⟨h.setBuffer, ⟨[buf], rfl, by simp, ?_⟩, fun hdropped => by cases hdropped⟩
    intro handed hmem
    rw [List.mem_singleton.mp hmem]
    omega
  | succ room ih =>
    rw [MpscStreamProducer.fill] at hfill
    rcases hrecv : this.pollRecv (arrivals attempt) with ⟨next, recv⟩
    obtain ⟨hbuffers, ⟨item, rfl, hnext⟩ | ⟨rfl, hnext, hclosed⟩ | ⟨rfl, hnext⟩⟩ :=
      pollRecv_cases h hrecv
    · simp only [hrecv] at hfill
      have hproduced := ih hnext (by rw [List.length_append, List.length_singleton]; omega) hfill
      exact ⟨hproduced.holding, hbuffers ▸ hproduced.buffers, hproduced.dropped⟩
    · simp only [hrecv, ← apply_ite (fun this => (this, Poll.ready .dropped))] at hfill
      obtain ⟨rfl, rfl⟩ := Prod.mk.inj hfill
      exact .of_holding hnext hbuffers (by omega) fun _ => hclosed
    · have hpending : ∀ result : Poll, result = .pending ∨ result = .ready .completed →
          result = .ready .dropped → next.closed = true ∧ next.queue = [] := by
        rintro result (rfl | rfl) hdropped <;> cases hdropped
      simp only [hrecv] at hfill
      have hproduced := Produced.of_holding hnext hbuffers (by omega : buf.length ≤ count)
        (hpending result (by split_ifs at hfill <;> simp [← (Prod.mk.inj hfill).2]))
      split_ifs at hfill with hempty
      · rwa [if_pos hempty, (Prod.mk.inj hfill).1] at hproduced
      · rwa [if_neg hempty, (Prod.mk.inj hfill).1] at hproduced

theorem pollProduce_produced {this this' : MpscStreamProducer α} {poll : ProducePoll α}
    {result : Poll} (h : Holding this []) (hpoll : this.pollProduce poll = (this', result)) :
    Produced poll.count this this' result := by
  rw [MpscStreamProducer.pollProduce] at hpoll
  split_ifs at hpoll
  · obtain ⟨rfl, rfl⟩ := Prod.mk.inj hpoll
    exact ⟨h, ⟨[], by simp, by simp, by simp⟩, fun hdropped => by cases hdropped⟩
  · exact fill_produced h (by simp) hpoll

/-! ## Every run -/

theorem source_of_run {history : List (ConsumerTransition α)} {this : MpscStreamConsumer α}
    (run : ConsumerRun history this)
    (hopen : ∀ u ∈ history, ∀ n, u.label.trySend n ≠ .closed) :
    this.channel ++ this.pending = this.source := by
  apply run.invariant_of_forall (fun u => ∀ n, u.label.trySend n ≠ .closed)
    (fun this => this.channel ++ this.pending = this.source) rfl _ hopen
  intro this poll this' result h taken hopen
  exact pollConsume_conserves hopen h (Option.some.inj taken)

theorem holding_of_run {history : List (ProducerTransition α)} {this : MpscStreamProducer α}
    (run : ProducerRun history this) : Holding this [] := by
  apply run.invariant fun this => Holding this []
  · exact ⟨rfl, rfl⟩
  · intro this poll this' result h taken
    exact (pollProduce_produced h (Option.some.inj taken)).holding

/-- The bridge is a lossless queue in both directions, whatever the other end of the channel does
between two attempts. -/
theorem stream_bridge_lossless :
    (∀ (history : List (ConsumerTransition α)) this, ConsumerRun history this →
      (∀ u ∈ history, u.output = .ready .completed → u.target.pending = []) ∧
      ((∀ u ∈ history, ∀ n, u.label.trySend n ≠ .closed) →
        this.channel ++ this.pending = this.source)) ∧
    ∀ (history : List (ProducerTransition α)) this, ProducerRun history this →
      this.buffers.flatten = this.received ∧ this.received ++ this.queue = this.sent ∧
      ∀ u ∈ history, (∃ handed, u.target.buffers = u.source.buffers ++ handed ∧
          ∀ buf ∈ handed, buf.length ≤ u.label.count) ∧
        (u.output = .ready .dropped → u.target.closed = true ∧ u.target.queue = []) := by
  constructor
  · intro history this run
    refine ⟨fun u hu hcompleted => ?_, source_of_run run⟩
    have taken := Option.some.inj (run.mem_step hu).2
    rw [hcompleted] at taken
    exact pollConsume_completed taken
  · intro history this run
    have h := holding_of_run run
    refine ⟨by simpa using h.buffers, h.queue, fun u hu => ?_⟩
    obtain ⟨⟨past, before⟩, taken⟩ := run.mem_step hu
    have hproduced := pollProduce_produced (holding_of_run before) (Option.some.inj taken)
    obtain ⟨handed, hbuffers, -, hle⟩ := hproduced.buffers
    exact ⟨⟨handed, hbuffers, hle⟩, hproduced.dropped⟩

/-- Three items into a channel that has room for one at a time. -/
def crowdedPolls : List (ConsumePoll ℕ) :=
  [⟨fun n => if n = 0 then .ok else .full, 3, some [1, 2, 3], false⟩,
    ⟨fun n => if n = 0 then .ok else .full, 0, none, false⟩, ⟨fun _ => .ok, 1, some [4], false⟩]

/-- Three items, a capacity of two, and senders that leave. -/
def partingPolls : List (ProducePoll ℕ) :=
  [⟨some 2, fun _ => ⟨[5, 6, 7], true, false⟩⟩, ⟨none, fun _ => ⟨[], true, false⟩⟩]

theorem stream_bridge_lossless_crowded :
    (reached (fun this poll => some (MpscStreamConsumer.pollConsume this poll)) .new
      crowdedPolls).channel = [1, 2, 3, 4] ∧
    (reached (fun this poll => some (MpscStreamProducer.pollProduce this poll)) .new
      partingPolls).buffers.flatten = [5, 6, 7] := by
  have consumer : ConsumerRun (trace _ _ crowdedPolls) (reached _ _ crowdedPolls) :=
    Run.of_labels rfl
  have producer : ProducerRun (trace _ _ partingPolls) (reached _ _ partingPolls) :=
    Run.of_labels rfl
  have hlossless := @stream_bridge_lossless ℕ
  constructor
  · have hlabels : ∀ poll ∈ crowdedPolls, ∀ n, poll.trySend n ≠ .closed := by
      intro poll hpoll n
      simp only [crowdedPolls, List.mem_cons, List.not_mem_nil, or_false] at hpoll
      rcases hpoll with rfl | rfl | rfl <;> by_cases hn : n = 0 <;> simp [hn]
    exact (hlossless.1 _ _ consumer).2 fun u hu =>
      hlabels u.label (List.mem_map_of_mem (f := Transition.label) hu)
  · exact (hlossless.2 _ _ producer).1

end ManInTheBox.Host
