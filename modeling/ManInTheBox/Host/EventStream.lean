import Mathlib.Tactic
import ManInTheBox.Library.Run

/-! # The events of the host in the box

The box turns the events of the host into messages. It drains the output that has come
in into one message, keeps the event that ended the drain for the next poll, and is
done when the channel is closed. A drain that meets the closed channel adds a
`Disconnected`; a poll that meets it adds nothing.
-/

namespace ManInTheBox.Host

open Library

inductive HostEvent
  | terminalOutput (data : List UInt8)
  | sessionEnded (reason : String)
  | disconnected
  deriving DecidableEq

namespace HostEvent

/-- Nothing is to come after this event. -/
def terminates : HostEvent → Bool
  | .terminalOutput _ => false
  | .sessionEnded _ | .disconnected => true

/-- Put an event before merged ones. -/
def push : HostEvent → List HostEvent → List HostEvent
  | .terminalOutput data, .terminalOutput next :: merged => .terminalOutput (data ++ next) :: merged
  | event, merged => event :: merged

/-- Merge adjacent output. -/
def merge (events : List HostEvent) : List HostEvent := events.foldr push []

@[simp] theorem merge_nil : merge [] = [] := rfl

@[simp] theorem merge_cons (event : HostEvent) (events : List HostEvent) :
    merge (event :: events) = push event (merge events) := rfl

theorem push_ne_nil (event : HostEvent) (merged : List HostEvent) : push event merged ≠ [] := by
  unfold push
  split
  · exact List.cons_ne_nil _ _
  · exact List.cons_ne_nil _ _

theorem push_append {event : HostEvent} {merged : List HostEvent} {last : HostEvent}
    (hlast : last.terminates = true) :
    push event (merged ++ [last]) = push event merged ++ [last] := by
  cases merged with
  | nil =>
    cases last with
    | terminalOutput data => cases hlast
    | sessionEnded | disconnected => cases event <;> rfl
  | cons first merged => cases event <;> cases first <;> rfl

/-- An event that ends everything is not merged with what comes before it. -/
theorem merge_append {events : List HostEvent} {last : HostEvent}
    (hlast : last.terminates = true) : merge (events ++ [last]) = merge events ++ [last] := by
  induction events with
  | nil => cases last <;> rfl
  | cons event events ih => rw [List.cons_append, merge_cons, ih, push_append hlast, merge_cons]

/-- It makes no difference to the merged events whether adjacent output has been joined already. -/
theorem merge_joined (before after : List HostEvent) (data next : List UInt8) :
    merge (before ++ .terminalOutput (data ++ next) :: after) =
      merge (before ++ .terminalOutput data :: .terminalOutput next :: after) := by
  induction before with
  | nil =>
    rw [List.nil_append, List.nil_append, merge_cons, merge_cons, merge_cons]
    cases merge after with
    | nil => rfl
    | cons first merged =>
      cases first with
      | terminalOutput rest => simp [push]
      | sessionEnded | disconnected => rfl
  | cons event before ih => rw [List.cons_append, merge_cons, ih, List.cons_append, merge_cons]

theorem terminates_getLast?_push (event : HostEvent) {merged : List HostEvent} (h : merged ≠ []) :
    (push event merged).getLast?.map terminates = merged.getLast?.map terminates := by
  cases merged with
  | nil => exact absurd rfl h
  | cons first merged =>
    cases merged with
    | nil => cases event <;> cases first <;> rfl
    | cons second merged => cases event <;> cases first <;> rfl

theorem terminates_getLast?_merge (events : List HostEvent) :
    (merge events).getLast?.map terminates = events.getLast?.map terminates := by
  induction events with
  | nil => rfl
  | cons event events ih =>
    cases events with
    | nil => cases event <;> rfl
    | cons next events =>
      have hne : merge (next :: events) ≠ [] := push_ne_nil _ _
      rw [merge_cons, terminates_getLast?_push event hne, ih, List.getLast?_cons_cons]

end HostEvent

/-! ## The stream -/

/-- The stream waits to be polled, with the event that the last poll left; it drains the channel into
an output event; or it has ended. -/
inductive StreamPhase
  | waiting (pending : Option HostEvent)
  | draining (data : List UInt8)
  | ended
  deriving DecidableEq

/-- The host with the events it has yet to send, the channel, and the box. -/
structure EventStream where
  unsent : List HostEvent
  senderDropped : Bool
  channel : List HostEvent
  phase : StreamPhase
  messages : List HostEvent
  deriving DecidableEq

/-- The host sends the next event or drops its sender; the box takes the event of a poll, or looks
once into the channel while it drains it. -/
inductive StreamStep
  | send
  | dropSender
  | takeEvent
  | tryRecv
  deriving DecidableEq

namespace EventStream

def start (events : List HostEvent) : EventStream := ⟨events, false, [], .waiting none, []⟩

/-- Yield a message. -/
def emit (this : EventStream) (event : HostEvent) (nextPending : Option HostEvent) : EventStream :=
  { this with phase := .waiting nextPending, messages := this.messages ++ [event] }

/-- What a poll does with its event. -/
def handle (this : EventStream) (event : HostEvent) : EventStream :=
  match event with
  | .terminalOutput data => { this with phase := .draining data }
  | other => this.emit other none

def step (this : EventStream) : StreamStep → Option (EventStream × Unit)
  | .send =>
    match this.unsent with
    | event :: unsent => some ({ this with unsent, channel := this.channel ++ [event] }, ())
    | [] => none
  | .dropSender =>
    if this.unsent = [] then some ({ this with senderDropped := true }, ()) else none
  | .takeEvent =>
    match this.phase with
    | .waiting (some event) => some (this.handle event, ())
    | .waiting none =>
      -- `recv` waits as long as the channel is empty and not closed.
      match this.channel with
      | event :: channel => some (handle { this with channel } event, ())
      | [] => if this.senderDropped then some ({ this with phase := .ended }, ()) else none
    | .draining _ | .ended => none
  | .tryRecv =>
    match this.phase with
    | .draining data =>
      match this.channel with
      | .terminalOutput nextData :: channel =>
        some ({ this with channel, phase := .draining (data ++ nextData) }, ())
      | other :: channel => some (emit { this with channel } (.terminalOutput data) (some other), ())
      | [] =>
        some (this.emit (.terminalOutput data)
          (if this.senderDropped then some .disconnected else none), ())
    | .waiting _ | .ended => none

end EventStream

abbrev StreamRun (events : List HostEvent) := Run EventStream.step (EventStream.start events)

/-! ## What all schedules have in common -/

namespace EventStream

variable {events : List HostEvent} {this next : EventStream}

/-- The events that the box has taken and not yet emitted. -/
def held (this : EventStream) : List HostEvent :=
  match this.phase with
  | .waiting pending => pending.toList
  | .draining data => [.terminalOutput data]
  | .ended => []

/-- All events, from the messages on back to those that are not sent yet. -/
def inOrder (this : EventStream) : List HostEvent :=
  this.messages ++ this.held ++ this.channel ++ this.unsent

/-- A drain has met the closed channel, after the last event of the host. -/
structure Closing (events : List HostEvent) (this : EventStream) : Prop where
  output : events.getLast?.map HostEvent.terminates = some false
  added : HostEvent.merge this.inOrder = HostEvent.merge events ++ [.disconnected]
  phase : this.phase = .waiting (some .disconnected) ∨ this.phase = .waiting none ∨
    this.phase = .ended
  channel : this.channel = []
  unsent : this.unsent = []

/-- No output is lost, doubled or moved across another event. -/
structure Conserved (events : List HostEvent) (this : EventStream) : Prop where
  dropped : this.senderDropped = true → this.unsent = []
  ended : this.phase = .ended → this.channel = [] ∧ this.unsent = []
  merged : HostEvent.merge this.inOrder = HostEvent.merge events ∨ Closing events this

theorem conserved_start (events : List HostEvent) : Conserved events (start events) where
  dropped := by simp [start]
  ended := by simp [start]
  merged := .inl (by simp [inOrder, start, held])

/-- To take an event changes nothing about the order. -/
theorem inOrder_handle (this : EventStream) (event : HostEvent) :
    (this.handle event).inOrder = this.messages ++ [event] ++ this.channel ++ this.unsent := by
  cases event with
  | terminalOutput data => rfl
  | sessionEnded | disconnected => simp [handle, emit, inOrder, held]

theorem handle_phase_ne_ended (this : EventStream) (event : HostEvent) :
    (this.handle event).phase ≠ .ended := by
  cases event <;> simp [handle, emit]

/-- As long as the drain has not met the closed channel, a step that keeps the order, up to a merge,
keeps everything. -/
theorem Conserved.of_inOrder (h : Conserved events this) (hopen : ¬ Closing events this)
    (hsame : HostEvent.merge next.inOrder = HostEvent.merge this.inOrder)
    (hdropped : next.senderDropped = true → next.unsent = [])
    (hended : next.phase = .ended → next.channel = [] ∧ next.unsent = []) :
    Conserved events next :=
  ⟨hdropped, hended, .inl (hsame.trans (h.merged.resolve_right hopen))⟩

theorem Conserved.send (h : Conserved events this) (hstep : this.step .send = some (next, ())) :
    Conserved events next := by
  simp only [step] at hstep
  cases hunsent : this.unsent with
  | nil => simp [hunsent] at hstep
  | cons event unsent =>
    simp only [hunsent, Option.some.injEq, Prod.mk.injEq, and_true] at hstep
    subst hstep
    have hopen : ¬ Closing events this := by
      intro hclosing
      simp [hclosing.unsent] at hunsent
    apply h.of_inOrder hopen
    · simp [inOrder, held, hunsent]
    · intro hdropped
      simp [h.dropped hdropped] at hunsent
    · intro hended
      simp [(h.ended hended).2] at hunsent

theorem Conserved.dropSender (h : Conserved events this)
    (hstep : this.step .dropSender = some (next, ())) : Conserved events next := by
  simp only [step] at hstep
  split_ifs at hstep with hunsent
  simp only [Option.some.injEq, Prod.mk.injEq, and_true] at hstep
  subst hstep
  refine ⟨fun _ => hunsent, h.ended, h.merged.imp_right fun hclosing => ?_⟩
  exact ⟨hclosing.output, hclosing.added, hclosing.phase, hclosing.channel, hclosing.unsent⟩

/-- A poll with an event, from wherever it comes. -/
theorem Conserved.handle (h : Conserved events this) (event : HostEvent)
    (hsame : this.inOrder = next.messages ++ [event] ++ next.channel ++ next.unsent)
    (hdropped : next.senderDropped = true → next.unsent = [])
    (hclosing : Closing events this → event = .disconnected ∧ next.channel = [] ∧ next.unsent = []) :
    Conserved events (next.handle event) := by
  have hsame' : (next.handle event).inOrder = this.inOrder := by rw [hsame, inOrder_handle]
  have hunsent : (next.handle event).unsent = next.unsent := by cases event <;> rfl
  have hchannel : (next.handle event).channel = next.channel := by cases event <;> rfl
  have hsender : (next.handle event).senderDropped = next.senderDropped := by cases event <;> rfl
  refine ⟨?_, fun hended => absurd hended (handle_phase_ne_ended next event), ?_⟩
  · rw [hsender, hunsent]
    exact hdropped
  · rw [hsame']
    refine h.merged.imp_right fun hclose => ?_
    obtain ⟨rfl, hempty, hall⟩ := hclosing hclose
    exact ⟨hclose.output, by rw [hsame', hclose.added], .inr (.inl rfl), hchannel.trans hempty,
      hunsent.trans hall⟩

theorem Conserved.takeEvent (h : Conserved events this)
    (hstep : this.step .takeEvent = some (next, ())) : Conserved events next := by
  simp only [step] at hstep
  cases hphase : this.phase with
  | draining data => simp [hphase] at hstep
  | ended => simp [hphase] at hstep
  | waiting pending =>
    cases pending with
    | some event =>
      simp only [hphase, Option.some.injEq, Prod.mk.injEq, and_true] at hstep
      subst hstep
      apply h.handle event
      · simp [inOrder, held, hphase]
      · exact h.dropped
      · intro hclosing
        have hevent := hclosing.phase
        simp only [hphase, StreamPhase.waiting.injEq, Option.some.injEq, reduceCtorEq,
          or_false] at hevent
        exact ⟨hevent, hclosing.channel, hclosing.unsent⟩
    | none =>
      cases hchannel : this.channel with
      | cons event channel =>
        simp only [hphase, hchannel, Option.some.injEq, Prod.mk.injEq, and_true] at hstep
        subst hstep
        apply h.handle event
        · simp [inOrder, held, hphase, hchannel]
        · exact h.dropped
        · intro hclosing
          simp [hclosing.channel] at hchannel
      | nil =>
        simp only [hphase, hchannel] at hstep
        split_ifs at hstep with hdropped
        simp only [Option.some.injEq, Prod.mk.injEq, and_true] at hstep
        subst hstep
        have hunsent := h.dropped hdropped
        refine ⟨fun _ => hunsent, fun _ => ⟨rfl, hunsent⟩, ?_⟩
        have hsame : inOrder { this with channel := [], phase := .ended } = this.inOrder := by
          simp [inOrder, held, hphase, hchannel]
        rw [hsame]
        refine h.merged.imp_right fun hclosing => ?_
        exact ⟨hclosing.output, by rw [hsame, hclosing.added], .inr (.inr rfl), rfl, hunsent⟩

theorem Conserved.tryRecv (h : Conserved events this)
    (hstep : this.step .tryRecv = some (next, ())) : Conserved events next := by
  simp only [step] at hstep
  cases hphase : this.phase with
  | waiting pending => simp [hphase] at hstep
  | ended => simp [hphase] at hstep
  | draining data =>
    have hopen : ¬ Closing events this := by
      intro hclosing
      have hother := hclosing.phase
      simp [hphase] at hother
    cases hchannel : this.channel with
    | cons event channel =>
      cases event with
      | terminalOutput nextData =>
        simp only [hphase, hchannel, Option.some.injEq, Prod.mk.injEq, and_true] at hstep
        subst hstep
        apply h.of_inOrder hopen
        · have hjoined := HostEvent.merge_joined this.messages (channel ++ this.unsent) data nextData
          simpa [inOrder, held, hphase, hchannel] using hjoined
        · exact h.dropped
        · simp
      | sessionEnded | disconnected =>
        simp only [hphase, hchannel, Option.some.injEq, Prod.mk.injEq, and_true] at hstep
        subst hstep
        apply h.of_inOrder hopen
        · simp [emit, inOrder, held, hphase, hchannel]
        · exact h.dropped
        · simp [emit]
    | nil =>
      simp only [hphase, hchannel, Option.some.injEq, Prod.mk.injEq, and_true] at hstep
      subst hstep
      cases hdropped : this.senderDropped with
      | false =>
        apply h.of_inOrder hopen
        · simp [emit, inOrder, held, hphase, hchannel]
        · simp [emit, hdropped]
        · simp [emit]
      | true =>
        -- The closed channel was met: all events have been taken, and the last is output.
        have hunsent := h.dropped hdropped
        have hall : this.inOrder = this.messages ++ [.terminalOutput data] := by
          simp [inOrder, held, hphase, hchannel, hunsent]
        have hmerged := h.merged.resolve_right hopen
        refine ⟨fun _ => hunsent, by simp [emit], .inr ⟨?_, ?_, .inl rfl, hchannel, hunsent⟩⟩
        · rw [← HostEvent.terminates_getLast?_merge, ← hmerged,
            HostEvent.terminates_getLast?_merge, hall, List.getLast?_concat]
          rfl
        · have hadded : inOrder (this.emit (.terminalOutput data) (some .disconnected)) =
              this.inOrder ++ [.disconnected] := by
            simp [emit, inOrder, held, hphase, hchannel, hunsent]
          rw [if_pos rfl, hadded, HostEvent.merge_append rfl, hmerged]

theorem Conserved.step {label : StreamStep} {output : Unit} (h : Conserved events this)
    (hstep : this.step label = some (next, output)) : Conserved events next := by
  cases label with
  | send => exact h.send hstep
  | dropSender => exact h.dropSender hstep
  | takeEvent => exact h.takeEvent hstep
  | tryRecv => exact h.tryRecv hstep

/-- When the stream is done its messages are the events in order, and perhaps a `Disconnected`. -/
theorem merge_messages {history : List (Transition EventStream StreamStep Unit)}
    (run : StreamRun events history this) (hended : this.phase = .ended) :
    HostEvent.merge this.messages = HostEvent.merge events ∨
      events.getLast?.map HostEvent.terminates = some false ∧
        HostEvent.merge this.messages = HostEvent.merge events ++ [.disconnected] := by
  have h := run.invariant (Conserved events) (conserved_start events)
    fun _ _ _ _ hconserved hstep => hconserved.step hstep
  obtain ⟨hchannel, hunsent⟩ := h.ended hended
  have hall : this.inOrder = this.messages := by
    simp [inOrder, held, hended, hchannel, hunsent]
  rcases h.merged with hmerged | hclosing
  · exact .inl (hall ▸ hmerged)
  · exact .inr ⟨hclosing.output, hall ▸ hclosing.added⟩

/-- A box that is polled after every event, and again after the drop. -/
theorem exists_run {history : List (Transition EventStream StreamStep Unit)}
    {rest messages : List HostEvent}
    (run : StreamRun events history ⟨rest, false, [], .waiting none, messages⟩) :
    ∃ history', StreamRun events history' ⟨[], true, [], .ended, messages ++ rest⟩ := by
  induction rest generalizing history messages with
  | nil =>
    have hdropped := run.step (rfl : EventStream.step _ .dropSender = some (_, ()))
    have hended := hdropped.step (rfl : EventStream.step _ .takeEvent = some (_, ()))
    rw [List.append_nil]
    exact ⟨_, hended⟩
  | cons event rest ih =>
    have hsent := run.step (rfl : EventStream.step _ .send = some (_, ()))
    have htaken := hsent.step (rfl : EventStream.step _ .takeEvent = some (_, ()))
    rw [List.append_cons]
    cases event with
    | terminalOutput data =>
      have hdrained := htaken.step (rfl : EventStream.step _ .tryRecv = some (_, ()))
      exact ih hdrained
    | sessionEnded | disconnected => exact ih htaken

end EventStream

/-- Whatever way sends, drop, polls and looks into the channel follow each other, the messages of a
stream that is done are the same up to merging: the events in order, perhaps with a `Disconnected`
after them, and a terminating one last. -/
def TimingIndependent (events : List HostEvent) : Prop :=
  ∃ messages,
    (messages = HostEvent.merge events ∨ messages = HostEvent.merge events ++ [.disconnected]) ∧
    (∃ last, messages.getLast? = some last ∧ last.terminates = true) ∧
    ∀ history this, StreamRun events history this → this.phase = .ended →
      HostEvent.merge this.messages = messages

/-- The stream does not depend on timing exactly if the host sends a terminating event last. -/
theorem timingIndependent_iff (events : List HostEvent) :
    TimingIndependent events ↔
      ∃ last, events.getLast? = some last ∧ last.terminates = true := by
  have hlast : (∃ last, events.getLast? = some last ∧ last.terminates = true) ↔
      events.getLast?.map HostEvent.terminates = some true := by simp
  rw [hlast]
  constructor
  · rintro ⟨messages, -, ⟨last, hmessages, hterminates⟩, hall⟩
    obtain ⟨history, run⟩ := EventStream.exists_run (.start : StreamRun events [] _)
    have heager := hall _ _ run rfl
    rw [← HostEvent.terminates_getLast?_merge, ← List.nil_append events, heager, hmessages,
      Option.map_some, hterminates]
  · intro hterminates
    have hmerged := (HostEvent.terminates_getLast?_merge events).trans hterminates
    refine ⟨HostEvent.merge events, .inl rfl, Option.map_eq_some_iff.mp hmerged, ?_⟩
    intro history this run hended
    rcases EventStream.merge_messages run hended with hsame | ⟨houtput, -⟩
    · exact hsame
    · rw [hterminates] at houtput
      cases houtput

/-- One piece of output, and the host drops its sender after the box has drained the channel. -/
theorem not_timingIndependent : ¬ ∀ events, TimingIndependent events := by
  intro hall
  obtain ⟨messages, -, ⟨last, hlast, hterminates⟩, hsame⟩ := hall [.terminalOutput [0x61]]
  obtain ⟨history, run⟩ :=
    EventStream.exists_run (.start : StreamRun [.terminalOutput [0x61]] [] _)
  rw [← hsame _ _ run rfl] at hlast
  cases hlast
  cases hterminates

end ManInTheBox.Host
