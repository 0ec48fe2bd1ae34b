import ManInTheBox.Host.Viewer

/-! # What the readers of one output agree on

In every interleaving the box has drawn a prefix of the output, and the rest of it is on
its way, in order; the answers are those to the whole output that has been read; and the
transcript keeps the end of what has been appended. When everything has been handed on,
all of them have seen the same output.
-/

namespace ManInTheBox.Host

open Library Emulator

/-! ## The output in a list of events -/

def HostEvent.output : HostEvent → List UInt8
  | .terminalOutput data => data
  | .sessionEnded _ | .disconnected => []

def outputOf (events : List HostEvent) : List UInt8 := events.flatMap HostEvent.output

@[simp] theorem outputOf_nil : outputOf [] = [] := rfl

@[simp] theorem outputOf_cons (event : HostEvent) (events : List HostEvent) :
    outputOf (event :: events) = event.output ++ outputOf events := rfl

@[simp] theorem outputOf_append (events later : List HostEvent) :
    outputOf (events ++ later) = outputOf events ++ outputOf later :=
  List.flatMap_append

theorem HostEvent.output_of_terminates {event : HostEvent} (h : event.terminates = true) :
    event.output = [] := by
  cases event with
  | terminalOutput data => cases h
  | sessionEnded | disconnected => rfl

namespace EventStream

variable {this next : EventStream}

theorem outputOf_handle (this : EventStream) (event : HostEvent) :
    outputOf (this.handle event).inOrder =
      outputOf this.messages ++ event.output ++ outputOf this.channel ++ outputOf this.unsent := by
  rw [inOrder_handle]
  simp

/-- The box may join output, but loses, doubles or moves none of it. -/
theorem outputOf_step {label : StreamStep} (hstep : this.step label = some (next, ())) :
    outputOf next.inOrder = outputOf this.inOrder := by
  cases label with
  | send =>
    simp only [step] at hstep
    split at hstep
    · rename_i event unsent hunsent
      simp only [Option.some.injEq, Prod.mk.injEq, and_true] at hstep
      subst hstep
      simp [inOrder, held, hunsent]
    · cases hstep
  | dropSender =>
    simp only [step] at hstep
    split_ifs at hstep
    simp only [Option.some.injEq, Prod.mk.injEq, and_true] at hstep
    subst hstep
    rfl
  | takeEvent =>
    simp only [step] at hstep
    cases hphase : this.phase with
    | draining | ended => simp [hphase] at hstep
    | waiting pending =>
      cases pending with
      | some event =>
        simp only [hphase, Option.some.injEq, Prod.mk.injEq, and_true] at hstep
        subst hstep
        rw [outputOf_handle]
        simp [inOrder, held, hphase]
      | none =>
        cases hchannel : this.channel with
        | cons event channel =>
          simp only [hphase, hchannel, Option.some.injEq, Prod.mk.injEq, and_true] at hstep
          subst hstep
          rw [outputOf_handle]
          simp [inOrder, held, hphase, hchannel]
        | nil =>
          simp only [hphase, hchannel] at hstep
          split_ifs at hstep
          simp only [Option.some.injEq, Prod.mk.injEq, and_true] at hstep
          subst hstep
          simp [inOrder, held, hphase, hchannel]
  | tryRecv =>
    simp only [step] at hstep
    cases hphase : this.phase with
    | waiting | ended => simp [hphase] at hstep
    | draining data =>
      cases hchannel : this.channel with
      | cons event channel =>
        cases event with
        | terminalOutput nextData =>
          simp only [hphase, hchannel, Option.some.injEq, Prod.mk.injEq, and_true] at hstep
          subst hstep
          simp [inOrder, held, hphase, hchannel, HostEvent.output]
        | sessionEnded | disconnected =>
          simp only [hphase, hchannel, Option.some.injEq, Prod.mk.injEq, and_true] at hstep
          subst hstep
          simp [emit, inOrder, held, hphase, hchannel, HostEvent.output]
      | nil =>
        simp only [hphase, hchannel, Option.some.injEq, Prod.mk.injEq, and_true] at hstep
        subst hstep
        cases this.senderDropped with
        | false => simp [emit, inOrder, held, hphase, hchannel, HostEvent.output]
        | true => simp [emit, inOrder, held, hphase, hchannel, HostEvent.output]

/-- Messages are only added, and only the host sends. -/
theorem step_frame {label : StreamStep} (hlabel : label ≠ .send)
    (hstep : this.step label = some (next, ())) :
    this.messages <+: next.messages ∧ next.unsent = this.unsent := by
  have hhandle : ∀ (s : EventStream) (event : HostEvent),
      s.messages <+: (s.handle event).messages ∧ (s.handle event).unsent = s.unsent := by
    intro s event
    cases event with
    | terminalOutput data => exact ⟨List.prefix_refl _, rfl⟩
    | sessionEnded | disconnected => exact ⟨List.prefix_append _ _, rfl⟩
  cases label with
  | send => exact absurd rfl hlabel
  | dropSender =>
    simp only [step] at hstep
    split_ifs at hstep
    simp only [Option.some.injEq, Prod.mk.injEq, and_true] at hstep
    subst hstep
    exact ⟨List.prefix_refl _, rfl⟩
  | takeEvent =>
    simp only [step] at hstep
    split at hstep
    · simp only [Option.some.injEq, Prod.mk.injEq, and_true] at hstep
      exact hstep ▸ hhandle this _
    · split at hstep
      · rename_i event channel _
        simp only [Option.some.injEq, Prod.mk.injEq, and_true] at hstep
        exact hstep ▸ hhandle { this with channel } event
      · split_ifs at hstep
        simp only [Option.some.injEq, Prod.mk.injEq, and_true] at hstep
        subst hstep
        exact ⟨List.prefix_refl _, rfl⟩
    · cases hstep
    · cases hstep
  | tryRecv =>
    simp only [step] at hstep
    split at hstep
    · split at hstep
      all_goals
        simp only [Option.some.injEq, Prod.mk.injEq, and_true] at hstep
        subst hstep
      · exact ⟨List.prefix_refl _, rfl⟩
      · exact ⟨List.prefix_append _ _, rfl⟩
      · exact ⟨List.prefix_append _ _, rfl⟩
    · cases hstep
    · cases hstep

end EventStream

/-! ## The reader thread -/

/-- What the reader thread has not sent yet of what it has read. -/
def ReaderPhase.unsent : ReaderPhase → List UInt8
  | .sending chunk => chunk
  | .reading | .appending _ | .done => []

/-- What it has not appended yet. -/
def ReaderPhase.unappended : ReaderPhase → List UInt8
  | .sending chunk | .appending chunk => chunk
  | .reading | .done => []

variable {parser : Parser} {κ ρ : Type} {width : UnicodeWidth} {maxBytes : ℕ}

/-- The answers to all cursor requests in some output. -/
def Parser.answers (parser : Parser) (output : List UInt8) : List Bytes :=
  (PtyTerminalState.new 80 24).answers (parser.callbacks output)

/-- The answers and the transcript of a reader that has read some output. -/
structure ReaderOk (maxBytes : ℕ) (output : List UInt8) (s : Viewer parser κ ρ) : Prop where
  answered : parser.answers output <+: s.replies
  tracking : s.phase ≠ .done → s.readerParser = parser.after output ∧
    s.tracker = (tracked (parser.callbacks output)).withPending [] ∧
    s.replies = parser.answers output
  transcript : ∃ appended, output = appended ++ s.phase.unappended ∧
    Retains maxBytes appended s.transcript

/-- A chunk more, for the tracker. -/
theorem feedTracker_eq {output : List UInt8} {s : Viewer parser κ ρ}
    (hparser : s.readerParser = parser.after output)
    (htracker : s.tracker = (tracked (parser.callbacks output)).withPending [])
    (chunk : List UInt8) :
    ∃ responses, s.feedTracker chunk = (parser.after (output ++ chunk),
        (tracked (parser.callbacks (output ++ chunk))).withPending [], responses) ∧
      parser.answers (output ++ chunk) = parser.answers output ++ responses := by
  refine ⟨(tracked (parser.callbacks output)).answers
    (parser.advance (parser.after output) chunk).2, ?_, ?_⟩
  · have hfold := (tracked (parser.callbacks output)).foldl_withPending []
      (parser.advance (parser.after output) chunk).2
    have hmore : tracked (parser.callbacks (output ++ chunk)) =
        (parser.advance (parser.after output) chunk).2.foldl PtyTerminalState.perform
          (tracked (parser.callbacks output)) := by
      rw [parser.callbacks_append, tracked, tracked, List.foldl_append]
    rw [Viewer.feedTracker, hparser, htracker]
    simp only [PtyTerminalState.feed]
    rw [hfold, parser.after_append, hmore]
    rfl
  · rw [Parser.answers, Parser.answers, parser.callbacks_append, PtyTerminalState.answers_append]
    rfl

/-- What a step adds to the output. -/
def ViewerStep.output : ViewerStep κ ρ → List UInt8
  | .read chunk => chunk
  | .readFailing .. | .send | .append | .stop | .hostEvent _ | .dropSenders | .takeEvent | .tryRecv
  | .deliver | .input _ => []

section Steps

variable [DecidableEq κ] {output : List UInt8} {s t : Viewer parser κ ρ}

theorem ReaderOk.read (h : ReaderOk maxBytes output s) {chunk : List UInt8}
    (taken : s.step width maxBytes (.read chunk) = some (t, ())) :
    ReaderOk maxBytes (output ++ chunk) t := by
  simp only [Viewer.step] at taken
  split_ifs at taken with hready
  simp only [Option.some.injEq, Prod.mk.injEq, and_true] at taken
  subst taken
  obtain ⟨hparser, htracker, hreplies⟩ := h.tracking (by rw [hready.1]; simp)
  obtain ⟨responses, hfeed, hanswers⟩ := feedTracker_eq hparser htracker chunk
  obtain ⟨appended, houtput, hretains⟩ := h.transcript
  rw [hready.1, ReaderPhase.unappended, List.append_nil] at houtput
  rw [hfeed]
  refine ⟨?_, ?_, ⟨appended, by rw [houtput, ReaderPhase.unappended], hretains⟩⟩
  · rw [hanswers, hreplies]
  · intro _
    exact ⟨rfl, rfl, by rw [hanswers, hreplies]⟩

theorem ReaderOk.readFailing (h : ReaderOk maxBytes output s) {chunk : List UInt8} {written : ℕ}
    (taken : s.step width maxBytes (.readFailing chunk written) = some (t, ())) :
    ReaderOk maxBytes output t := by
  simp only [Viewer.step] at taken
  split_ifs at taken with hready
  simp only [Option.some.injEq, Prod.mk.injEq, and_true] at taken
  subst taken
  obtain ⟨appended, houtput, hretains⟩ := h.transcript
  rw [hready.1, ReaderPhase.unappended] at houtput
  refine ⟨h.answered.trans (List.prefix_append _ _), fun hnot => absurd rfl hnot,
    ⟨appended, houtput, hretains⟩⟩

theorem ReaderOk.append (h : ReaderOk maxBytes output s) (hsize : output.length < 2 ^ 64)
    (taken : s.step width maxBytes .append = some (t, ())) : ReaderOk maxBytes output t := by
  simp only [Viewer.step] at taken
  split at taken
  · rename_i chunk hphase
    simp only [Option.some.injEq, Prod.mk.injEq, and_true] at taken
    subst taken
    obtain ⟨appended, houtput, hretains⟩ := h.transcript
    rw [hphase, ReaderPhase.unappended] at houtput
    refine ⟨h.answered, fun _ => h.tracking (by rw [hphase]; simp), ⟨output, ?_, ?_⟩⟩
    · rw [ReaderPhase.unappended, List.append_nil]
    · rw [houtput] at hsize ⊢
      exact hretains.append hsize
  · cases taken

omit [DecidableEq κ] in
/-- All other steps leave the reader thread alone, or only send or end it. -/
theorem ReaderOk.frame (h : ReaderOk maxBytes output s)
    (hparser : t.readerParser = s.readerParser) (htracker : t.tracker = s.tracker)
    (hreplies : t.replies = s.replies) (htranscript : t.transcript = s.transcript)
    (hphase : t.phase ≠ .done → s.phase ≠ .done)
    (hunappended : t.phase.unappended = s.phase.unappended) : ReaderOk maxBytes output t := by
  constructor
  · rw [hreplies]
    exact h.answered
  · rw [hparser, htracker, hreplies]
    exact fun hnot => h.tracking (hphase hnot)
  · rw [htranscript, hunappended]
    exact h.transcript

theorem ReaderOk.step (h : ReaderOk maxBytes output s) {label : ViewerStep κ ρ} {u : Unit}
    (hsize : output.length < 2 ^ 64) (taken : s.step width maxBytes label = some (t, u)) :
    ReaderOk maxBytes (output ++ label.output) t := by
  cases label with
  | read chunk => exact h.read taken
  | readFailing chunk written =>
    rw [ViewerStep.output, List.append_nil]
    exact h.readFailing taken
  | append =>
    rw [ViewerStep.output, List.append_nil]
    exact h.append hsize taken
  | send =>
    rw [ViewerStep.output, List.append_nil]
    simp only [Viewer.step] at taken
    split at taken
    · rename_i chunk hphase
      simp only [Option.some.injEq, Prod.mk.injEq, and_true] at taken
      subst taken
      refine h.frame rfl rfl rfl rfl ?_ ?_
      · rw [hphase]
        simp
      · rw [hphase]
        rfl
    · cases taken
  | stop =>
    rw [ViewerStep.output, List.append_nil]
    simp only [Viewer.step] at taken
    split_ifs at taken with hphase
    simp only [Option.some.injEq, Prod.mk.injEq, and_true] at taken
    subst taken
    refine h.frame rfl rfl rfl rfl ?_ ?_
    · exact fun hnot => absurd rfl hnot
    · rw [hphase]
      rfl
  | hostEvent event =>
    rw [ViewerStep.output, List.append_nil]
    simp only [Viewer.step] at taken
    split_ifs at taken
    simp only [Option.some.injEq, Prod.mk.injEq, and_true] at taken
    subst taken
    exact h.frame rfl rfl rfl rfl id rfl
  | dropSenders =>
    rw [ViewerStep.output, List.append_nil]
    simp only [Viewer.step] at taken
    split_ifs at taken
    obtain ⟨next, -, heq⟩ := Option.map_eq_some_iff.mp taken
    obtain rfl := (Prod.mk.inj heq).1
    exact h.frame rfl rfl rfl rfl id rfl
  | takeEvent | tryRecv =>
    rw [ViewerStep.output, List.append_nil]
    simp only [Viewer.step] at taken
    obtain ⟨next, -, heq⟩ := Option.map_eq_some_iff.mp taken
    obtain rfl := (Prod.mk.inj heq).1
    exact h.frame rfl rfl rfl rfl id rfl
  | deliver =>
    rw [ViewerStep.output, List.append_nil]
    simp only [Viewer.step, Option.bind_eq_bind, Option.bind_eq_some_iff] at taken
    obtain ⟨event, -, ⟨app, task⟩, -, heq⟩ := taken
    simp only [Option.some.injEq, Prod.mk.injEq, and_true] at heq
    subst heq
    exact h.frame rfl rfl rfl rfl id rfl
  | input message =>
    rw [ViewerStep.output, List.append_nil]
    cases message with
    | hostEvent event => cases taken
    | input | appCursorMoved | appCursorLeft | terminalHoverChanged =>
      simp only [Viewer.step, Option.bind_eq_bind, Option.bind_eq_some_iff] at taken
      obtain ⟨⟨app, task⟩, -, heq⟩ := taken
      simp only [Option.some.injEq, Prod.mk.injEq, and_true] at heq
      subst heq
      exact h.frame rfl rfl rfl rfl id rfl

end Steps

/-! ## The box -/

/-- The output that the box has drawn. -/
def Viewer.drawn (s : Viewer parser κ ρ) : List UInt8 := outputOf (s.stream.messages.take s.handled)

/-- The output that has been sent to the box and is not drawn yet. -/
def Viewer.onTheWay (s : Viewer parser κ ρ) : List UInt8 :=
  outputOf (s.stream.messages.drop s.handled ++ s.stream.held ++ s.stream.channel)

/-- The line that the box shows for an event. -/
def HostEvent.status : HostEvent → Option String
  | .terminalOutput _ => none
  | .sessionEnded reason => some ("Session ended: " ++ reason)
  | .disconnected => some "Disconnected"

/-- The box draws the events in order, and the status of the last that has one. -/
structure BoxOk (width : UnicodeWidth) (output : List UInt8) (s : Viewer parser κ ρ) : Prop where
  unsent : s.stream.unsent = []
  flow : outputOf s.stream.inOrder ++ s.phase.unsent = output
  handled_le : s.handled ≤ s.stream.messages.length
  parser_eq : s.app.parser = parser.after s.drawn
  terminal : (Terminal.new TERMINAL_COLS TERMINAL_ROWS).feed width (parser.callbacks s.drawn) =
    some s.app.terminal
  status : s.app.status =
    ((s.stream.messages.take s.handled).filterMap HostEvent.status).getLast?
  exits : AppTask.exit ∈ s.tasks ↔ s.app.status ≠ none

section Steps

variable [DecidableEq κ] {output : List UInt8} {s t : Viewer parser κ ρ}

omit [DecidableEq κ] in
/-- A step that leaves the box and its messages alone. -/
theorem BoxOk.frame (h : BoxOk width output s) {output' : List UInt8}
    (hmessages : t.stream.messages = s.stream.messages) (happ : t.app = s.app)
    (hhandled : t.handled = s.handled) (htasks : t.tasks = s.tasks)
    (hunsent : t.stream.unsent = s.stream.unsent)
    (hflow : outputOf t.stream.inOrder ++ t.phase.unsent = output') : BoxOk width output' t := by
  have hdrawn : t.drawn = s.drawn := by rw [Viewer.drawn, Viewer.drawn, hmessages, hhandled]
  constructor
  · rw [hunsent, h.unsent]
  · exact hflow
  · rw [hmessages, hhandled]
    exact h.handled_le
  · rw [happ, hdrawn]
    exact h.parser_eq
  · rw [happ, hdrawn]
    exact h.terminal
  · rw [happ, hmessages, hhandled]
    exact h.status
  · rw [happ, htasks]
    exact h.exits

omit [DecidableEq κ] in
/-- A step of the stream adds messages at most. -/
theorem BoxOk.poll (h : BoxOk width output s) {label : StreamStep} {next : EventStream}
    (hlabel : label ≠ .send) (hstep : s.stream.step label = some (next, ())) :
    BoxOk width output { s with stream := next } := by
  obtain ⟨⟨more, hmore⟩, hunsent⟩ := EventStream.step_frame hlabel hstep
  have htake : next.messages.take s.handled = s.stream.messages.take s.handled := by
    rw [← hmore, List.take_append_of_le_length h.handled_le]
  have hdrawn : Viewer.drawn { s with stream := next } = s.drawn := congrArg outputOf htake
  constructor
  · exact hunsent.trans h.unsent
  · have hsame := EventStream.outputOf_step hstep
    rw [hsame]
    exact h.flow
  · rw [← hmore, List.length_append]
    exact h.handled_le.trans (Nat.le_add_right _ _)
  · rw [hdrawn]
    exact h.parser_eq
  · rw [hdrawn]
    exact h.terminal
  · rw [htake]
    exact h.status
  · exact h.exits

/-- What the box makes of one event. -/
theorem App.update_hostEvent {app next : App parser κ ρ} {event : HostEvent} {task : AppTask}
    (h : app.update width (.hostEvent event) = some (next, task)) :
    next.parser = (parser.advance app.parser event.output).1 ∧
      app.terminal.feed width (parser.advance app.parser event.output).2 = some next.terminal ∧
      next.status = event.status.or app.status ∧ (task = .exit ↔ event.status ≠ none) := by
  cases event with
  | terminalOutput data =>
    simp only [App.update, Option.bind_eq_bind, Option.bind_eq_some_iff] at h
    obtain ⟨terminal, hfeed, heq⟩ := h
    simp only [Option.some.injEq, Prod.mk.injEq] at heq
    obtain ⟨rfl, rfl⟩ := heq
    exact ⟨rfl, hfeed, rfl, by simp [HostEvent.status]⟩
  | sessionEnded | disconnected =>
    simp only [App.update, Option.some.injEq, Prod.mk.injEq] at h
    obtain ⟨rfl, rfl⟩ := h
    simp [HostEvent.output, HostEvent.status, parser.advance_nil, Terminal.feed]

theorem BoxOk.deliver (h : BoxOk width output s)
    (taken : s.step width maxBytes .deliver = some (t, ())) : BoxOk width output t := by
  simp only [Viewer.step, Option.bind_eq_bind, Option.bind_eq_some_iff] at taken
  obtain ⟨event, hevent, ⟨app, task⟩, hupdate, heq⟩ := taken
  simp only [Option.some.injEq, Prod.mk.injEq, and_true] at heq
  subst heq
  obtain ⟨hparser, hfeed, hstatus, htask⟩ := App.update_hostEvent hupdate
  have hlt := (List.getElem?_eq_some_iff.mp hevent).1
  have htake : s.stream.messages.take (s.handled + 1) =
      s.stream.messages.take s.handled ++ [event] := by
    rw [List.take_add_one, hevent, Option.toList_some]
  have hdrawn : outputOf (s.stream.messages.take (s.handled + 1)) = s.drawn ++ event.output := by
    rw [htake, outputOf_append, Viewer.drawn]
    simp
  constructor
  · exact h.unsent
  · exact h.flow
  · exact hlt
  · rw [Viewer.drawn, hdrawn, parser.after_append, ← h.parser_eq, hparser]
  · rw [Viewer.drawn, hdrawn, parser.callbacks_append, Terminal.feed_append, h.terminal,
      Option.bind_some, ← h.parser_eq, hfeed]
  · rw [htake, List.filterMap_append, List.getLast?_append, hstatus, h.status]
    cases event <;> rfl
  · have hexits := h.exits
    rw [List.mem_append, hexits, List.mem_singleton, hstatus, eq_comm, htask]
    cases event.status <;> simp

theorem BoxOk.input (h : BoxOk width output s) {message : Message κ ρ}
    (taken : s.step width maxBytes (.input message) = some (t, ())) : BoxOk width output t := by
  have hsame : ∀ app : App parser κ ρ, app.parser = s.app.parser → app.terminal = s.app.terminal →
      app.status = s.app.status →
      BoxOk width output { s with app := app, tasks := s.tasks ++ [.none] } := by
    intro app hparser hterminal hstatus
    refine ⟨h.unsent, h.flow, h.handled_le, hparser.trans h.parser_eq,
      h.terminal.trans (congrArg some hterminal.symm), hstatus.trans h.status, ?_⟩
    have hexits := h.exits
    simp only [List.mem_append, List.mem_singleton, reduceCtorEq, or_false, hstatus]
    exact hexits
  cases message with
  | hostEvent event => cases taken
  | input event =>
    simp only [Viewer.step, App.update, Option.bind_eq_bind, Option.bind_some, Option.some.injEq,
      Prod.mk.injEq, and_true] at taken
    subst taken
    apply hsame
    all_goals cases event <;> rfl
  | appCursorMoved | appCursorLeft | terminalHoverChanged =>
    simp only [Viewer.step, App.update, Option.bind_eq_bind, Option.bind_some, Option.some.injEq,
      Prod.mk.injEq, and_true] at taken
    subst taken
    exact hsame _ rfl rfl rfl

theorem BoxOk.step (h : BoxOk width output s) {label : ViewerStep κ ρ} {u : Unit}
    (taken : s.step width maxBytes label = some (t, u)) :
    BoxOk width (output ++ label.output) t := by
  have hpush : ∀ event : HostEvent, outputOf (s.pushEvent event).stream.inOrder =
      outputOf s.stream.inOrder ++ event.output := by
    intro event
    have hmessages : (s.pushEvent event).stream.messages = s.stream.messages := rfl
    have hheld : (s.pushEvent event).stream.held = s.stream.held := rfl
    have hchannel : (s.pushEvent event).stream.channel = s.stream.channel ++ [event] := rfl
    have hunsent : (s.pushEvent event).stream.unsent = [] := h.unsent
    rw [EventStream.inOrder, EventStream.inOrder, hmessages, hheld, hchannel, hunsent, h.unsent]
    simp
  have hflow := h.flow
  cases label with
  | read chunk =>
    simp only [Viewer.step] at taken
    split_ifs at taken with hready
    simp only [Option.some.injEq, Prod.mk.injEq, and_true] at taken
    subst taken
    rw [hready.1, ReaderPhase.unsent, List.append_nil] at hflow
    exact h.frame rfl rfl rfl rfl rfl (by rw [← hflow]; rfl)
  | readFailing chunk written =>
    rw [ViewerStep.output, List.append_nil]
    simp only [Viewer.step] at taken
    split_ifs at taken with hready
    simp only [Option.some.injEq, Prod.mk.injEq, and_true] at taken
    subst taken
    rw [hready.1] at hflow
    exact h.frame rfl rfl rfl rfl rfl hflow
  | send =>
    rw [ViewerStep.output, List.append_nil]
    simp only [Viewer.step] at taken
    split at taken
    · rename_i chunk hphase
      simp only [Option.some.injEq, Prod.mk.injEq, and_true] at taken
      subst taken
      rw [hphase] at hflow
      refine h.frame rfl rfl rfl rfl rfl ?_
      rw [hpush, ReaderPhase.unsent, List.append_nil]
      exact hflow
    · cases taken
  | append =>
    rw [ViewerStep.output, List.append_nil]
    simp only [Viewer.step] at taken
    split at taken
    · rename_i chunk hphase
      simp only [Option.some.injEq, Prod.mk.injEq, and_true] at taken
      subst taken
      rw [hphase] at hflow
      exact h.frame rfl rfl rfl rfl rfl hflow
    · cases taken
  | stop =>
    rw [ViewerStep.output, List.append_nil]
    simp only [Viewer.step] at taken
    split_ifs at taken with hphase
    simp only [Option.some.injEq, Prod.mk.injEq, and_true] at taken
    subst taken
    rw [hphase] at hflow
    exact h.frame rfl rfl rfl rfl rfl hflow
  | hostEvent event =>
    rw [ViewerStep.output, List.append_nil]
    simp only [Viewer.step] at taken
    split_ifs at taken with hevent
    simp only [Option.some.injEq, Prod.mk.injEq, and_true] at taken
    subst taken
    refine h.frame rfl rfl rfl rfl rfl ?_
    rw [hpush, HostEvent.output_of_terminates hevent.1, List.append_nil]
    exact hflow
  | dropSenders =>
    rw [ViewerStep.output, List.append_nil]
    simp only [Viewer.step] at taken
    split_ifs at taken
    obtain ⟨⟨next, _⟩, hnext, heq⟩ := Option.map_eq_some_iff.mp taken
    obtain rfl := (Prod.mk.inj heq).1
    exact h.poll (by simp) hnext
  | takeEvent | tryRecv =>
    rw [ViewerStep.output, List.append_nil]
    simp only [Viewer.step] at taken
    obtain ⟨⟨next, _⟩, hnext, heq⟩ := Option.map_eq_some_iff.mp taken
    obtain rfl := (Prod.mk.inj heq).1
    exact h.poll (by simp) hnext
  | deliver =>
    rw [ViewerStep.output, List.append_nil]
    exact h.deliver taken
  | input message =>
    rw [ViewerStep.output, List.append_nil]
    exact h.input taken

end Steps

/-! ## Every run -/

section Runs

variable {history : List (ViewerTransition parser κ ρ)} {s : Viewer parser κ ρ}

theorem childOutput_concat (history : List (ViewerTransition parser κ ρ))
    (transition : ViewerTransition parser κ ρ) :
    childOutput (history ++ [transition]) = childOutput history ++ transition.label.output := by
  rw [childOutput, List.flatMap_append, List.flatMap_singleton, ← childOutput]
  cases transition.label <;> rfl

theorem boxOk_initial (width : UnicodeWidth) :
    BoxOk width [] (Viewer.initial : Viewer parser κ ρ) where
  unsent := rfl
  flow := rfl
  handled_le := le_rfl
  parser_eq := (parser.after_nil).symm
  terminal := by
    have hcallbacks : parser.callbacks (Viewer.initial : Viewer parser κ ρ).drawn = [] :=
      parser.callbacks_nil
    rw [hcallbacks]
    rfl
  status := rfl
  exits := by simp [Viewer.initial, App.new]

theorem readerOk_initial : ReaderOk maxBytes [] (Viewer.initial : Viewer parser κ ρ) where
  answered := by
    rw [Parser.answers, parser.callbacks_nil]
    exact List.prefix_refl _
  tracking _ := by
    rw [Parser.answers, parser.callbacks_nil, parser.after_nil]
    exact ⟨rfl, rfl, rfl⟩
  transcript := ⟨[], rfl, (Nat.zero_sub _).symm, rfl⟩

variable [DecidableEq κ]

theorem boxOk_of_run (run : ViewerRun parser κ ρ width maxBytes history s) :
    BoxOk width (childOutput history) s := by
  apply run.historyInvariant fun history s => BoxOk width (childOutput history) s
  · exact boxOk_initial width
  · intro history s label t u _ h taken
    rw [childOutput_concat]
    exact h.step taken

theorem readerOk_of_run (run : ViewerRun parser κ ρ width maxBytes history s)
    (hsize : (childOutput history).length < 2 ^ 64) :
    ReaderOk maxBytes (childOutput history) s := by
  revert hsize
  apply run.historyInvariant fun history s =>
    (childOutput history).length < 2 ^ 64 → ReaderOk maxBytes (childOutput history) s
  · exact fun _ => readerOk_initial
  · intro history s label t u _ h taken hsize
    rw [childOutput_concat] at hsize ⊢
    rw [List.length_append] at hsize
    exact (h (by omega)).step (by omega) taken

/-- The box can always draw the next message. -/
theorem BoxOk.deliver_enabled (hspace : width ' ' = some 1) {output : List UInt8}
    (h : BoxOk width output s) (hnext : s.handled < s.stream.messages.length) :
    ∃ t, s.step width maxBytes .deliver = some (t, ()) := by
  have hevent : s.stream.messages[s.handled]? = some s.stream.messages[s.handled] :=
    List.getElem?_eq_getElem hnext
  cases hmessage : s.stream.messages[s.handled] with
  | terminalOutput data =>
    obtain ⟨terminal, hfeed, -⟩ := screen_wellFormed width hspace TERMINAL_COLS TERMINAL_ROWS
      (by decide) (by decide) (parser.callbacks s.drawn ++ (parser.advance s.app.parser data).2)
    rw [Terminal.feed_append, h.terminal, Option.bind_some] at hfeed
    rw [hmessage] at hevent
    simp [Viewer.step, App.update, hevent, hfeed]
  | sessionEnded | disconnected =>
    rw [hmessage] at hevent
    simp [Viewer.step, App.update, hevent]

/-- What the readers of the output know of it. -/
structure Consumed (width : UnicodeWidth) (maxBytes : ℕ) (output : List UInt8)
    (s : Viewer parser κ ρ) : Prop where
  flow : s.drawn ++ (s.onTheWay ++ s.phase.unsent) = output
  screen : (Terminal.new TERMINAL_COLS TERMINAL_ROWS).feed width (parser.callbacks s.drawn) =
    some s.app.terminal
  status : s.app.status =
    ((s.stream.messages.take s.handled).filterMap HostEvent.status).getLast?
  exits : AppTask.exit ∈ s.tasks ↔ s.app.status ≠ none
  progress : s.handled < s.stream.messages.length →
    ∃ t, s.step width maxBytes .deliver = some (t, ())
  answered : parser.answers output <+: s.replies
  answered_all : s.phase ≠ .done → s.replies = parser.answers output
  transcript : ∃ appended, output = appended ++ s.phase.unappended ∧
    s.transcript.bytes = appended.drop (appended.length - maxBytes)

/-- For every parser and every interleaving of the reader thread, the main loop, the box and its
user, and the output that the thread could hand on, of fewer than `2 ^ 64` bytes: the screen is that
of a terminal that was fed the first part of it as a whole, the rest is on its way in order, and no
input of the user matters for it. Once a run is through, screen and transcript show the same
output. -/
theorem consumers_agree (hspace : width ' ' = some 1)
    (run : ViewerRun parser κ ρ width maxBytes history s)
    (hsize : (childOutput history).length < 2 ^ 64) :
    Consumed width maxBytes (childOutput history) s ∧
    (s.onTheWay = [] → s.phase.unappended = [] →
      (Terminal.new TERMINAL_COLS TERMINAL_ROWS).feed width (parser.callbacks (childOutput history)) =
        some s.app.terminal ∧
      s.transcript.bytes =
        (childOutput history).drop ((childOutput history).length - maxBytes)) := by
  have hbox := boxOk_of_run run
  have hreader := readerOk_of_run run hsize
  have hflow : s.drawn ++ (s.onTheWay ++ s.phase.unsent) = childOutput history := by
    have hsplit : outputOf s.stream.messages =
        s.drawn ++ outputOf (s.stream.messages.drop s.handled) := by
      rw [Viewer.drawn, ← outputOf_append, List.take_append_drop]
    rw [← hbox.flow, EventStream.inOrder, hbox.unsent]
    simp [Viewer.onTheWay, hsplit]
  obtain ⟨appended, houtput, hretains⟩ := hreader.transcript
  have htranscript : s.transcript.bytes = appended.drop (appended.length - maxBytes) := by
    rw [hretains.bytes, hretains.start]
  constructor
  · constructor
    · exact hflow
    · exact hbox.terminal
    · exact hbox.status
    · exact hbox.exits
    · exact hbox.deliver_enabled hspace
    · exact hreader.answered
    · exact fun hnot => (hreader.tracking hnot).2.2
    · exact ⟨appended, houtput, htranscript⟩
  · intro hway happended
    have hunsent : s.phase.unsent = [] := by
      cases hphase : s.phase with
      | sending chunk =>
        rw [hphase] at happended
        exact happended
      | reading | appending | done => rfl
    rw [hway, hunsent, List.append_nil, List.append_nil] at hflow
    rw [happended, List.append_nil] at houtput
    refine ⟨?_, ?_⟩
    · rw [← hflow]
      exact hbox.terminal
    · rw [houtput]
      exact htranscript

end Runs

/-- A parser of plain text. -/
def plainParser : Parser where
  State := Unit
  new := ()
  advance _ bytes :=
    ((), bytes.map fun byte => if byte < 0x20 then .execute byte else .print (Char.ofNat byte.toNat))
  advance_nil _ := rfl
  advance_append _ bytes more := by rw [List.map_append]

/-- Two chunks that the box joins, and a key in between. -/
def plainSteps : List (ViewerStep ℕ ℕ) :=
  [.read [0x68], .send, .takeEvent, .append, .read [0x69], .send, .input (.input (.keyPressed 0)),
    .tryRecv, .tryRecv, .append, .deliver]

theorem consumers_agree_plain :
    (Terminal.new TERMINAL_COLS TERMINAL_ROWS).feed exampleWidth
        (plainParser.callbacks [0x68, 0x69]) =
      some (reached (@Viewer.step plainParser ℕ ℕ _ exampleWidth 1) .initial
        plainSteps).app.terminal := by
  have run : ViewerRun plainParser ℕ ℕ exampleWidth 1 (trace _ _ plainSteps)
      (reached _ _ plainSteps) := Run.of_labels rfl
  exact ((consumers_agree (by decide) run (by decide)).2 rfl rfl).1

end ManInTheBox.Host
