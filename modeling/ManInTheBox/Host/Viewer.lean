import Mathlib.Data.Finset.Insert
import ManInTheBox.Emulator.AlternateScreen
import ManInTheBox.Emulator.CursorReport
import ManInTheBox.Host.EventStream
import ManInTheBox.Host.Transcript

/-! # One output, three readers

The reader thread hands each chunk of the output of the child to three places: the
tracker that answers cursor requests, the channel to the box, and the transcript of the
policy. The box draws what comes through the channel and takes the input of the user at the
same time. All of this interleaves; what each place knows is a prefix or a suffix of the
one output.
-/

namespace ManInTheBox.Host

open Library Emulator

/-- The parser of control sequences, which takes its input in pieces. -/
structure Parser where
  State : Type
  new : State
  advance : State → List UInt8 → State × List Callback
  advance_nil : ∀ s, advance s [] = (s, [])
  advance_append : ∀ s bytes more, advance s (bytes ++ more) =
    ((advance (advance s bytes).1 more).1,
      (advance s bytes).2 ++ (advance (advance s bytes).1 more).2)

namespace Parser

variable (parser : Parser)

/-- The state of the parser, and the callbacks so far, after some output. -/
def after (bytes : List UInt8) : parser.State := (parser.advance parser.new bytes).1

def callbacks (bytes : List UInt8) : List Callback := (parser.advance parser.new bytes).2

@[simp] theorem after_nil : parser.after [] = parser.new := by rw [after, parser.advance_nil]

@[simp] theorem callbacks_nil : parser.callbacks [] = [] := by rw [callbacks, parser.advance_nil]

theorem after_append (bytes more : List UInt8) :
    parser.after (bytes ++ more) = (parser.advance (parser.after bytes) more).1 := by
  rw [after, parser.advance_append, after]

theorem callbacks_append (bytes more : List UInt8) :
    parser.callbacks (bytes ++ more) =
      parser.callbacks bytes ++ (parser.advance (parser.after bytes) more).2 := by
  rw [callbacks, parser.advance_append, callbacks, after]

end Parser

/-! ## The box -/

inductive InputEvent (κ : Type)
  | leftMousePressed
  | leftMouseReleased
  | keyPressed (key : κ)
  | keyReleased (key : κ)

inductive Message (κ ρ : Type)
  | hostEvent (event : HostEvent)
  | input (event : InputEvent κ)
  | appCursorMoved (position : ρ)
  | appCursorLeft
  | terminalHoverChanged (isHovered : Bool)

inductive AppTask
  | none
  | exit
  deriving DecidableEq

/-- The state of the box, with the keys and the points of its window. -/
structure App (parser : Parser) (κ ρ : Type) where
  terminal : Terminal
  parser : parser.State
  status : Option String
  appCursorPosition : Option ρ
  terminalHovered : Bool
  leftMouseDown : Bool
  pressedKeys : Finset κ

def TERMINAL_COLS : ℕ := 72

def TERMINAL_ROWS : ℕ := 27

namespace App

variable {parser : Parser} {κ ρ : Type} [DecidableEq κ] (width : UnicodeWidth)

def new : App parser κ ρ where
  terminal := Terminal.new TERMINAL_COLS TERMINAL_ROWS
  parser := parser.new
  status := none
  appCursorPosition := none
  terminalHovered := false
  leftMouseDown := false
  pressedKeys := ∅

def updateInput (this : App parser κ ρ) : InputEvent κ → App parser κ ρ
  | .leftMousePressed => { this with leftMouseDown := true }
  | .leftMouseReleased => { this with leftMouseDown := false }
  | .keyPressed key => { this with pressedKeys := insert key this.pressedKeys }
  | .keyReleased key => { this with pressedKeys := this.pressedKeys.erase key }

def update (this : App parser κ ρ) : Message κ ρ → Option (App parser κ ρ × AppTask)
  | .hostEvent (.terminalOutput data) => do
    let terminal ← this.terminal.feed width (parser.advance this.parser data).2
    some ({ this with terminal, parser := (parser.advance this.parser data).1 }, .none)
  | .hostEvent (.sessionEnded reason) =>
    some ({ this with status := some ("Session ended: " ++ reason) }, .exit)
  | .hostEvent .disconnected => some ({ this with status := some "Disconnected" }, .exit)
  | .input event => some (this.updateInput event, .none)
  | .appCursorMoved position => some ({ this with appCursorPosition := some position }, .none)
  | .appCursorLeft =>
    some ({ this with appCursorPosition := none, terminalHovered := false }, .none)
  | .terminalHoverChanged isHovered => some ({ this with terminalHovered := isHovered }, .none)

/-- Where the eye is drawn in place of the pointer, and whether it reacts. -/
def eye (this : App parser κ ρ) : Option (ρ × Bool) :=
  if this.terminalHovered then
    this.appCursorPosition.map fun position =>
      (position, this.leftMouseDown || decide (this.pressedKeys ≠ ∅))
  else none

end App

/-! ## The system -/

/-- The reader thread reads, has yet to send or to append a chunk, or has ended. -/
inductive ReaderPhase
  | reading
  | sending (chunk : List UInt8)
  | appending (chunk : List UInt8)
  | done
  deriving DecidableEq

structure Viewer (parser : Parser) (κ ρ : Type) where
  phase : ReaderPhase
  readerParser : parser.State
  tracker : PtyTerminalState
  replies : List Bytes
  transcript : TranscriptBuffer
  stream : EventStream
  handled : ℕ
  tasks : List AppTask
  app : App parser κ ρ

/-- The reader thread takes a chunk and answers what is asked in it; if a write fails, after some of
the answers, the thread ends. It sends the chunk, appends it to the transcript, or ends. The main
loop sends an event, all senders are dropped, the box polls its stream, is handed a message, or gets
some input. -/
inductive ViewerStep (κ ρ : Type)
  | read (chunk : List UInt8)
  | readFailing (chunk : List UInt8) (written : ℕ)
  | send
  | append
  | stop
  | hostEvent (event : HostEvent)
  | dropSenders
  | takeEvent
  | tryRecv
  | deliver
  | input (message : Message κ ρ)

namespace Viewer

variable {parser : Parser} {κ ρ : Type} [DecidableEq κ] (width : UnicodeWidth) (maxBytes : ℕ)

def initial : Viewer parser κ ρ where
  phase := .reading
  readerParser := parser.new
  tracker := PtyTerminalState.new 80 24
  replies := []
  transcript := .default
  stream := .start []
  handled := 0
  tasks := []
  app := .new

/-- What the reader thread does with a chunk before it sends it. -/
def feedTracker (this : Viewer parser κ ρ) (chunk : List UInt8) :
    parser.State × PtyTerminalState × List Bytes :=
  let (readerParser, callbacks) := parser.advance this.readerParser chunk
  let (tracker, responses) := this.tracker.feed callbacks
  (readerParser, tracker, responses)

def pushEvent (this : Viewer parser κ ρ) (event : HostEvent) : Viewer parser κ ρ :=
  { this with stream := { this.stream with channel := this.stream.channel ++ [event] } }

def step (this : Viewer parser κ ρ) : ViewerStep κ ρ → Option (Viewer parser κ ρ × Unit)
  | .read chunk =>
    if this.phase = .reading ∧ chunk ≠ [] ∧ chunk.length ≤ 4096 then
      let (readerParser, tracker, responses) := this.feedTracker chunk
      some ({ this with
        readerParser, tracker, replies := this.replies ++ responses, phase := .sending chunk }, ())
    else none
  | .readFailing chunk written =>
    let (readerParser, tracker, responses) := this.feedTracker chunk
    if this.phase = .reading ∧ chunk ≠ [] ∧ chunk.length ≤ 4096 ∧ written < responses.length then
      some ({ this with
        readerParser, tracker, replies := this.replies ++ responses.take written,
        phase := .done }, ())
    else none
  | .send =>
    match this.phase with
    | .sending chunk =>
      some ({ this.pushEvent (.terminalOutput chunk) with phase := .appending chunk }, ())
    | _ => none
  | .append =>
    match this.phase with
    | .appending chunk =>
      some ({ this with
        transcript := appendChunk this.transcript chunk maxBytes, phase := .reading }, ())
    | _ => none
  | .stop =>
    -- The output ends or cannot be read.
    if this.phase = .reading then some ({ this with phase := .done }, ()) else none
  | .hostEvent event =>
    if event.terminates = true ∧ this.stream.senderDropped = false then
      some (this.pushEvent event, ())
    else none
  | .dropSenders =>
    if this.phase = .done then
      (this.stream.step .dropSender).map fun next => ({ this with stream := next.1 }, ())
    else none
  | .takeEvent => (this.stream.step .takeEvent).map fun next => ({ this with stream := next.1 }, ())
  | .tryRecv => (this.stream.step .tryRecv).map fun next => ({ this with stream := next.1 }, ())
  | .deliver => do
    let event ← this.stream.messages[this.handled]?
    let (app, task) ← this.app.update width (.hostEvent event)
    some ({ this with app, tasks := this.tasks ++ [task], handled := this.handled + 1 }, ())
  | .input (.hostEvent _) => none
  | .input message => do
    let (app, task) ← this.app.update width message
    some ({ this with app, tasks := this.tasks ++ [task] }, ())

end Viewer

abbrev ViewerTransition (parser : Parser) (κ ρ : Type) :=
  Transition (Viewer parser κ ρ) (ViewerStep κ ρ) Unit

abbrev ViewerRun (parser : Parser) (κ ρ : Type) [DecidableEq κ] (width : UnicodeWidth)
    (maxBytes : ℕ) :=
  Run (@Viewer.step parser κ ρ _ width maxBytes) Viewer.initial

/-- The output that the reader thread has read and could hand on. The chunk at which an answer cannot
be written ends the thread and is not part of it. -/
def childOutput {parser : Parser} {κ ρ : Type} (history : List (ViewerTransition parser κ ρ)) :
    List UInt8 :=
  history.flatMap fun transition =>
    match transition.label with
    | .read chunk => chunk
    | _ => []

end ManInTheBox.Host
