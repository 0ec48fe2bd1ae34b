import ManInTheBox.Host.EventStream
import ManInTheBox.Host.PtyInput

/-! # The session of the host

The main loop asks its agent, the shutdown flag and the child at each tick, then polls the
policy and writes the inputs it is given. The window, the agent and the reader thread go
on at any moment in between; once the loop is left, the child is killed and the reader
thread and the agent are awaited before the box is told that it is disconnected.
-/

namespace ManInTheBox.Host

open Library Emulator

inductive HostError
  | agent (message : String)
  | policy (message : String)
  /-- An error of the system, the component runtime or a lock. -/
  | other (message : String)
  deriving DecidableEq

abbrev HostResult := Except HostError Unit

inductive Action
  | perturb (inputs : List Input)
  | wait

/-- What comes of `policy.poll`; a trap of the component is no answer of the policy. -/
inductive PollResult
  | action (action : Action)
  | error (message : String)
  | trap (message : String)

/-- Where the main loop is; after `stopping` it has been left. -/
inductive LoopPhase
  | waiting
  | checkingAgent
  | checkingShutdown
  | checkingChild
  | polling
  | writing (todo : List Bytes)
  | stopping
  | terminating
  | awaitingReader
  | awaitingAgent (result : HostResult)
  | disconnecting (result : HostResult)
  | finished (result : HostResult)

inductive ReaderThread
  | running
  | ended (result : HostResult)

/-- The threads of a session with what they share. -/
structure HostSession where
  phase : LoopPhase
  shutdown : Bool
  fatal : List String
  agentRunning : Bool
  reader : ReaderThread
  childAlive : Bool
  requests : List String
  written : List Bytes
  eventSender : Bool
  events : List HostEvent

/-- The steps of the main loop, with what the system answers, and then those of the others: the child
exits, the reader thread hands a chunk on or ends, the agent fails or ends, a zookeeper asks to
terminate, in two steps, and the window is closed. -/
inductive SessionStep
  | tick
  | checkAgent
  | checkShutdown
  | checkChild (error : Option String)
  | pollReturns (result : PollResult)
  | writePayload
  | writeFails (count : ℕ) (message : String)
  | stop
  | terminate (error : Option String)
  | joinReader
  | joinAgent
  | disconnect
  | childExits
  | output (chunk : List UInt8)
  | readerEnds (result : HostResult)
  | agentFails (message : String)
  | agentEnds
  | requestTerminate (zookeeperId : String)
  | announceTerminate
  | closeWindow

namespace HostSession

/-- A session with or without a box and an agent. -/
def start (eventSender agentRunning : Bool) : HostSession where
  phase := .waiting
  shutdown := false
  fatal := []
  agentRunning := agentRunning
  reader := .running
  childAlive := true
  requests := []
  written := []
  eventSender := eventSender
  events := []

/-- `if let Some(tx) = &event_sender { let _ = tx.send(event); }`. -/
def emit (this : HostSession) (event : HostEvent) : HostSession :=
  if this.eventSender then { this with events := this.events ++ [event] } else this

def goTo (this : HostSession) (phase : LoopPhase) : HostSession := { this with phase }

/-- What the loop makes of the answer of the policy. -/
def handle (this : HostSession) : PollResult → HostSession
  | .action (.perturb inputs) => this.goTo (.writing (payloadsOf inputs))
  | .action .wait => this.goTo .waiting
  | .error message =>
    (this.emit (.sessionEnded ("policy error: " ++ message))).goTo
      (.finished (.error (.policy message)))
  | .trap message => this.goTo (.finished (.error (.other message)))

def step (this : HostSession) : SessionStep → Option (HostSession × Unit)
  | .tick =>
    match this.phase with
    | .waiting => some (this.goTo .checkingAgent, ())
    | _ => none
  | .checkAgent =>
    match this.phase, this.fatal with
    | .checkingAgent, message :: fatal =>
      some ({ this with
        fatal, shutdown := true, phase := .finished (.error (.agent message)) }, ())
    | .checkingAgent, [] => some (this.goTo .checkingShutdown, ())
    | _, _ => none
  | .checkShutdown =>
    match this.phase with
    | .checkingShutdown =>
      if this.shutdown then
        some ((this.emit (.sessionEnded "shutdown requested by application")).goTo .stopping, ())
      else some (this.goTo .checkingChild, ())
    | _ => none
  | .checkChild error =>
    match this.phase, error with
    | .checkingChild, some message => some (this.goTo (.finished (.error (.other message))), ())
    | .checkingChild, none =>
      if this.childAlive then some (this.goTo .polling, ())
      else some ((this.emit (.sessionEnded "child process exited")).goTo .stopping, ())
    | _, _ => none
  | .pollReturns result =>
    match this.phase with
    | .polling => some (this.handle result, ())
    | _ => none
  | .writePayload =>
    match this.phase with
    | .writing [] => some (this.goTo .waiting, ())
    | .writing (payload :: todo) =>
      some ({ this with written := this.written ++ [payload], phase := .writing todo }, ())
    | _ => none
  | .writeFails count message =>
    match this.phase with
    | .writing (payload :: _) =>
      -- `write_all` may have written a part.
      some ({ this with
        written := this.written ++ [payload.take count]
        phase := .finished (.error (.other message)) }, ())
    | _ => none
  | .stop =>
    match this.phase with
    | .stopping => some ({ this with shutdown := true, phase := .terminating }, ())
    | _ => none
  | .terminate error =>
    match this.phase, error with
    | .terminating, some message => some (this.goTo (.awaitingAgent (.error (.other message))), ())
    | .terminating, none => some ({ this with childAlive := false, phase := .awaitingReader }, ())
    | _, _ => none
  | .joinReader =>
    match this.phase, this.reader with
    | .awaitingReader, .ended result => some (this.goTo (.awaitingAgent result), ())
    | _, _ => none
  | .joinAgent =>
    match this.phase with
    | .awaitingAgent result =>
      if this.agentRunning then none else some (this.goTo (.disconnecting result), ())
    | _ => none
  | .disconnect =>
    match this.phase with
    | .disconnecting result => some ((this.emit .disconnected).goTo (.finished result), ())
    | _ => none
  | .childExits => some ({ this with childAlive := false }, ())
  | .output chunk =>
    match this.reader with
    | .running => some (this.emit (.terminalOutput chunk), ())
    | .ended _ => none
  | .readerEnds result =>
    match this.reader with
    | .running => some ({ this with reader := .ended result }, ())
    | .ended _ => none
  | .agentFails message =>
    if this.agentRunning then
      some ({ this with agentRunning := false, fatal := this.fatal ++ [message] }, ())
    else none
  | .agentEnds =>
    if this.agentRunning then some ({ this with agentRunning := false }, ()) else none
  | .requestTerminate zookeeperId =>
    some ({ this with shutdown := true, requests := this.requests ++ [zookeeperId] }, ())
  | .announceTerminate =>
    match this.requests with
    | zookeeperId :: requests =>
      some (emit { this with requests }
        (.sessionEnded ("zookeeper `" ++ zookeeperId ++ "` requested terminate")), ())
    | [] => none
  | .closeWindow => some ({ this with shutdown := true }, ())

end HostSession

abbrev HostTransition := Transition HostSession SessionStep Unit

abbrev SessionRun (eventSender agentRunning : Bool) :=
  Run HostSession.step (HostSession.start eventSender agentRunning)

/-! ## What a run amounts to -/

/-- The inputs that the policy has asked for. -/
def requestedBy : SessionStep → List Input
  | .pollReturns (.action (.perturb inputs)) => inputs
  | _ => []

def requested (history : List HostTransition) : List Input :=
  history.flatMap fun transition => requestedBy transition.label

/-- A poll begins although shutdown has been requested. -/
def latePoll (transition : HostTransition) : Bool :=
  match transition.label, transition.target.phase with
  | .checkChild none, .polling => transition.source.shutdown
  | _, _ => false

end ManInTheBox.Host
