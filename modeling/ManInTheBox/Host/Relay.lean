import ManInTheBox.Host.Meeting
import ManInTheBox.Host.Signaling
import ManInTheBox.Server.Isolation

/-! # Relayed signals at the agent

The server forwards the payload of a signal as it is, whatever JSON it holds. The agent reads the
whole frame at once, so a payload that is no offer and no answer makes the frame unreadable, and
an unreadable frame ends `run`.
-/

namespace ManInTheBox.Host.Signaling

open Library Server

variable {Connection Channel : Type}

section Frames

variable {webrtc : WebRtc Connection Channel} {serde : Serde} {draws : ℕ → ℕ}
  {context : ServerMessageContext Connection Channel}

/-- Only the answer of a known peer goes further than the agent. -/
theorem handleSignal_ignored {peerId : String} {payload : SignalingPayload}
    (h : ∀ sdp, payload = .answer sdp → context.peers.lookup peerId = none) :
    handleSignal webrtc peerId payload context = .ok context := by
  rw [handleSignal]
  cases hpeer : context.peers.lookup peerId with
  | none => rfl
  | some peer =>
    cases payload with
    | offer sdp => rfl
    | answer sdp =>
      rw [h sdp rfl] at hpeer
      cases hpeer

theorem handleWebsocketEvent_signal {text peerId : String} {payload : SignalingPayload}
    (hread : serde.fromStr text = .ok (.signal peerId payload))
    (h : ∀ sdp, payload = .answer sdp → context.peers.lookup peerId = none) :
    handleWebsocketEvent webrtc serde draws (some (.ok (.text text))) context =
      .ok (.continue, context) := by
  simp only [handleWebsocketEvent, hread, orError, handleServerMessage]
  change (handleSignal webrtc peerId payload context >>= _) = _
  rw [handleSignal_ignored h]
  rfl

theorem handleWebsocketEvent_unreadable {text error : String}
    (hread : serde.fromStr text = .error error) :
    handleWebsocketEvent webrtc serde draws (some (.ok (.text text))) context =
      .error (.json error) := by
  simp only [handleWebsocketEvent, hread, orError]
  rfl

end Frames

section Runs

variable (outside : Outside Connection Channel) (options : AgentOptions)

/-- The frame leaves the session and the run as they are. -/
structure Endures (message : Next) (context : ServerMessageContext Connection Channel) : Prop where
  session : ∀ draws, handleWebsocketEvent outside.webrtc outside.serde draws message context =
    .ok (.continue, context)
  run : ∀ shutdown delay draws,
    runStep outside options (.attempting delay (.serving context))
        ⟨shutdown, .happen (.receive message draws)⟩ =
      some (.attempting delay (.serving context), ())

variable {outside options} {message : Next} {context : ServerMessageContext Connection Channel}

theorem Endures.of_session
    (h : ∀ draws, handleWebsocketEvent outside.webrtc outside.serde draws message context =
      .ok (.continue, context)) : Endures outside options message context where
  session := h
  run shutdown delay draws := by
    rw [runStep_serving, h draws]
    rfl

/-- A frame that cannot be read is the end of the run: an error of JSON is not retried. -/
theorem runStep_unreadable {text error : String}
    (hread : outside.serde.fromStr text = .error error) (shutdown : Bool) (delay : ℕ)
    (draws : ℕ → ℕ) :
    runStep outside options (.attempting delay (.serving context))
        ⟨shutdown, .happen (.receive (some (.ok (.text text))) draws)⟩ =
      some (.returned (.error (.json error)), ()) := by
  rw [runStep_serving, handleWebsocketEvent_unreadable hread]
  rfl

theorem not_endures_of_unreadable {text error : String}
    (hread : outside.serde.fromStr text = .error error) :
    ¬ Endures outside options (some (.ok (.text text))) context := by
  intro h
  have hrun := h.run false 1 id
  rw [runStep_unreadable hread] at hrun
  cases hrun

/-- A forwarded signal leaves the agent as it is exactly when its payload can be read. -/
theorem forwarded_endures_iff {config : SecurityConfig} {now : ℕ} {inner inner' : StateInner}
    {roomHandle senderId peerId : String} {payload : Value} {receiver : ClientHandle}
    {forwarded : Server.ServerMessage}
    (hforward : forwardSignal config now roomHandle senderId peerId payload inner =
      (.ok (receiver, forwarded), inner'))
    (hread : outside.serde.fromStr (outside.serde.toString (.signal senderId payload)) =
      (outside.serde.payload payload).map (.signal senderId))
    (hanswer : ∀ sdp, outside.serde.payload payload = .ok (.answer sdp) →
      context.peers.lookup senderId = none) :
    Endures outside options (some (.ok (.text (outside.serde.toString forwarded)))) context ↔
      ∃ read, outside.serde.payload payload = .ok read := by
  rw [(forwardSignal_delivery hforward).1]
  cases hpayload : outside.serde.payload payload with
  | ok read =>
    rw [hpayload] at hread
    refine iff_of_true (.of_session fun draws => ?_) ⟨read, rfl⟩
    apply handleWebsocketEvent_signal hread
    intro sdp hsdp
    exact hanswer sdp (by rw [hpayload, hsdp])
  | error error =>
    rw [hpayload] at hread
    exact iff_of_false (not_endures_of_unreadable hread) (by simp)

/-- However many such frames come, the run is in the session as it was. -/
theorem run_endures {delay : ℕ} {s : RunState Connection Channel}
    {history : List (Transition (RunState Connection Channel) RunLabel Unit)}
    (run : Run (runStep outside options) (.attempting delay (.serving context)) history s)
    (hframes : ∀ t ∈ history, ∃ message draws,
      t.label.event = .happen (.receive message draws) ∧
        Endures outside options message context) :
    s = .attempting delay (.serving context) := by
  refine run.invariant_of_forall
    (fun t => ∃ message draws, t.label.event = .happen (.receive message draws) ∧
      Endures outside options message context)
    (· = .attempting delay (.serving context)) rfl ?_ hframes
  rintro s ⟨shutdown, event⟩ t output rfl taken ⟨message, draws, rfl, hendures⟩
  rw [hendures.run] at taken
  exact (congrArg Prod.fst (Option.some.inj taken)).symm

end Runs

/-! ## An offer and a null -/

/-- The text of a signal that the server sends. -/
def signalText (peerId : String) (payload : Value) : String :=
  "\x7b\"type\":\"signal\",\"peer_id\":\"" ++ peerId ++ "\",\"payload\":" ++ payload.json ++ "\x7d"

def offerValue : Value := ⟨"\x7b\"sdp\":\"v=0\",\"type\":\"offer\"\x7d"⟩

def nullValue : Value := ⟨"null"⟩

/-- serde_json where an offer is the only payload that is read. -/
def offerSerde : Serde where
  toString
    | .signal peerId payload => signalText peerId payload
    | _ => ""
  fromStr text :=
    if text = signalText "zookeeper-2" offerValue then .ok (.signal "zookeeper-2" (.offer "v=0"))
    else .error "invalid type: null, expected internally tagged enum SignalingPayload"
  payload value :=
    if value = offerValue then .ok (.offer "v=0")
    else .error "invalid type: null, expected internally tagged enum SignalingPayload"

/-- An agent and a zookeeper in one room. -/
def pairedInner : StateInner where
  nextClientId := 2
  rooms := (∅ : Table String RoomState).insert "room-7" {
    passwordFile := []
    agents := (∅ : Clients).insert "agent-1" ⟨1⟩
    zookeepers := (∅ : Clients).insert "zookeeper-2" ⟨2⟩
    lastActiveAt := 0
    signalEvents := [] }
  authEventsByIp := ∅

theorem forwardSignal_paired (payload : Value) :
    forwardSignal .default 0 "room-7" "zookeeper-2" "agent-1" payload pairedInner =
      (.ok (⟨1⟩, .signal "zookeeper-2" payload),
        (forwardSignal .default 0 "room-7" "zookeeper-2" "agent-1" payload pairedInner).2) := by
  rfl

/-- The crates where every call succeeds. -/
def quietWebRtc : WebRtc Unit Unit where
  newPeerConnection _ := .ok ()
  createDataChannel _ := .ok ()
  createOffer _ := .ok "v=0"
  setLocalDescription _ _ := .ok ()
  localDescription _ := some "v=0"
  answer _ := .ok ()
  setRemoteDescription _ _ := .ok ()

def quietOutside : Outside Unit Unit := ⟨idealCrates, offerSerde, quietWebRtc⟩

theorem forwarded_endures_iff_offer :
    Endures quietOutside ⟨"k7", none⟩
        (some (.ok (.text (signalText "zookeeper-2" offerValue)))) .new ↔
      ∃ read, offerSerde.payload offerValue = .ok read :=
  @forwarded_endures_iff Unit Unit quietOutside ⟨"k7", none⟩ .new _ _ _ _ _ _ _ _ _ _
    (forwardSignal_paired offerValue) rfl fun _ h => by cases h

/-- The room forwards the null, and the agent that reads it returns from `run`. -/
theorem not_forwarded_endures :
    (∃ inner', forwardSignal .default 0 "room-7" "zookeeper-2" "agent-1" nullValue pairedInner =
      (.ok (⟨1⟩, .signal "zookeeper-2" nullValue), inner')) ∧
    ¬ Endures quietOutside ⟨"k7", none⟩
        (some (.ok (.text (signalText "zookeeper-2" nullValue)))) .new ∧
    runStep quietOutside ⟨"k7", none⟩ (.attempting 1 (.serving .new))
        ⟨false, .happen (.receive (some (.ok (.text (signalText "zookeeper-2" nullValue)))) id)⟩ =
      some (.returned (.error
        (.json "invalid type: null, expected internally tagged enum SignalingPayload")), ()) := by
  have hread : quietOutside.serde.fromStr (signalText "zookeeper-2" nullValue) =
      .error "invalid type: null, expected internally tagged enum SignalingPayload" := by
    decide
  exact ⟨⟨_, forwardSignal_paired nullValue⟩, not_endures_of_unreadable hread,
    runStep_unreadable hread false 1 id⟩

end ManInTheBox.Host.Signaling
