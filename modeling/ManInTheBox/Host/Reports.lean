import Mathlib.Tactic
import ManInTheBox.Library.Run

/-! # Delivery of reward reports

A published report is appended to the history and then broadcast. The session loop sends
what it receives from the broadcast to every open channel; a channel that opens is sent
the history first. The two ways to a channel know nothing of each other.
-/

namespace ManInTheBox.Host

open Library

/-- A reward, by its bits, and the time of its report. -/
structure RewardReport where
  reward : UInt64
  reportedAtMs : ℕ
  deriving DecidableEq

def reportBufferCapacity : ℕ := 1024

/-! ## Steps -/

/-- A channel that is open waits for its callback, then has some of its snapshot left to replay. -/
inductive Phase
  | connecting
  | opened
  | replaying (todo : List RewardReport)
  | closed
  deriving DecidableEq

structure DataChannel where
  phase : Phase
  sent : List RewardReport
  deriving DecidableEq

def DataChannel.isOpen (channel : DataChannel) : Bool :=
  match channel.phase with
  | .opened | .replaying _ => true
  | .connecting | .closed => false

/-- The store with the reports whose `publish` has yet to broadcast, the receiver of the session
loop, the report it is sending with the channels it has not come to, and the channels. -/
structure Reporting where
  history : List RewardReport
  unsent : List RewardReport
  subscribed : Bool
  queue : List RewardReport
  lagged : Bool
  forwarding : Option (RewardReport × List ℕ)
  channels : List DataChannel
  deriving DecidableEq

/-- The two halves of `publish`, the life of a session and of its channels, and the two ways to
send. -/
inductive ReportStep
  | push (report : RewardReport)
  | broadcast (publisher : ℕ)
  | connect
  | disconnect
  | addPeer
  | opens (channel : ℕ)
  | snapshot (channel : ℕ)
  | replay (channel : ℕ)
  | closes (channel : ℕ)
  | receive
  | forward (channel : ℕ)
  | forwarded
  deriving DecidableEq

namespace Reporting

def start : Reporting := ⟨[], [], false, [], false, none, []⟩

def setChannel (this : Reporting) (c : ℕ) (channel : DataChannel) : Reporting :=
  { this with channels := this.channels.set c channel }

/-- `tx.send(report)`: a full receiver loses its oldest report. -/
def deliver (this : Reporting) (report : RewardReport) : Reporting :=
  if this.subscribed then
    if this.queue.length < reportBufferCapacity then
      { this with queue := this.queue ++ [report] }
    else { this with queue := this.queue.tail ++ [report], lagged := true }
  else this

/-- One round of `broadcast_report`. -/
def forwardTo (this : Reporting) (report : RewardReport) (remaining : List ℕ) (c : ℕ)
    (channel : DataChannel) : Reporting :=
  let this := { this with forwarding := some (report, remaining.erase c) }
  if channel.isOpen then this.setChannel c { channel with sent := channel.sent ++ [report] }
  else this

def step (this : Reporting) : ReportStep → Option (Reporting × Unit)
  | .push report =>
    some ({ this with
      history := this.history ++ [report]
      unsent := this.unsent ++ [report] }, ())
  | .broadcast publisher =>
    match this.unsent[publisher]? with
    | some report =>
      some (deliver { this with unsent := this.unsent.eraseIdx publisher } report, ())
    | none => none
  | .connect =>
    if this.subscribed then none
    else
      some ({ this with
        subscribed := true
        queue := []
        lagged := false
        forwarding := none
        channels := [] }, ())
  | .disconnect =>
    if this.subscribed ∧ this.forwarding = none then
      some ({ this with subscribed := false, queue := [], lagged := false, channels := [] }, ())
    else none
  | .addPeer =>
    if this.subscribed ∧ this.forwarding = none then
      some ({ this with channels := this.channels ++ [⟨.connecting, []⟩] }, ())
    else none
  | .opens c =>
    match this.channels[c]? with
    | some ⟨.connecting, sent⟩ => some (this.setChannel c ⟨.opened, sent⟩, ())
    | _ => none
  | .snapshot c =>
    match this.channels[c]? with
    | some ⟨.opened, sent⟩ => some (this.setChannel c ⟨.replaying this.history, sent⟩, ())
    | _ => none
  | .replay c =>
    match this.channels[c]? with
    | some ⟨.replaying (report :: todo), sent⟩ =>
      some (this.setChannel c ⟨.replaying todo, sent ++ [report]⟩, ())
    | _ => none
  | .closes c =>
    match this.channels[c]? with
    | some channel => some (this.setChannel c { channel with phase := .closed }, ())
    | none => none
  | .receive =>
    if this.subscribed ∧ this.forwarding = none then
      if this.lagged then some ({ this with lagged := false }, ())
      else
        match this.queue with
        | report :: queue =>
          some ({ this with
            queue
            forwarding := some (report, List.range this.channels.length) }, ())
        | [] => none
    else none
  | .forward c =>
    match this.forwarding with
    | some (report, remaining) =>
      if c ∈ remaining then
        match this.channels[c]? with
        | some channel => some (this.forwardTo report remaining c channel, ())
        | none => none
      else none
    | none => none
  | .forwarded =>
    match this.forwarding with
    | some (_, []) => some ({ this with forwarding := none }, ())
    | _ => none

end Reporting

abbrev ReportRun := Run Reporting.step Reporting.start

/-! ## Exactly once -/

namespace Reporting

/-- No report is on its way. -/
def Quiet (this : Reporting) : Prop :=
  this.unsent = [] ∧ this.queue = [] ∧ this.forwarding = none

/-- What an open channel was sent is always the beginning of the history, and all of it once nothing
is on its way and the replay is over. -/
structure ExactlyOnce (this : Reporting) : Prop where
  inOrder : ∀ channel ∈ this.channels, channel.isOpen = true → channel.sent <+: this.history
  complete : this.Quiet → ∀ channel ∈ this.channels, channel.phase = .replaying [] →
    channel.sent = this.history

/-- The published reports that the session loop has yet to send to a channel. -/
def onItsWay (this : Reporting) (c : ℕ) : List RewardReport :=
  (match this.forwarding with
    | some (report, remaining) => if c ∈ remaining then [report] else []
    | none => []) ++ this.queue ++ this.unsent

/-- Some open channel has taken its snapshot. -/
def hasReader (this : Reporting) : Bool :=
  this.channels.any fun channel =>
    match channel.phase with
    | .replaying _ => true
    | _ => false

/-- The steps that keep the two ways apart. A snapshot is taken when nothing is on its way to the
channel; a report is forwarded to a channel only after its replay; and once a channel has taken its
snapshot, reports are broadcast in the order of the history, to a receiver that has room. -/
def Orderly (this : Reporting) : ReportStep → Prop
  | .snapshot c => this.onItsWay c = []
  | .forward c =>
    ∀ channel ∈ this.channels[c]?, channel.isOpen = true → channel.phase = .replaying []
  | .broadcast publisher =>
    this.hasReader = true → publisher = 0 ∧ this.queue.length < reportBufferCapacity
  | _ => True

instance (this : Reporting) : (label : ReportStep) → Decidable (this.Orderly label)
  | .snapshot c => inferInstanceAs (Decidable (this.onItsWay c = []))
  | .forward c => inferInstanceAs (Decidable (∀ channel ∈ this.channels[c]?,
      channel.isOpen = true → channel.phase = .replaying []))
  | .broadcast publisher => inferInstanceAs (Decidable (this.hasReader = true →
      publisher = 0 ∧ this.queue.length < reportBufferCapacity))
  | .push _ | .connect | .disconnect | .addPeer | .opens _ | .replay _ | .closes _ | .receive
  | .forwarded => inferInstanceAs (Decidable True)

/-! ## Orderly runs deliver exactly once -/

/-- Whatever an open channel was not sent yet, it has to replay or is on its way to it. -/
structure Delivering (this : Reporting) : Prop where
  subscribed : this.channels ≠ [] → this.subscribed = true
  unread : ∀ (c : ℕ) (channel : DataChannel), this.channels[c]? = some channel →
    channel.phase = .connecting ∨ channel.phase = .opened → channel.sent = []
  read : ∀ (c : ℕ) (channel : DataChannel) (todo : List RewardReport),
    this.channels[c]? = some channel → channel.phase = .replaying todo →
    channel.sent ++ todo ++ this.onItsWay c = this.history
  nodup : ∀ report remaining, this.forwarding = some (report, remaining) → remaining.Nodup

namespace Delivering

variable {this : Reporting}

theorem exactlyOnce (h : Delivering this) : ExactlyOnce this where
  inOrder channel hmem hopen := by
    obtain ⟨c, hget⟩ := List.mem_iff_getElem?.mp hmem
    cases hphase : channel.phase with
    | connecting => simp [DataChannel.isOpen, hphase] at hopen
    | closed => simp [DataChannel.isOpen, hphase] at hopen
    | opened => simp [h.unread c channel hget (.inr hphase)]
    | replaying todo =>
      have hall := h.read c channel todo hget hphase
      exact ⟨todo ++ this.onItsWay c, by rw [← hall, List.append_assoc]⟩
  complete hquiet channel hmem hphase := by
    obtain ⟨c, hget⟩ := List.mem_iff_getElem?.mp hmem
    have hall := h.read c channel [] hget hphase
    obtain ⟨hunsent, hqueue, hforwarding⟩ := hquiet
    simpa [onItsWay, hunsent, hqueue, hforwarding] using hall

theorem start : Delivering Reporting.start := by
  constructor <;> simp [Reporting.start]

theorem hasReader_of_getElem? {c : ℕ} {channel : DataChannel} {todo : List RewardReport}
    (hget : this.channels[c]? = some channel) (hphase : channel.phase = .replaying todo) :
    this.hasReader = true := by
  simp only [hasReader, List.any_eq_true]
  exact ⟨channel, List.mem_of_getElem? hget, by simp [hphase]⟩

theorem setChannel_getElem? {c i : ℕ} {channel channel' : DataChannel}
    (hget : (this.setChannel c channel).channels[i]? = some channel') :
    (c = i ∧ channel' = channel) ∨ (c ≠ i ∧ this.channels[i]? = some channel') := by
  simp only [Reporting.setChannel, List.getElem?_set] at hget
  by_cases hc : c = i
  · rw [if_pos hc] at hget
    split at hget
    · exact .inl ⟨hc, (Option.some.inj hget).symm⟩
    · cases hget
  · rw [if_neg hc] at hget
    exact .inr ⟨hc, hget⟩

/-- A step that changes one channel. -/
theorem setChannel (h : Delivering this) {c : ℕ} {channel : DataChannel}
    (hunread : channel.phase = .connecting ∨ channel.phase = .opened → channel.sent = [])
    (hread : ∀ todo, channel.phase = .replaying todo →
      channel.sent ++ todo ++ this.onItsWay c = this.history) :
    Delivering (this.setChannel c channel) where
  subscribed hne := h.subscribed (by simpa [Reporting.setChannel] using hne)
  unread i channel' hget hphase := by
    rcases setChannel_getElem? hget with ⟨rfl, rfl⟩ | ⟨-, hold⟩
    · exact hunread hphase
    · exact h.unread i channel' hold hphase
  read i channel' todo hget hphase := by
    rcases setChannel_getElem? hget with ⟨rfl, rfl⟩ | ⟨-, hold⟩
    · exact hread todo hphase
    · exact h.read i channel' todo hold hphase
  nodup := h.nodup

/-- A step that leaves the channels and moves reports on their way. -/
theorem moved (h : Delivering this) {next : Reporting} (hchannels : next.channels = this.channels)
    (hsubscribed : next.subscribed = this.subscribed)
    (hread : ∀ c, c < this.channels.length → this.hasReader = true →
      ∀ done, done ++ this.onItsWay c = this.history → done ++ next.onItsWay c = next.history)
    (hnodup : ∀ report remaining, next.forwarding = some (report, remaining) → remaining.Nodup) :
    Delivering next where
  subscribed hne := by
    rw [hsubscribed]
    exact h.subscribed (hchannels ▸ hne)
  unread c channel hget := by
    rw [hchannels] at hget
    exact h.unread c channel hget
  read c channel todo hget hphase := by
    rw [hchannels] at hget
    have hlt := (List.getElem?_eq_some_iff.mp hget).1
    exact hread c hlt (hasReader_of_getElem? hget hphase) _ (h.read c channel todo hget hphase)
  nodup := hnodup

theorem push (h : Delivering this) (report : RewardReport) :
    Delivering { this with
      history := this.history ++ [report]
      unsent := this.unsent ++ [report] } := by
  apply h.moved
  · rfl
  · rfl
  · intro c _ _ done hdone
    simp only [onItsWay] at hdone ⊢
    simp only [← hdone, List.append_assoc]
  · exact h.nodup

/-- A broadcast in order, to a receiver with room, is one step further on its way. -/
theorem broadcast (h : Delivering this) {publisher : ℕ} {report : RewardReport}
    (hunsent : this.unsent[publisher]? = some report)
    (horderly : this.Orderly (.broadcast publisher)) :
    Delivering (deliver { this with unsent := this.unsent.eraseIdx publisher } report) := by
  have hsame : ∀ next, next = deliver { this with unsent := this.unsent.eraseIdx publisher } report →
      next.channels = this.channels ∧ next.subscribed = this.subscribed ∧
        next.forwarding = this.forwarding ∧ next.history = this.history := by
    rintro next rfl
    unfold deliver
    split
    · split <;> exact ⟨rfl, rfl, rfl, rfl⟩
    · exact ⟨rfl, rfl, rfl, rfl⟩
  obtain ⟨hchannels, hsubscribed, hforwarding, hhistory⟩ := hsame _ rfl
  apply h.moved hchannels hsubscribed
  · intro c hlt hreader done hdone
    obtain ⟨rfl, hroom⟩ := horderly hreader
    have hon : this.subscribed = true := h.subscribed (List.ne_nil_of_length_pos (by omega))
    obtain ⟨rest, hrest⟩ : ∃ rest, this.unsent = report :: rest := by
      cases hlist : this.unsent with
      | nil => simp [hlist] at hunsent
      | cons first rest => exact ⟨rest, by simpa [hlist] using hunsent⟩
    have hdeliver : deliver { this with unsent := this.unsent.eraseIdx 0 } report =
        { this with unsent := rest, queue := this.queue ++ [report] } := by
      simp [deliver, hon, hroom, hrest]
    rw [hdeliver]
    simpa [onItsWay, hrest] using hdone
  · intro report' remaining hget
    rw [hforwarding] at hget
    exact h.nodup report' remaining hget

/-- The session loop takes a report for all channels. -/
theorem receive (h : Delivering this) (hidle : this.forwarding = none) {report : RewardReport}
    {queue : List RewardReport} (hqueue : this.queue = report :: queue) :
    Delivering { this with
      queue
      forwarding := some (report, List.range this.channels.length) } := by
  apply h.moved
  · rfl
  · rfl
  · intro c hlt _ done hdone
    have hmem : c ∈ List.range this.channels.length := List.mem_range.mpr hlt
    simpa [onItsWay, hidle, hqueue, hmem] using hdone
  · intro report' remaining hget
    obtain ⟨-, rfl⟩ := Prod.mk.inj (Option.some.inj hget)
    exact List.nodup_range

/-- A report that was on its way to a channel is sent to it, and to no other. -/
theorem forward (h : Delivering this) {report : RewardReport} {remaining : List ℕ} {c : ℕ}
    {channel : DataChannel} (hforwarding : this.forwarding = some (report, remaining))
    (hmem : c ∈ remaining) (hget : this.channels[c]? = some channel)
    (horderly : this.Orderly (.forward c)) :
    Delivering (this.forwardTo report remaining c channel) := by
  have hnodup := h.nodup report remaining hforwarding
  have herase : ∀ i, i ∈ remaining.erase c ↔ i ≠ c ∧ i ∈ remaining := fun i => hnodup.mem_erase_iff
  have hready : channel.isOpen = true → channel.phase = .replaying [] :=
    horderly channel hget
  -- What is left for the other channels, and for this one.
  have hother : ∀ i, i ≠ c → onItsWay { this with
      forwarding := some (report, remaining.erase c) } i = this.onItsWay i := by
    intro i hi
    simp [onItsWay, hforwarding, herase, hi]
  have hbefore : this.onItsWay c = report :: (this.queue ++ this.unsent) := by
    simp [onItsWay, hforwarding, hmem]
  have hafter : onItsWay { this with forwarding := some (report, remaining.erase c) } c =
      this.queue ++ this.unsent := by
    simp [onItsWay, herase]
  have hrest : ∀ report' remaining', some (report, remaining.erase c) = some (report', remaining') →
      remaining'.Nodup := by
    intro report' remaining' heq
    obtain ⟨-, rfl⟩ := Prod.mk.inj (Option.some.inj heq)
    exact hnodup.erase c
  by_cases hopen : channel.isOpen = true
  · have hphase := hready hopen
    have hall := h.read c channel [] hget hphase
    rw [hbefore] at hall
    simp only [forwardTo, hopen, if_true]
    constructor
    · intro hne
      exact h.subscribed (by simpa [Reporting.setChannel] using hne)
    · intro i channel' hget' hphase'
      rcases setChannel_getElem? hget' with ⟨rfl, rfl⟩ | ⟨-, hold⟩
      · simp [hphase] at hphase'
      · exact h.unread i channel' hold hphase'
    · intro i channel' todo hget' hphase'
      rcases setChannel_getElem? hget' with ⟨rfl, rfl⟩ | ⟨hi, hold⟩
      · have htodo : todo = [] := by
          have heq := hphase.symm.trans hphase'
          simpa using heq.symm
        have hsent : channel.sent ++ [report] ++ [] ++ (this.queue ++ this.unsent) =
            this.history := by
          simpa using hall
        rw [htodo]
        exact hafter ▸ hsent
      · have hread := h.read i channel' todo hold hphase'
        rw [← hother i (Ne.symm hi)] at hread
        exact hread
    · exact hrest
  · simp only [forwardTo, hopen]
    constructor
    · exact h.subscribed
    · exact h.unread
    · intro i channel' todo hget' hphase'
      have hi : i ≠ c := by
        rintro rfl
        obtain rfl := Option.some.inj (hget.symm.trans hget')
        simp [DataChannel.isOpen, hphase'] at hopen
      have hread := h.read i channel' todo hget' hphase'
      rw [← hother i hi] at hread
      exact hread
    · exact hrest

theorem forwarded (h : Delivering this) {report : RewardReport}
    (hforwarding : this.forwarding = some (report, [])) :
    Delivering { this with forwarding := none } := by
  apply h.moved
  · rfl
  · rfl
  · intro c _ _ done hdone
    simpa [onItsWay, hforwarding] using hdone
  · intro report' remaining hget
    cases hget

theorem addPeer (h : Delivering this) (hon : this.subscribed = true) :
    Delivering { this with channels := this.channels ++ [⟨.connecting, []⟩] } where
  subscribed _ := hon
  unread c channel hget hphase := by
    by_cases hc : c < this.channels.length
    · rw [List.getElem?_append_left hc] at hget
      exact h.unread c channel hget hphase
    · rw [List.getElem?_append_right (not_lt.mp hc)] at hget
      have hmem := List.mem_singleton.mp (List.mem_of_getElem? hget)
      rw [hmem]
  read c channel todo hget hphase := by
    by_cases hc : c < this.channels.length
    · rw [List.getElem?_append_left hc] at hget
      exact h.read c channel todo hget hphase
    · rw [List.getElem?_append_right (not_lt.mp hc)] at hget
      have hmem := List.mem_singleton.mp (List.mem_of_getElem? hget)
      simp [hmem] at hphase
  nodup := h.nodup

/-- Without channels nothing has to be delivered. -/
theorem of_no_channels {next : Reporting} (hchannels : next.channels = [])
    (hforwarding : next.forwarding = none) : Delivering next where
  subscribed hne := absurd hchannels hne
  unread c channel hget := by simp [hchannels] at hget
  read c channel todo hget := by simp [hchannels] at hget
  nodup report remaining hget := by simp [hforwarding] at hget

/-- Every orderly step keeps what is delivered and what is on its way in order. -/
theorem step (h : Delivering this) {label : ReportStep} {next : Reporting} {output : Unit}
    (hstep : this.step label = some (next, output)) (horderly : this.Orderly label) :
    Delivering next := by
  cases label with
  | push report =>
    obtain ⟨rfl, -⟩ := Prod.mk.inj (Option.some.inj hstep)
    exact h.push report
  | broadcast publisher =>
    simp only [Reporting.step] at hstep
    split at hstep
    · obtain ⟨rfl, -⟩ := Prod.mk.inj (Option.some.inj hstep)
      exact h.broadcast ‹_› horderly
    · cases hstep
  | connect =>
    simp only [Reporting.step] at hstep
    split at hstep
    · cases hstep
    · obtain ⟨rfl, -⟩ := Prod.mk.inj (Option.some.inj hstep)
      exact of_no_channels rfl rfl
  | disconnect =>
    simp only [Reporting.step] at hstep
    split at hstep
    · rename_i hidle
      obtain ⟨rfl, -⟩ := Prod.mk.inj (Option.some.inj hstep)
      exact of_no_channels rfl hidle.2
    · cases hstep
  | addPeer =>
    simp only [Reporting.step] at hstep
    split at hstep
    · rename_i hidle
      obtain ⟨rfl, -⟩ := Prod.mk.inj (Option.some.inj hstep)
      exact h.addPeer hidle.1
    · cases hstep
  | opens c =>
    simp only [Reporting.step] at hstep
    split at hstep
    · rename_i sent hget
      obtain ⟨rfl, -⟩ := Prod.mk.inj (Option.some.inj hstep)
      have hsent : sent = [] := h.unread c _ hget (.inl rfl)
      exact h.setChannel (fun _ => hsent) (by simp)
    · cases hstep
  | snapshot c =>
    simp only [Reporting.step] at hstep
    split at hstep
    · rename_i sent hget
      obtain ⟨rfl, -⟩ := Prod.mk.inj (Option.some.inj hstep)
      have hsent : sent = [] := h.unread c _ hget (.inr rfl)
      have hnone : this.onItsWay c = [] := horderly
      apply h.setChannel
      · simp
      · intro todo hphase
        have htodo : this.history = todo := by simpa using hphase
        simp [hsent, hnone, htodo]
    · cases hstep
  | replay c =>
    simp only [Reporting.step] at hstep
    split at hstep
    · rename_i report todo sent hget
      obtain ⟨rfl, -⟩ := Prod.mk.inj (Option.some.inj hstep)
      have hread := h.read c _ (report :: todo) hget rfl
      apply h.setChannel
      · simp
      · intro todo' hphase
        have htodo : todo = todo' := by simpa using hphase
        rw [← htodo]
        simpa using hread
    · cases hstep
  | closes c =>
    simp only [Reporting.step] at hstep
    split at hstep
    · obtain ⟨rfl, -⟩ := Prod.mk.inj (Option.some.inj hstep)
      exact h.setChannel (by simp) (by simp)
    · cases hstep
  | receive =>
    simp only [Reporting.step] at hstep
    split at hstep
    · rename_i hidle
      split at hstep
      · obtain ⟨rfl, -⟩ := Prod.mk.inj (Option.some.inj hstep)
        exact h.moved rfl rfl (fun _ _ _ _ hdone => hdone) h.nodup
      · split at hstep
        · obtain ⟨rfl, -⟩ := Prod.mk.inj (Option.some.inj hstep)
          exact h.receive hidle.2 ‹_›
        · cases hstep
    · cases hstep
  | forward c =>
    simp only [Reporting.step] at hstep
    split at hstep
    · rename_i report remaining hforwarding
      split at hstep
      · rename_i hmem
        split at hstep
        · obtain ⟨rfl, -⟩ := Prod.mk.inj (Option.some.inj hstep)
          exact h.forward hforwarding hmem ‹_› horderly
        · cases hstep
      · cases hstep
    · cases hstep
  | forwarded =>
    simp only [Reporting.step] at hstep
    split at hstep
    · obtain ⟨rfl, -⟩ := Prod.mk.inj (Option.some.inj hstep)
      exact h.forwarded ‹_›
    · cases hstep

end Delivering

end Reporting

open Reporting

/-- For every interleaving of any number of publishes, sessions and channels: as long as every step
is orderly, each open channel was sent the history in order, each report once, and all of it when
nothing is on its way. -/
theorem reports_exactly_once {history : List (Transition Reporting ReportStep Unit)}
    {this : Reporting} (run : ReportRun history this)
    (horderly : ∀ t ∈ history, t.source.Orderly t.label) : ExactlyOnce this := by
  have hdelivering := run.invariant_of_forall (fun t => t.source.Orderly t.label) Delivering
    Delivering.start (fun _ _ _ _ h hstep ho => h.step hstep ho) horderly
  exact hdelivering.exactlyOnce

/-- A report before a channel opens, which is replayed, and one after, which is forwarded. -/
def orderlySteps : List ReportStep :=
  [.push ⟨1, 10⟩, .connect, .broadcast 0, .addPeer, .receive, .forward 0, .forwarded, .opens 0,
    .snapshot 0, .replay 0, .push ⟨2, 20⟩, .broadcast 0, .receive, .forward 0, .forwarded]

theorem reports_exactly_once_replayed :
    ReportRun (trace Reporting.step Reporting.start orderlySteps)
        (reached Reporting.step Reporting.start orderlySteps) ∧
      (∀ t ∈ trace Reporting.step Reporting.start orderlySteps, t.source.Orderly t.label) ∧
      ExactlyOnce (reached Reporting.step Reporting.start orderlySteps) :=
  ⟨Run.of_labels (by decide), by decide,
    reports_exactly_once (Run.of_labels (by decide)) (by decide)⟩

/-- A channel opens between the two halves of a `publish`: it replays the report and is then sent it
again. -/
def doubledSteps : List ReportStep :=
  [.connect, .addPeer, .push ⟨1, 10⟩, .opens 0, .snapshot 0, .replay 0, .broadcast 0, .receive,
    .forward 0]

theorem not_exactly_once_doubled :
    ¬ ∀ history this, ReportRun history this → ExactlyOnce this := by
  intro h
  have hdoubled := h _ _ (Run.of_labels (by decide : (exec Reporting.step Reporting.start
    doubledSteps).isSome))
  have hsent := hdoubled.inOrder ⟨.replaying [], [⟨1, 10⟩, ⟨1, 10⟩]⟩ (by decide) rfl
  exact absurd hsent (by decide)

end ManInTheBox.Host
