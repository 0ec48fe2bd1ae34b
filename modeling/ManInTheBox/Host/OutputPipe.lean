import ManInTheBox.Library.Quiescence

/-! # From a child's output to the guest

A task of the host reads the output of a child in blocks and sends it byte by byte through a
bounded channel, from which the guest collects it. The guest then waits to be told how the
reading ended.
-/

namespace ManInTheBox.Host

open Library

/-- The task of `spawn_output_reader`: it reads a block, sends its bytes, tells how it ended and lets
go of the channel. -/
inductive OutputReader
  | reading
  | sending (todo : List UInt8)
  | finishing (result : Except String Unit)
  | told
  | gone

/-- The guest collects the stream and then awaits the end of it. -/
inductive OutputCollector
  | collecting
  | awaitingDone
  | finished (result : Except String (List UInt8))

/-- One output of a child: all it has written, whether it is closed, and where the bytes are. -/
structure OutputPipe where
  written : List UInt8
  closed : Bool
  pipe : List UInt8
  reader : OutputReader
  done : Option (Except String Unit)
  channel : List UInt8
  collected : List UInt8
  collector : OutputCollector

/-- The child writes as much as the pipe has room for, or closes it; the other steps are those of the
host and the guest. -/
inductive OutputStep
  | write (chunk : List UInt8)
  | close
  | read (count : ℕ)
  | readFails (message : String)
  | send
  | tell
  | letGo
  | collect (count : ℕ)
  | endOfStream
  | awaitDone

def readBlock : ℕ := 4096

def channelCapacity : ℕ := 8 * 1024

def readError (streamName message : String) : String :=
  "failed reading child " ++ streamName ++ ": " ++ message

namespace OutputPipe

def start : OutputPipe where
  written := []
  closed := false
  pipe := []
  reader := .reading
  done := none
  channel := []
  collected := []
  collector := .collecting

/-- `wait_for_stream_completion`. -/
def completion (this : OutputPipe) : Option (Except String Unit) :=
  match this.done, this.reader with
  | some result, _ => some result
  | none, .gone => some (.ok ())
  | none, _ => none

/-- The stream is kept by the guest until it has ended, so that the receiver of the channel is not
dropped before. -/
def step (streamName : String) (capacity : ℕ) (this : OutputPipe) :
    OutputStep → Option (OutputPipe × Unit)
  | .write chunk =>
    if this.closed = false ∧ this.pipe.length + chunk.length ≤ capacity then
      some ({ this with written := this.written ++ chunk, pipe := this.pipe ++ chunk }, ())
    else none
  | .close => some ({ this with closed := true }, ())
  | .read count =>
    match this.reader with
    | .reading =>
      if 0 < count ∧ count ≤ readBlock ∧ count ≤ this.pipe.length then
        some ({ this with
          pipe := this.pipe.drop count, reader := .sending (this.pipe.take count) }, ())
      else if count = 0 ∧ this.pipe = [] ∧ this.closed = true then
        some ({ this with reader := .finishing (.ok ()) }, ())
      else none
    | _ => none
  | .readFails message =>
    match this.reader with
    | .reading =>
      some ({ this with reader := .finishing (.error (readError streamName message)) }, ())
    | _ => none
  | .send =>
    match this.reader with
    | .sending [] => some ({ this with reader := .reading }, ())
    | .sending (byte :: todo) =>
      if this.channel.length < channelCapacity then
        some ({ this with channel := this.channel ++ [byte], reader := .sending todo }, ())
      else none
    | _ => none
  | .tell =>
    match this.reader with
    | .finishing result => some ({ this with done := some result, reader := .told }, ())
    | _ => none
  | .letGo =>
    match this.reader with
    | .told => some ({ this with reader := .gone }, ())
    | _ => none
  | .collect count =>
    match this.collector with
    | .collecting =>
      if 0 < count ∧ count ≤ this.channel.length then
        some ({ this with
          channel := this.channel.drop count
          collected := this.collected ++ this.channel.take count }, ())
      else none
    | _ => none
  | .endOfStream =>
    match this.collector, this.reader, this.channel with
    | .collecting, .gone, [] => some ({ this with collector := .awaitingDone }, ())
    | _, _, _ => none
  | .awaitDone =>
    match this.collector, this.completion with
    | .awaitingDone, some result =>
      some ({ this with collector := .finished (result.map fun _ => this.collected) }, ())
    | _, _ => none

/-! ## No byte is lost -/

/-- The bytes that the reader holds. -/
def inHand : OutputReader → List UInt8
  | .sending todo => todo
  | _ => []

/-- The reader has read all there is, without an error. -/
def ReadAll (this : OutputPipe) : Prop := this.closed = true ∧ this.pipe = []

/-- What is known of the bytes at any time. -/
structure Flows (this : OutputPipe) : Prop where
  bytes : this.collected ++ this.channel ++ inHand this.reader ++ this.pipe = this.written
  finishing : this.reader = .finishing (.ok ()) → this.ReadAll
  done : (this.reader = .told ∨ this.reader = .gone) → ∃ result, this.done = some result
  told : ∀ result, this.done = some result →
    (this.reader = .told ∨ this.reader = .gone) ∧ (result = .ok () → this.ReadAll)
  ended : this.collector ≠ .collecting → this.reader = .gone ∧ this.channel = []
  finished : ∀ output, this.collector = .finished (.ok output) →
    this.ReadAll ∧ output = this.collected

variable {streamName : String} {capacity : ℕ} {this next : OutputPipe} {label : OutputStep}
  {u : Unit}

theorem Flows.start : Flows start := by
  constructor <;> simp [OutputPipe.start, inHand]

theorem Flows.completion (h : Flows this) (hcollector : this.collector ≠ .collecting)
    {result : Except String Unit} (hresult : this.completion = some result) :
    this.done = some result := by
  obtain ⟨result', hdone⟩ := h.done (.inr (h.ended hcollector).1)
  rw [OutputPipe.completion, hdone] at hresult
  rw [hdone, Option.some.inj hresult]

theorem Flows.step (h : Flows this) (taken : this.step streamName capacity label = some (next, u)) :
    Flows next := by
  cases label
  case write chunk =>
    simp only [OutputPipe.step] at taken
    split_ifs at taken with hroom
    obtain rfl := (Prod.mk.inj (Option.some.inj taken)).1
    have hopen (hall : this.ReadAll) : False := by simp [hall.1] at hroom
    refine ⟨?_, fun hreader => (hopen (h.finishing hreader)).elim, h.done, fun result hresult =>
      ⟨(h.told result hresult).1, fun hok => (hopen ((h.told result hresult).2 hok)).elim⟩, h.ended,
      fun output houtput => (hopen (h.finished output houtput).1).elim⟩
    simp only [← h.bytes, List.append_assoc]
  case awaitDone =>
    simp only [OutputPipe.step] at taken
    split at taken
    · rename_i result hcollector hresult
      obtain rfl := (Prod.mk.inj (Option.some.inj taken)).1
      have hcollected : this.collector ≠ .collecting := by simp [hcollector]
      refine ⟨h.bytes, h.finishing, h.done, h.told, fun _ => h.ended hcollected, ?_⟩
      intro output houtput
      cases result with
      | error message => cases houtput
      | ok =>
        cases houtput
        exact ⟨(h.told _ (h.completion hcollected hresult)).2 rfl, rfl⟩
    · cases taken
  all_goals
    obtain ⟨hbytes, hfinishing, hdone, htold, hended, hfinished⟩ := h
    simp only [OutputPipe.step] at taken
    repeat' split at taken
    all_goals cases taken
  all_goals constructor
  all_goals simp_all [ReadAll, inHand]

/-- A collection that ends well has all that the child has written. -/
theorem Flows.complete (h : Flows this) {output : List UInt8}
    (hfinished : this.collector = .finished (.ok output)) :
    output = this.written ∧ this.closed = true := by
  obtain ⟨⟨hclosed, hpipe⟩, rfl⟩ := h.finished output hfinished
  obtain ⟨hgone, hchannel⟩ := h.ended (by simp [hfinished])
  have hbytes := h.bytes
  rw [hpipe, hchannel, hgone] at hbytes
  exact ⟨by simpa [inHand] using hbytes, hclosed⟩

/-- The error is on its way to the guest, or has got there. -/
def Failed (this : OutputPipe) (error : String) : Prop :=
  this.reader = .finishing (.error error) ∨ this.done = some (.error error) ∨
    this.collector = .finished (.error error)

theorem not_failed_start (error : String) : ¬Failed start error := by
  simp [Failed, OutputPipe.start]

theorem Failed.of_step (h : Flows this) {error : String}
    (taken : this.step streamName capacity label = some (next, u)) (hnext : Failed next error) :
    Failed this error ∨
      ∃ message, label = .readFails message ∧ error = readError streamName message := by
  cases label
  case awaitDone =>
    simp only [OutputPipe.step] at taken
    split at taken
    · rename_i result hcollector hresult
      obtain rfl := (Prod.mk.inj (Option.some.inj taken)).1
      have hdone := h.completion (by simp [hcollector]) hresult
      cases result with
      | error message => exact .inl (by simpa [Failed, hcollector, hdone, Except.map] using hnext)
      | ok => exact .inl (by simpa [Failed, hcollector, Except.map] using hnext)
    · cases taken
  case readFails message =>
    simp only [OutputPipe.step] at taken
    split at taken
    · obtain rfl := (Prod.mk.inj (Option.some.inj taken)).1
      rcases hnext with hreader | hrest
      · right
        refine ⟨message, rfl, ?_⟩
        simpa using hreader.symm
      · exact .inl (.inr hrest)
    · cases taken
  all_goals
    left
    simp only [OutputPipe.step] at taken
    repeat' split at taken
    all_goals cases taken
  all_goals simp_all [Failed]
  exact hnext.imp_right .inr

/-! ## Nothing gets stuck -/

/-- Neither the child nor a failure of the system makes this step. -/
def OfHost : OutputStep → Prop
  | .write _ | .close | .readFails _ => False
  | .read _ | .send | .tell | .letGo | .collect _ | .endOfStream | .awaitDone => True

def readerWork : OutputReader → ℕ
  | .reading => 3
  | .sending todo => 4 + 3 * todo.length
  | .finishing _ => 2
  | .told => 1
  | .gone => 0

def collectorWork : OutputCollector → ℕ
  | .collecting => 2
  | .awaitingDone => 1
  | .finished _ => 0

/-- What is left to do for the bytes that are there. -/
def work (this : OutputPipe) : ℕ :=
  5 * this.pipe.length + readerWork this.reader + 2 * this.channel.length +
    collectorWork this.collector

theorem work_lt (taken : this.step streamName capacity label = some (next, u))
    (hhost : OfHost label) : next.work < this.work := by
  cases label
  case write | close | readFails => cases hhost
  case read count =>
    simp only [OutputPipe.step] at taken
    split at taken
    · rename_i hreader
      split_ifs at taken with hcount
      · obtain rfl := (Prod.mk.inj (Option.some.inj taken)).1
        simp only [work, hreader, readerWork, List.length_drop, List.length_take]
        omega
      · obtain rfl := (Prod.mk.inj (Option.some.inj taken)).1
        simp only [work, hreader, readerWork]
        omega
    · cases taken
  all_goals
    simp only [OutputPipe.step] at taken
    repeat' split at taken
    all_goals cases taken
  all_goals simp_all [work, readerWork, collectorWork]
  all_goals omega

/-- Where host and guest can do nothing more, the guest has its answer, or all that the child has
written has been collected and the child may go on. -/
theorem Flows.of_stuck (h : Flows this)
    (hstuck : ∀ label, OfHost label → this.step streamName capacity label = none) :
    (∃ result, this.collector = .finished result) ∨
    this.collected = this.written ∧ this.pipe = [] ∧ this.closed = false := by
  have hchannel : this.collector = .collecting → this.channel = [] := by
    intro hcollector
    by_contra hne
    have hcollect := hstuck (.collect 1) trivial
    have hpos : 1 ≤ this.channel.length := List.length_pos_of_ne_nil hne
    simp [OutputPipe.step, hcollector, hpos] at hcollect
  cases hcollector : this.collector with
  | finished result => exact .inl ⟨result, rfl⟩
  | awaitingDone =>
    have hawait := hstuck .awaitDone trivial
    obtain ⟨hgone, -⟩ := h.ended (by simp [hcollector])
    obtain ⟨result, hdone⟩ := h.done (.inr hgone)
    simp [OutputPipe.step, hcollector, OutputPipe.completion, hdone] at hawait
  | collecting =>
    have hempty := hchannel hcollector
    cases hreader : this.reader with
    | reading =>
      right
      have hpipe : this.pipe = [] := by
        by_contra hne
        have hread := hstuck (.read 1) trivial
        have hpos : 1 ≤ this.pipe.length := List.length_pos_of_ne_nil hne
        simp [OutputPipe.step, hreader, readBlock, hpos] at hread
      have hopen : this.closed = false := by
        have hread := hstuck (.read 0) trivial
        simpa [OutputPipe.step, hreader, hpipe] using hread
      have hbytes := h.bytes
      rw [hempty, hreader, hpipe] at hbytes
      exact ⟨by simpa [inHand] using hbytes, hpipe, hopen⟩
    | sending todo =>
      have hsend := hstuck .send trivial
      cases todo with
      | nil => simp [OutputPipe.step, hreader] at hsend
      | cons byte todo => simp [OutputPipe.step, hreader, hempty, channelCapacity] at hsend
    | finishing result =>
      have htell := hstuck .tell trivial
      simp [OutputPipe.step, hreader] at htell
    | told =>
      have hgo := hstuck .letGo trivial
      simp [OutputPipe.step, hreader] at hgo
    | gone =>
      have hend := hstuck .endOfStream trivial
      simp [OutputPipe.step, hcollector, hreader, hempty] at hend

end OutputPipe

end ManInTheBox.Host
