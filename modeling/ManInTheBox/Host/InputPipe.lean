import ManInTheBox.Library.Quiescence
import Mathlib.Data.List.Infix

/-! # From the guest to a child's input

Every `write_stdin` pipes a stream of the guest into one bounded channel. A task of the host takes
the bytes out of it, gathers them in a buffer and writes the buffer to the child. A byte carries the
number of its stream, which the host does not see.
-/

namespace ManInTheBox.Host

open Library

inductive ConsumerPhase
  | piped
  | finished
  | dropped
  deriving DecidableEq

/-- A stream that a `write_stdin` pipes: all that its consumer has read, what of it waits for room in
the channel, and whether the consumer is still there. -/
structure InputStream where
  source : List UInt8
  pending : List UInt8
  phase : ConsumerPhase

/-- The task of `spawn_stdin_writer`. -/
inductive StdinWriter
  | receiving
  | gathering (buffer : List (ℕ × UInt8))
  | writing (todo : List (ℕ × UInt8))
  | flushing
  | returned (failed : Bool)

structure InputPipe where
  streams : List InputStream
  held : Bool
  channel : List (ℕ × UInt8)
  writer : StdinWriter
  pipe : List (ℕ × UInt8)
  taken : List (ℕ × UInt8)

/-- The guest pipes a stream, offers bytes on it, finishes it, is cut off from it or drops the child;
a byte is sent; the task receives, gathers, writes, flushes or returns; the child reads. -/
inductive InputStep
  | writeStdin
  | offer (c : ℕ) (bytes : List UInt8)
  | finish (c : ℕ)
  | cutOff (c : ℕ)
  | dropChild
  | send (c : ℕ)
  | receive
  | gather
  | beginWrite
  | write (count : ℕ)
  | writeFails
  | flush
  | flushFails
  | stop
  | childReads (count : ℕ)

def inputCapacity : ℕ := 8 * 1024

def inputBuffer : ℕ := 4096

namespace InputPipe

def start : InputPipe := ⟨[], true, [], .receiving, [], []⟩

def setStream (this : InputPipe) (c : ℕ) (stream : InputStream) : InputPipe :=
  { this with streams := this.streams.set c stream }

/-- All senders of the channel are gone. -/
def disconnected (this : InputPipe) : Bool :=
  !this.held && this.streams.all fun stream => stream.phase ≠ .piped

/-- `try_send` of the next byte of a stream. -/
def trySend (this : InputPipe) (c : ℕ) (stream : InputStream) : Option InputPipe :=
  match stream.pending with
  | [] => none
  | byte :: pending =>
    match this.writer with
    | .returned _ => some (this.setStream c { stream with pending := [], phase := .dropped })
    | _ =>
      if this.channel.length < inputCapacity then
        some { this.setStream c { stream with pending } with channel := this.channel ++ [(c, byte)] }
      else none

def step (capacity : ℕ) (this : InputPipe) : InputStep → Option (InputPipe × Unit)
  | .writeStdin =>
    if this.held then some ({ this with streams := this.streams ++ [⟨[], [], .piped⟩] }, ())
    else none
  | .offer c bytes =>
    match this.streams[c]? with
    | some ⟨source, [], .piped⟩ =>
      some (this.setStream c ⟨source ++ bytes, bytes, .piped⟩, ())
    | _ => none
  | .finish c =>
    match this.streams[c]? with
    | some ⟨source, [], .piped⟩ => some (this.setStream c ⟨source, [], .finished⟩, ())
    | _ => none
  | .cutOff c =>
    match this.streams[c]? with
    | some ⟨source, _, .piped⟩ => some (this.setStream c ⟨source, [], .dropped⟩, ())
    | _ => none
  | .dropChild => some ({ this with held := false }, ())
  | .send c =>
    match this.streams[c]? with
    | some stream => (this.trySend c stream).map fun next => (next, ())
    | none => none
  | .receive =>
    match this.writer, this.channel with
    | .receiving, first :: channel =>
      some ({ this with channel, writer := .gathering [first] }, ())
    | _, _ => none
  | .gather =>
    match this.writer, this.channel with
    | .gathering buffer, byte :: channel =>
      if buffer.length < inputBuffer then
        some ({ this with channel, writer := .gathering (buffer ++ [byte]) }, ())
      else none
    | _, _ => none
  | .beginWrite =>
    match this.writer with
    | .gathering buffer =>
      if inputBuffer ≤ buffer.length ∨ this.channel = [] then
        some ({ this with writer := .writing buffer }, ())
      else none
    | _ => none
  | .write count =>
    match this.writer with
    | .writing todo =>
      if todo = [] then some ({ this with writer := .flushing }, ())
      else if 0 < count ∧ count ≤ todo.length ∧ this.pipe.length + count ≤ capacity then
        some ({ this with
          writer := .writing (todo.drop count), pipe := this.pipe ++ todo.take count }, ())
      else none
    | _ => none
  | .writeFails =>
    match this.writer with
    | .writing _ => some ({ this with writer := .returned true }, ())
    | _ => none
  | .flush =>
    match this.writer with
    | .flushing => some ({ this with writer := .receiving }, ())
    | _ => none
  | .flushFails =>
    match this.writer with
    | .flushing => some ({ this with writer := .returned true }, ())
    | _ => none
  | .stop =>
    match this.writer, this.channel with
    | .receiving, [] =>
      if this.disconnected then some ({ this with writer := .returned false }, ()) else none
    | _, _ => none
  | .childReads count =>
    if count ≤ this.pipe.length then
      some ({ this with
        pipe := this.pipe.drop count, taken := this.taken ++ this.pipe.take count }, ())
    else none

end InputPipe

abbrev InputRun (capacity : ℕ) := Run (InputPipe.step capacity) InputPipe.start

/-! ## Every stream arrives in order -/

/-- The bytes of one stream. -/
def ofStream (c : ℕ) (bytes : List (ℕ × UInt8)) : List UInt8 :=
  (bytes.filter (·.1 = c)).map Prod.snd

theorem ofStream_append (c : ℕ) (bytes bytes' : List (ℕ × UInt8)) :
    ofStream c (bytes ++ bytes') = ofStream c bytes ++ ofStream c bytes' := by
  simp [ofStream]

@[simp] theorem ofStream_singleton (c : ℕ) (byte : UInt8) : ofStream c [(c, byte)] = [byte] := by
  simp [ofStream]

theorem ofStream_of_ne {c d : ℕ} (h : d ≠ c) (byte : UInt8) : ofStream d [(c, byte)] = [] := by
  simp [ofStream, h.symm]

namespace InputPipe

/-- The bytes that the task of the writer holds. -/
def inHand : StdinWriter → List (ℕ × UInt8)
  | .gathering buffer => buffer
  | .writing todo => todo
  | _ => []

/-- What has been written to the child. -/
def delivered (this : InputPipe) : List (ℕ × UInt8) := this.taken ++ this.pipe

/-- What the host has in its hands. -/
def onTheWay (this : InputPipe) : List (ℕ × UInt8) := inHand this.writer ++ this.channel

/-- No write has failed so far. -/
def Intact (this : InputPipe) : Prop := this.writer ≠ .returned true

structure Delivers (this : InputPipe) : Prop where
  ids : ∀ x ∈ this.delivered ++ this.onTheWay, x.1 < this.streams.length
  arrived : ∀ (c : ℕ) (stream : InputStream), this.streams[c]? = some stream →
    ofStream c this.delivered <+: stream.source
  coming : ∀ (c : ℕ) (stream : InputStream), this.streams[c]? = some stream → this.Intact →
    ofStream c (this.delivered ++ this.onTheWay) <+: stream.source
  whole : ∀ (c : ℕ) (stream : InputStream), this.streams[c]? = some stream → this.Intact →
    stream.phase ≠ .dropped →
    ofStream c (this.delivered ++ this.onTheWay) ++ stream.pending = stream.source
  pending : ∀ (c : ℕ) (stream : InputStream), this.streams[c]? = some stream →
    stream.phase ≠ .piped → stream.pending = []
  stopped : this.writer = .returned false → this.channel = [] ∧ this.disconnected = true

variable {this next : InputPipe} {capacity : ℕ} {label : InputStep} {u : Unit}

theorem Delivers.start : Delivers start := by
  constructor <;> simp [InputPipe.start, InputPipe.delivered, InputPipe.onTheWay, inHand]

/-- Bytes move on between the hands of the host and the child. -/
theorem Delivers.move (h : Delivers this) (hintact : this.Intact)
    (hstreams : next.streams = this.streams)
    (hbytes : next.delivered ++ next.onTheWay = this.delivered ++ this.onTheWay)
    (hstopped : next.writer = .returned false → next.channel = [] ∧ next.disconnected = true) :
    Delivers next := by
  refine ⟨?_, fun c stream hstream => ?_, ?_, ?_, ?_, hstopped⟩
  · rw [hbytes, hstreams]
    exact h.ids
  · rw [hstreams] at hstream
    have hall := h.coming c stream hstream hintact
    rw [← hbytes, ofStream_append] at hall
    exact (List.prefix_append _ _).trans hall
  · rw [hbytes, hstreams]
    exact fun c stream hstream _ => h.coming c stream hstream hintact
  · rw [hbytes, hstreams]
    exact fun c stream hstream _ => h.whole c stream hstream hintact
  · rw [hstreams]
    exact h.pending

/-- A write fails, and what the task holds is lost. -/
theorem Delivers.fail (h : Delivers this) : Delivers { this with writer := .returned true } := by
  refine ⟨fun x hx => h.ids x ?_, h.arrived, fun c stream _ hintact => absurd rfl hintact,
    fun c stream _ hintact => absurd rfl hintact, h.pending, fun hstop => by cases hstop⟩
  rcases List.mem_append.mp hx with hx | hx
  · exact List.mem_append_left _ hx
  · have hchannel : x ∈ this.channel := by simpa [InputPipe.onTheWay, inHand] using hx
    exact List.mem_append_right _ (List.mem_append_right _ hchannel)

theorem getElem?_set_cases {streams : List InputStream} {c d : ℕ} {stream found : InputStream}
    (hlt : c < streams.length) (hd : (streams.set c stream)[d]? = some found) :
    d = c ∧ found = stream ∨ d ≠ c ∧ streams[d]? = some found := by
  by_cases hdc : d = c
  · subst hdc
    rw [List.getElem?_set_self hlt] at hd
    exact .inl ⟨rfl, (Option.some.inj hd).symm⟩
  · rw [List.getElem?_set_ne (Ne.symm hdc)] at hd
    exact .inr ⟨hdc, hd⟩

/-- A stream changes while the bytes stay where they are. -/
theorem Delivers.setStream (h : Delivers this) {c : ℕ} {stream stream' : InputStream}
    (hstream : this.streams[c]? = some stream) (hsource : stream.source <+: stream'.source)
    (hwhole : stream'.phase ≠ .dropped → stream.phase ≠ .dropped ∧
      stream'.source = stream.source ++ stream'.pending ∧ stream.pending = [])
    (hpending : stream'.phase ≠ .piped → stream'.pending = [])
    (hopen : this.writer = .returned false → stream'.phase ≠ .piped) :
    Delivers (this.setStream c stream') := by
  have hlt : c < this.streams.length := (List.getElem?_eq_some_iff.mp hstream).1
  have hget (d : ℕ) (found : InputStream) (hd : (this.streams.set c stream')[d]? = some found) :=
    getElem?_set_cases hlt hd
  refine ⟨fun x hx => ?_, fun d found hd => ?_, fun d found hd hintact => ?_,
    fun d found hd hintact hphase => ?_, fun d found hd hphase => ?_, fun hstop => ?_⟩
  · simpa [InputPipe.setStream] using h.ids x hx
  · rcases hget d found hd with ⟨rfl, rfl⟩ | ⟨-, hd⟩
    · exact (h.arrived d stream hstream).trans hsource
    · exact h.arrived d found hd
  · rcases hget d found hd with ⟨rfl, rfl⟩ | ⟨-, hd⟩
    · exact (h.coming d stream hstream hintact).trans hsource
    · exact h.coming d found hd hintact
  · rcases hget d found hd with ⟨rfl, rfl⟩ | ⟨-, hd⟩
    · obtain ⟨hbefore, heq, hnil⟩ := hwhole hphase
      have hall := h.whole d stream hstream hintact hbefore
      rw [hnil, List.append_nil] at hall
      rw [heq, ← hall]
      rfl
    · exact h.whole d found hd hintact hphase
  · rcases hget d found hd with ⟨rfl, rfl⟩ | ⟨-, hd⟩
    · exact hpending hphase
    · exact h.pending d found hd hphase
  · obtain ⟨hchannel, hgone⟩ := h.stopped hstop
    refine ⟨hchannel, ?_⟩
    simp only [InputPipe.disconnected, Bool.and_eq_true, Bool.not_eq_true', List.all_eq_true,
      decide_eq_true_eq] at hgone ⊢
    refine ⟨hgone.1, fun found hmem => ?_⟩
    rcases List.mem_or_eq_of_mem_set hmem with hold | rfl
    · exact hgone.2 found hold
    · exact hopen hstop

theorem Delivers.writeStdin (h : Delivers this) (hheld : this.held = true) :
    Delivers { this with streams := this.streams ++ [⟨[], [], .piped⟩] } := by
  have hget (d : ℕ) (found : InputStream)
      (hd : (this.streams ++ [(⟨[], [], .piped⟩ : InputStream)])[d]? = some found) :
      this.streams[d]? = some found ∨ d = this.streams.length ∧ found = ⟨[], [], .piped⟩ := by
    rcases Nat.lt_trichotomy d this.streams.length with hlt | rfl | hgt
    · rw [List.getElem?_append_left hlt] at hd
      exact .inl hd
    · rw [List.getElem?_concat_length] at hd
      exact .inr ⟨rfl, (Option.some.inj hd).symm⟩
    · have hlength := (List.getElem?_eq_some_iff.mp hd).1
      rw [List.length_append, List.length_singleton] at hlength
      omega
  -- no byte carries the number of the new stream
  have hnew (bytes : List (ℕ × UInt8)) (hsub : ∀ x ∈ bytes, x ∈ this.delivered ++ this.onTheWay) :
      ofStream this.streams.length bytes = [] := by
    rw [ofStream, List.map_eq_nil_iff, List.filter_eq_nil_iff]
    intro x hx heq
    have hlt := h.ids x (hsub x hx)
    simp only [decide_eq_true_eq] at heq
    omega
  refine ⟨fun x hx => ?_, fun d found hd => ?_, fun d found hd hintact => ?_,
    fun d found hd hintact hphase => ?_, fun d found hd hphase => ?_, fun hstop => ?_⟩
  · have hlt := h.ids x hx
    simp only [List.length_append, List.length_singleton]
    omega
  · rcases hget d found hd with hd | ⟨rfl, rfl⟩
    · exact h.arrived d found hd
    · have hnil := hnew this.delivered fun x hx => List.mem_append_left _ hx
      exact hnil ▸ List.prefix_refl []
  · rcases hget d found hd with hd | ⟨rfl, rfl⟩
    · exact h.coming d found hd hintact
    · have hnil := hnew (this.delivered ++ this.onTheWay) fun x hx => hx
      exact hnil ▸ List.prefix_refl []
  · rcases hget d found hd with hd | ⟨rfl, rfl⟩
    · exact h.whole d found hd hintact hphase
    · exact (List.append_nil _).trans (hnew (this.delivered ++ this.onTheWay) fun x hx => hx)
  · rcases hget d found hd with hd | ⟨rfl, rfl⟩
    · exact h.pending d found hd hphase
    · rfl
  · have hgone := (h.stopped hstop).2
    simp [InputPipe.disconnected, hheld] at hgone

/-- A byte has been sent. -/
theorem Delivers.send (h : Delivers this) {c : ℕ} {source pending : List UInt8} {byte : UInt8}
    {phase : ConsumerPhase} (hstream : this.streams[c]? = some ⟨source, byte :: pending, phase⟩)
    (hrunning : ∀ failed, this.writer ≠ .returned failed) :
    Delivers { this.setStream c ⟨source, pending, phase⟩ with
      channel := this.channel ++ [(c, byte)] } := by
  have hlt : c < this.streams.length := (List.getElem?_eq_some_iff.mp hstream).1
  have hphase : phase = .piped := by
    by_contra hne
    have hnil := h.pending c _ hstream hne
    cases hnil
  subst hphase
  have hget (d : ℕ) (found : InputStream)
      (hd : (this.streams.set c ⟨source, pending, .piped⟩)[d]? = some found) :=
    getElem?_set_cases hlt hd
  have hbytes : this.delivered ++ (inHand this.writer ++ (this.channel ++ [(c, byte)])) =
      (this.delivered ++ this.onTheWay) ++ [(c, byte)] := by
    simp [InputPipe.onTheWay]
  have hintact : this.Intact := hrunning true
  have hwhole : ofStream c (this.delivered ++ this.onTheWay) ++ byte :: pending = source :=
    h.whole c _ hstream hintact (by simp)
  have hnow : ofStream c (this.delivered ++ (inHand this.writer ++ (this.channel ++ [(c, byte)]))) ++
      pending = source := by
    rw [hbytes, ofStream_append, ofStream_singleton, ← hwhole]
    simp
  have hother {d : ℕ} (hd : d ≠ c) :
      ofStream d (this.delivered ++ (inHand this.writer ++ (this.channel ++ [(c, byte)]))) =
        ofStream d (this.delivered ++ this.onTheWay) := by
    rw [hbytes, ofStream_append, ofStream_of_ne hd, List.append_nil]
  refine ⟨fun x hx => ?_, fun d found hd => ?_, fun d found hd _ => ?_,
    fun d found hd _ hphase => ?_, fun d found hd hphase => ?_, fun hstop => ?_⟩
  · change x ∈ this.delivered ++ (inHand this.writer ++ (this.channel ++ [(c, byte)])) at hx
    rw [hbytes] at hx
    simp only [InputPipe.setStream, List.length_set]
    rcases List.mem_append.mp hx with hx | hx
    · exact h.ids x hx
    · rw [List.mem_singleton.mp hx]
      exact hlt
  · rcases hget d found hd with ⟨rfl, rfl⟩ | ⟨-, hd⟩
    · have harrived := h.arrived d _ hstream
      exact harrived
    · exact h.arrived d found hd
  · rcases hget d found hd with ⟨rfl, rfl⟩ | ⟨hne, hd⟩
    · exact ⟨pending, hnow⟩
    · exact (hother hne).symm ▸ h.coming d found hd hintact
  · rcases hget d found hd with ⟨rfl, rfl⟩ | ⟨hne, hd⟩
    · exact hnow
    · have hsame := h.whole d found hd hintact hphase
      rw [← hother hne] at hsame
      exact hsame
  · rcases hget d found hd with ⟨rfl, rfl⟩ | ⟨-, hd⟩
    · exact absurd rfl hphase
    · exact h.pending d found hd hphase
  · exact absurd hstop (hrunning false)

/-- A byte is sent, or given up where the task is gone. -/
theorem Delivers.trySend (h : Delivers this) {c : ℕ} {stream : InputStream}
    (hstream : this.streams[c]? = some stream) (hsend : this.trySend c stream = some next) :
    Delivers next := by
  obtain ⟨source, pending, phase⟩ := stream
  simp only [InputPipe.trySend] at hsend
  split at hsend
  · cases hsend
  · split at hsend
    · cases hsend
      exact h.setStream hstream (List.prefix_refl _) (fun hne => absurd rfl hne)
        (fun _ => rfl) fun _ => by simp
    · rename_i hrunning
      split_ifs at hsend
      cases hsend
      exact h.send hstream fun failed hreturned => hrunning failed hreturned

theorem Delivers.offer (h : Delivers this) {c : ℕ} {source : List UInt8}
    (hstream : this.streams[c]? = some ⟨source, [], .piped⟩) (bytes : List UInt8) :
    Delivers (this.setStream c ⟨source ++ bytes, bytes, .piped⟩) := by
  refine h.setStream hstream (List.prefix_append _ _) (fun _ => ⟨by simp, rfl, rfl⟩)
    (fun hne => absurd rfl hne) fun hstop => ?_
  have hgone := (h.stopped hstop).2
  simp only [InputPipe.disconnected, Bool.and_eq_true, List.all_eq_true,
    decide_eq_true_eq] at hgone
  exact absurd rfl (hgone.2 _ (List.mem_of_getElem? hstream))

theorem Delivers.dropChild (h : Delivers this) : Delivers { this with held := false } := by
  refine ⟨h.ids, h.arrived, h.coming, h.whole, h.pending, fun hstop => ?_⟩
  obtain ⟨hchannel, hgone⟩ := h.stopped hstop
  refine ⟨hchannel, ?_⟩
  simp only [InputPipe.disconnected, Bool.and_eq_true] at hgone ⊢
  exact ⟨rfl, hgone.2⟩

theorem Delivers.childReads (h : Delivers this) (count : ℕ) :
    Delivers { this with
      pipe := this.pipe.drop count, taken := this.taken ++ this.pipe.take count } := by
  have hsame : (this.taken ++ this.pipe.take count) ++ this.pipe.drop count =
      this.taken ++ this.pipe := by simp
  refine ⟨?_, ?_, ?_, ?_, h.pending, h.stopped⟩
  · simpa only [InputPipe.delivered, InputPipe.onTheWay, hsame] using h.ids
  · simpa only [InputPipe.delivered, hsame] using h.arrived
  · simpa only [InputPipe.delivered, InputPipe.onTheWay, InputPipe.Intact, hsame] using h.coming
  · simpa only [InputPipe.delivered, InputPipe.onTheWay, InputPipe.Intact, hsame] using h.whole

theorem Delivers.step (h : Delivers this) (taken : this.step capacity label = some (next, u)) :
    Delivers next := by
  cases label with
  | writeStdin =>
    simp only [InputPipe.step] at taken
    split_ifs at taken with hheld
    cases taken
    exact h.writeStdin hheld
  | offer c bytes =>
    simp only [InputPipe.step] at taken
    split at taken
    · rename_i source hstream
      cases taken
      exact h.offer hstream bytes
    · cases taken
  | finish c =>
    simp only [InputPipe.step] at taken
    split at taken
    · rename_i source hstream
      cases taken
      exact h.setStream hstream (List.prefix_refl _) (fun _ => ⟨by simp, by simp, rfl⟩)
        (fun _ => rfl) fun _ => by simp
    · cases taken
  | cutOff c =>
    simp only [InputPipe.step] at taken
    split at taken
    · rename_i source pending hstream
      cases taken
      exact h.setStream hstream (List.prefix_refl _) (fun hne => absurd rfl hne)
        (fun _ => rfl) fun _ => by simp
    · cases taken
  | dropChild =>
    cases taken
    exact h.dropChild
  | send c =>
    simp only [InputPipe.step] at taken
    split at taken
    · rename_i stream hstream
      obtain ⟨next', hsend, heq⟩ := Option.map_eq_some_iff.mp taken
      obtain rfl := (Prod.mk.inj heq).1
      exact h.trySend hstream hsend
    · cases taken
  | writeFails | flushFails =>
    simp only [InputPipe.step] at taken
    split at taken
    · cases taken
      exact h.fail
    · cases taken
  | childReads count =>
    simp only [InputPipe.step] at taken
    split_ifs at taken
    cases taken
    exact h.childReads count
  | stop =>
    simp only [InputPipe.step] at taken
    split at taken
    · rename_i hwriter hchannel
      split_ifs at taken with hgone
      cases taken
      refine h.move (by simp [InputPipe.Intact, hwriter]) rfl ?_ fun _ => ⟨hchannel, hgone⟩
      simp [InputPipe.delivered, InputPipe.onTheWay, inHand, hwriter]
    · cases taken
  | receive | gather | beginWrite | write | flush =>
    simp only [InputPipe.step] at taken
    repeat' split at taken
    all_goals cases taken
    all_goals apply h.move
    all_goals simp_all [InputPipe.Intact, InputPipe.delivered, InputPipe.onTheWay, inHand]
    all_goals rw [← List.append_assoc, List.take_append_drop]

/-! ## Nothing gets stuck -/

/-- Neither the guest nor the child nor a failure makes this step. -/
def OfHost : InputStep → Prop
  | .send _ | .receive | .gather | .beginWrite | .write _ | .flush | .stop => True
  | _ => False

def pendingWork (streams : List InputStream) : ℕ := (streams.flatMap InputStream.pending).length

def writerWork : StdinWriter → ℕ
  | .gathering buffer => 4 + 2 * buffer.length
  | .writing todo => 3 + todo.length
  | .flushing => 2
  | .receiving => 1
  | .returned _ => 0

def work (this : InputPipe) : ℕ :=
  11 * pendingWork this.streams + 10 * this.channel.length + writerWork this.writer

theorem pendingWork_set {streams : List InputStream} {c : ℕ} {stream : InputStream}
    (hstream : streams[c]? = some stream) (stream' : InputStream) :
    pendingWork (streams.set c stream') + stream.pending.length =
      pendingWork streams + stream'.pending.length := by
  induction streams generalizing c with
  | nil => cases hstream
  | cons first streams ih =>
    cases c with
    | zero =>
      cases hstream
      simp only [List.set_cons_zero, pendingWork, List.flatMap_cons, List.length_append]
      omega
    | succ c =>
      have hrest := ih (c := c) (by simpa using hstream)
      simp only [pendingWork, List.set_cons_succ, List.flatMap_cons, List.length_append] at hrest ⊢
      omega

theorem work_lowers : Lowers (InputPipe.step capacity) OfHost work := by
  intro this label next u hhost taken
  cases label with
  | writeStdin | offer | finish | cutOff | dropChild | writeFails | flushFails | childReads =>
    cases hhost
  | send c =>
    simp only [InputPipe.step] at taken
    split at taken
    · rename_i stream hstream
      obtain ⟨next', hsend, heq⟩ := Option.map_eq_some_iff.mp taken
      obtain rfl := (Prod.mk.inj heq).1
      simp only [trySend] at hsend
      split at hsend
      · cases hsend
      · rename_i byte pending hpending
        have hset := pendingWork_set hstream
        rw [hpending, List.length_cons] at hset
        split at hsend
        · rename_i hwriter
          cases hsend
          have hlower := hset { stream with pending := [], phase := .dropped }
          simp only [List.length_nil] at hlower
          simp only [work, setStream]
          omega
        · split_ifs at hsend
          cases hsend
          have hlower := hset { stream with pending }
          simp only at hlower
          simp only [work, setStream, List.length_append, List.length_singleton]
          omega
    · cases taken
  | receive | gather | beginWrite | write | flush | stop =>
    simp only [InputPipe.step] at taken
    repeat' split at taken
    all_goals cases taken
    all_goals simp_all [work, writerWork]
    all_goals omega

/-- Where the host can do nothing more, the writer has returned, the child has to make room, or
every byte that was offered has been written. -/
theorem Delivers.of_stuck (h : Delivers this)
    (hstuck : Stuck (InputPipe.step capacity) OfHost this) :
    (∃ failed, this.writer = .returned failed) ∨ capacity ≤ this.pipe.length ∨
      ∀ c (stream : InputStream), this.streams[c]? = some stream → stream.phase ≠ .dropped →
        ofStream c this.delivered = stream.source := by
  cases hwriter : this.writer with
  | returned failed => exact .inl ⟨failed, rfl⟩
  | gathering buffer =>
    exfalso
    have hbegin := hstuck .beginWrite trivial
    have hgather := hstuck .gather trivial
    cases hchannel : this.channel with
    | nil => simp [InputPipe.step, hwriter, hchannel] at hbegin
    | cons byte channel =>
      simp only [InputPipe.step, hwriter, hchannel, ite_eq_right_iff, reduceCtorEq, imp_false,
        not_or, not_le, not_lt] at hbegin hgather
      omega
  | writing todo =>
    right
    left
    have hnone := hstuck (.write 1) trivial
    have hnext := hstuck (.write 0) trivial
    by_cases htodo : todo = []
    · simp [InputPipe.step, hwriter, htodo] at hnext
    · have hpos : 1 ≤ todo.length := List.length_pos_of_ne_nil htodo
      simp [InputPipe.step, hwriter, htodo, hpos] at hnone
      omega
  | flushing =>
    have hflush := hstuck .flush trivial
    simp [InputPipe.step, hwriter] at hflush
  | receiving =>
    right
    right
    intro c stream hstream hphase
    have hchannel : this.channel = [] := by
      cases hchannel : this.channel with
      | nil => rfl
      | cons first channel =>
        have hreceive := hstuck .receive trivial
        simp [InputPipe.step, hwriter, hchannel] at hreceive
    have hpending : stream.pending = [] := by
      cases hpending : stream.pending with
      | nil => rfl
      | cons byte pending =>
        have hsend := hstuck (.send c) trivial
        simp [InputPipe.step, hstream, InputPipe.trySend, hpending, hwriter, hchannel,
          inputCapacity] at hsend
    have hwhole := h.whole c stream hstream (by simp [InputPipe.Intact, hwriter]) hphase
    simpa [InputPipe.onTheWay, inHand, hwriter, hchannel, hpending] using hwhole

end InputPipe

open InputPipe in
/-- However the streams of a guest, the task of the host and the child take turns, and whatever
fails: what has been written to the child is of each stream a beginning of what its consumer has
read. The input of the child ends only if a write has failed, or when the guest has let go of the
child and every stream that was not cut off has been written as a whole. Host steps alone come to an
end, with all of that written, unless the child has to make room. -/
theorem stdin_delivered {capacity : ℕ} {history : List (Transition InputPipe InputStep Unit)}
    {s : InputPipe} (run : InputRun capacity history s) :
    (∀ c (stream : InputStream), s.streams[c]? = some stream →
      ofStream c s.delivered <+: stream.source) ∧
    (s.writer = .returned false → s.held = false ∧
      ∀ c (stream : InputStream), s.streams[c]? = some stream → stream.phase ≠ .dropped →
        ofStream c s.delivered = stream.source) ∧
    (∀ more t, Run (InputPipe.step capacity) s more t → (∀ u ∈ more, OfHost u.label) →
      more.length ≤ s.work) ∧
    (Stuck (InputPipe.step capacity) OfHost s →
      (∃ failed, s.writer = .returned failed) ∨ capacity ≤ s.pipe.length ∨
        ∀ c (stream : InputStream), s.streams[c]? = some stream → stream.phase ≠ .dropped →
          ofStream c s.delivered = stream.source) := by
  have hdelivers : Delivers s := run.invariant Delivers .start fun _ _ _ _ h taken => h.step taken
  refine ⟨hdelivers.arrived, fun hstop => ?_, fun more t hmore hhost => ?_, hdelivers.of_stuck⟩
  · obtain ⟨hchannel, hgone⟩ := hdelivers.stopped hstop
    simp only [disconnected, Bool.and_eq_true, Bool.not_eq_true', List.all_eq_true,
      decide_eq_true_eq] at hgone
    refine ⟨hgone.1, fun c stream hstream hphase => ?_⟩
    have hwhole := hdelivers.whole c stream hstream (by simp [InputPipe.Intact, hstop]) hphase
    have hpending := hdelivers.pending c stream hstream (hgone.2 _ (List.mem_of_getElem? hstream))
    simpa [onTheWay, inHand, hstop, hchannel, hpending] using hwhole
  · have hlength := work_lowers.length_le hmore hhost
    omega

/-- Two streams at once, and a child that reads one byte at a time. -/
def twoStreams : List InputStep :=
  [.writeStdin, .writeStdin, .offer 0 [104, 105], .offer 1 [33], .send 0, .send 1, .receive, .gather,
    .beginWrite, .send 0, .write 1, .childReads 1, .write 1, .write 0, .flush, .receive, .finish 0,
    .finish 1, .beginWrite, .childReads 1, .dropChild, .write 1, .write 0, .flush, .stop]

theorem stdin_delivered_twoStreams :
    (reached (InputPipe.step 1) .start twoStreams).delivered = [(0, 104), (1, 33), (0, 105)] ∧
    (reached (InputPipe.step 1) .start twoStreams).held = false :=
  ⟨rfl, ((@stdin_delivered 1 _ _ (Run.of_labels rfl)).2.1 rfl).1⟩

end ManInTheBox.Host
