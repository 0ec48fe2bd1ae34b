import Mathlib.Tactic
import ManInTheBox.Library.Run
import ManInTheBox.Emulator.Tracker

/-! # Input for the child

Two parties write to the pseudo terminal through one lock. The inputs of the policy
are cut into payloads, texts into chunks of bytes, and the lock is released after each
payload; the reader thread takes the same lock for each of its cursor reports.
-/

namespace ManInTheBox.Host

open Library Emulator

inductive Key
  | enter
  | tab
  | backspace
  | escape
  | arrowUp
  | arrowDown
  | arrowLeft
  | arrowRight
  | ctrlC
  | ctrlD
  deriving DecidableEq

def keyBytes : Key → Bytes
  | .enter => [0x0d]
  | .tab => [0x09]
  | .backspace => [0x7f]
  | .escape => [0x1b]
  | .arrowUp => [0x1b, 0x5b, 0x41]
  | .arrowDown => [0x1b, 0x5b, 0x42]
  | .arrowLeft => [0x1b, 0x5b, 0x44]
  | .arrowRight => [0x1b, 0x5b, 0x43]
  | .ctrlC => [0x03]
  | .ctrlD => [0x04]

theorem keyBytes_ne_nil (key : Key) : keyBytes key ≠ [] := by
  cases key <;> simp [keyBytes]

inductive Input
  | text (text : String)
  | key (key : Key)
  deriving DecidableEq

/-! ## Payloads -/

def textChunkBytes : ℕ := 96

/-- `bytes.chunks(size)`. -/
def chunks (size : ℕ) (bytes : Bytes) : List Bytes :=
  (List.range ((bytes.length + size - 1) / size)).map fun i => (bytes.drop (size * i)).take size

theorem flatten_take_chunks {size k : ℕ} {bytes : Bytes}
    (hk : k ≤ (bytes.length + size - 1) / size) :
    ((chunks size bytes).take k).flatten = bytes.take (size * k) := by
  have hfirst : (chunks size bytes).take k =
      (List.range k).map fun i => (bytes.drop (size * i)).take size := by
    rw [chunks, ← List.map_take, List.take_range, min_eq_left hk]
  rw [hfirst]
  clear hfirst hk
  induction k with
  | zero => simp
  | succ k ih =>
    rw [List.range_succ, List.map_append, List.flatten_append, ih, Nat.mul_succ, List.take_add]
    simp

theorem length_chunks (size : ℕ) (bytes : Bytes) :
    (chunks size bytes).length = (bytes.length + size - 1) / size := by
  simp [chunks]

theorem flatten_chunks {size : ℕ} (hsize : 0 < size) (bytes : Bytes) :
    (chunks size bytes).flatten = bytes := by
  have h := @flatten_take_chunks size (chunks size bytes).length bytes
    (length_chunks size bytes).le
  rw [List.take_length, length_chunks] at h
  rw [h]
  apply List.take_of_length_le
  have hdiv := Nat.lt_mul_div_succ (bytes.length + size - 1) hsize
  rw [Nat.mul_add] at hdiv
  omega

theorem ne_nil_of_mem_chunks {size : ℕ} (hsize : 0 < size) {bytes chunk : Bytes}
    (h : chunk ∈ chunks size bytes) : chunk ≠ [] := by
  obtain ⟨i, hi, rfl⟩ := List.mem_map.mp h
  have hlt := List.mem_range.mp hi
  have hstart : size * i < bytes.length := by
    have := (Nat.le_div_iff_mul_le hsize).mp hlt
    rw [Nat.succ_mul, Nat.mul_comm] at this
    omega
  simp only [ne_eq, List.take_eq_nil_iff, List.drop_eq_nil_iff, not_or, not_le]
  exact ⟨hsize.ne', hstart⟩

/-- The bytes of an input. -/
def Input.bytes : Input → Bytes
  | .text t => utf8 t.toList
  | .key k => keyBytes k

/-- What `write_inputs` writes for an input, one payload for each time it takes the lock. -/
def Input.payloads : Input → List Bytes
  | .text t => if t = "" then [] else chunks textChunkBytes (utf8 t.toList)
  | .key k => if (keyBytes k).isEmpty then [] else [keyBytes k]

theorem Input.payloads_text (t : String) :
    (Input.text t).payloads = chunks textChunkBytes (utf8 t.toList) := by
  by_cases h : t = ""
  · simp [payloads, h, chunks, utf8, textChunkBytes]
  · simp [payloads, h]

theorem Input.payloads_key (k : Key) : (Input.key k).payloads = [keyBytes k] := by
  simp [payloads, keyBytes_ne_nil]

theorem Input.flatten_payloads (input : Input) : input.payloads.flatten = input.bytes := by
  cases input with
  | text t => rw [payloads_text, flatten_chunks (by decide), bytes]
  | key k => simp [payloads_key, bytes]

theorem Input.ne_nil_of_mem_payloads {input : Input} {payload : Bytes}
    (h : payload ∈ input.payloads) : payload ≠ [] := by
  cases input with
  | text t =>
    rw [payloads_text] at h
    exact ne_nil_of_mem_chunks (by decide) h
  | key k =>
    rw [payloads_key, List.mem_singleton] at h
    simpa [h] using keyBytes_ne_nil k

def payloadsOf (inputs : List Input) : List Bytes := inputs.flatMap Input.payloads

def bytesOf (inputs : List Input) : Bytes := inputs.flatMap Input.bytes

theorem flatten_payloadsOf (inputs : List Input) : (payloadsOf inputs).flatten = bytesOf inputs := by
  induction inputs with
  | nil => rfl
  | cons input inputs ih =>
    simp only [payloadsOf, bytesOf, List.flatMap_cons, List.flatten_append] at ih ⊢
    rw [ih, Input.flatten_payloads]

theorem ne_nil_of_mem_payloadsOf {inputs : List Input} {payload : Bytes}
    (h : payload ∈ payloadsOf inputs) : payload ≠ [] := by
  obtain ⟨input, -, hmem⟩ := List.mem_flatMap.mp h
  exact Input.ne_nil_of_mem_payloads hmem

/-! ## The lock and what is written under it -/

/-- Where a byte comes from; replies are numbered in the order in which they get the lock. -/
inductive Source
  | input
  | reply (n : ℕ)
  deriving DecidableEq

abbrev Written := List (Source × UInt8)

/-- The writer and its lock: the payloads of the inputs that are still to be written, who holds the
lock with what it has left to write, the replies so far, and all that was written. -/
structure PtyWriter where
  todo : List Bytes
  holder : Option (Source × Bytes)
  replies : List Bytes
  written : Written

/-- `write_all` may need several writes. -/
inductive PtyStep
  | lockForInput
  | lockForReply (row col : ℕ)
  | write (count : ℕ)
  | unlock

def PtyWriter.start (inputs : List Input) : PtyWriter := ⟨payloadsOf inputs, none, [], []⟩

def tagged (source : Source) (bytes : Bytes) : Written := bytes.map fun byte => (source, byte)

def PtyWriter.step (this : PtyWriter) : PtyStep → Option (PtyWriter × Unit)
  | .lockForInput =>
    match this.holder, this.todo with
    | none, payload :: todo => some ({ this with todo, holder := some (.input, payload) }, ())
    | _, _ => none
  | .lockForReply row col =>
    match this.holder with
    | none =>
      let reply := cursorReport row col
      some ({ this with
        holder := some (.reply this.replies.length, reply)
        replies := this.replies ++ [reply] }, ())
    | some _ => none
  | .write count =>
    match this.holder with
    | some (source, bytes) =>
      if 0 < count ∧ count ≤ bytes.length then
        some ({ this with
          holder := some (source, bytes.drop count)
          written := this.written ++ tagged source (bytes.take count) }, ())
      else none
    | none => none
  | .unlock =>
    match this.holder with
    | some (_, []) => some ({ this with holder := none }, ())
    | _ => none

abbrev PtyRun (inputs : List Input) := Run PtyWriter.step (PtyWriter.start inputs)

/-- All inputs are written and the lock is free. -/
def PtyWriter.Finished (this : PtyWriter) : Prop := this.todo = [] ∧ this.holder = none

/-- What is left of the written bytes without the replies. -/
def inputPart (written : Written) : Bytes :=
  (written.filter fun entry => entry.1 = .input).map Prod.snd

@[simp] theorem inputPart_append (written later : Written) :
    inputPart (written ++ later) = inputPart written ++ inputPart later := by
  simp [inputPart]

@[simp] theorem inputPart_input (bytes : Bytes) : inputPart (tagged .input bytes) = bytes := by
  induction bytes with
  | nil => rfl
  | cons byte bytes ih => simpa [inputPart, tagged] using ih

@[simp] theorem inputPart_reply (n : ℕ) (bytes : Bytes) :
    inputPart (tagged (.reply n) bytes) = [] := by
  simp [inputPart, tagged, List.filter_map, Function.comp_def]

/-- The bytes of one reply are one block. -/
def Contiguous (n : ℕ) (reply : Bytes) (written : Written) : Prop :=
  ∃ before after, written = before ++ tagged (.reply n) reply ++ after ∧
    ∀ entry ∈ before ++ after, entry.1 ≠ .reply n

/-- Position `n` of the bytes of the inputs is inside a character of a text. -/
def InsideChar (inputs : List Input) (n : ℕ) : Prop :=
  ∃ before t after cs c ds, inputs = before ++ .text t :: after ∧ t.toList = cs ++ c :: ds ∧
    (bytesOf before).length + (utf8 cs).length < n ∧
    n < (bytesOf before).length + (utf8 cs).length + c.utf8Size

/-- What the child receives: the inputs in order, interrupted by whole replies, none of which is
inside a character. -/
structure Intact (inputs : List Input) (this : PtyWriter) : Prop where
  input : inputPart this.written = bytesOf inputs
  source : ∀ entry ∈ this.written,
    entry.1 = .input ∨ ∃ n < this.replies.length, entry.1 = .reply n
  contiguous : ∀ n reply, this.replies[n]? = some reply → Contiguous n reply this.written
  whole : ∀ i n byte, this.written[i]? = some (.reply n, byte) →
    ¬ InsideChar inputs (inputPart (this.written.take i)).length

/-! ## Payload boundaries -/

/-- Position `n` of the bytes of the inputs is one where a payload ends. -/
def Boundary (inputs : List Input) (n : ℕ) : Prop :=
  ∃ done left, payloadsOf inputs = done ++ left ∧ n = done.flatten.length

/-- No chunk of a text ends inside a character. -/
def ChunksWhole (t : String) : Prop :=
  ∀ cs c ds k, t.toList = cs ++ c :: ds →
    ¬ ((utf8 cs).length < textChunkBytes * k ∧
      textChunkBytes * k < (utf8 cs).length + c.utf8Size)

theorem length_utf8_of_split {text cs ds : List Char} {c : Char} (h : text = cs ++ c :: ds) :
    (utf8 text).length = (utf8 cs).length + c.utf8Size + (utf8 ds).length := by
  simp [h, utf8, List.flatMap_append, Nat.add_assoc]

theorem payloadsOf_split (before after : List Input) (t : String) :
    payloadsOf (before ++ .text t :: after) =
      payloadsOf before ++ (chunks textChunkBytes (utf8 t.toList) ++ payloadsOf after) := by
  simp [payloadsOf, Input.payloads_text]

/-- The first chunks of a text have the length of that many chunks, as long as they do not exhaust
it. -/
theorem length_take_chunks {k : ℕ} {bytes : Bytes} (hk : textChunkBytes * k < bytes.length) :
    ((chunks textChunkBytes bytes).take k).flatten.length = textChunkBytes * k := by
  have hcount : k ≤ (bytes.length + textChunkBytes - 1) / textChunkBytes := by
    rw [Nat.le_div_iff_mul_le (by decide), Nat.mul_comm]
    omega
  rw [flatten_take_chunks hcount, List.length_take]
  omega

/-- Inside a character of a text a payload ends only where a chunk does. -/
theorem not_insideChar_of_boundary {inputs : List Input} {n : ℕ}
    (hwhole : ∀ t, .text t ∈ inputs → ChunksWhole t) (hn : Boundary inputs n) :
    ¬ InsideChar inputs n := by
  rintro ⟨before, t, after, cs, c, ds, rfl, ht, hlo, hhi⟩
  obtain ⟨done, left, hsplit, rfl⟩ := hn
  have hlength := length_utf8_of_split ht
  rw [payloadsOf_split] at hsplit
  have hbefore := congrArg List.length (flatten_payloadsOf before)
  rcases List.append_eq_append_iff.mp hsplit with ⟨rest, hdone, hleft⟩ | ⟨rest, hdone, -⟩
  · -- The payloads before the text are done, and some of its chunks.
    rcases List.append_eq_append_iff.mp hleft with ⟨more, hrest, -⟩ | ⟨more, hchunks, -⟩
    · have := congrArg List.length (flatten_chunks (by decide : 0 < textChunkBytes)
        (utf8 t.toList))
      rw [hdone, hrest] at hlo hhi
      simp only [List.flatten_append, List.length_append] at hlo hhi
      omega
    · have hlen : rest.length ≤ (chunks textChunkBytes (utf8 t.toList)).length := by
        simp [hchunks]
      have hrest : (chunks textChunkBytes (utf8 t.toList)).take rest.length = rest := by
        simp [hchunks]
      have hflat := flatten_take_chunks (hlen.trans (length_chunks _ _).le)
      rw [hrest] at hflat
      have hpos := congrArg List.length hflat
      rw [List.length_take] at hpos
      rw [hdone] at hlo hhi
      simp only [List.flatten_append, List.length_append] at hlo hhi
      exact hwhole t (by simp) cs c ds rest.length ht (by omega)
  · have := congrArg (fun l => (List.flatten l).length) hdone
    simp only [List.flatten_append, List.length_append] at this
    omega

/-! ## What every run keeps -/

/-- How far the inputs are written: the payloads that are done, and the part of the next one that
its holder has sent. -/
def Progress (inputs : List Input) (this : PtyWriter) : Prop :=
  match this.holder with
  | some (.input, rest) => ∃ done sent, payloadsOf inputs = done ++ (sent ++ rest) :: this.todo ∧
      inputPart this.written = done.flatten ++ sent
  | _ => ∃ done, payloadsOf inputs = done ++ this.todo ∧ inputPart this.written = done.flatten

/-- A reply begins where a payload ends, and until its holder has sent it all, what is sent of it is
the end of what is written. -/
structure Writing (inputs : List Input) (this : PtyWriter) : Prop where
  progress : Progress inputs this
  source : ∀ entry ∈ this.written,
    entry.1 = .input ∨ ∃ n < this.replies.length, entry.1 = .reply n
  held : ∀ n rest, this.holder = some (.reply n, rest) → ∃ sent before,
    this.replies[n]? = some (sent ++ rest) ∧ this.written = before ++ tagged (.reply n) sent ∧
    ∀ entry ∈ before, entry.1 ≠ .reply n
  released : ∀ n reply, this.replies[n]? = some reply →
    (∀ rest, this.holder ≠ some (.reply n, rest)) → Contiguous n reply this.written
  boundary : ∀ i n byte, this.written[i]? = some (.reply n, byte) →
    Boundary inputs (inputPart (this.written.take i)).length

theorem mem_tagged {source : Source} {bytes : Bytes} {entry : Source × UInt8}
    (h : entry ∈ tagged source bytes) : entry.1 = source := by
  obtain ⟨byte, -, rfl⟩ := List.mem_map.mp h
  rfl

theorem tagged_append (source : Source) (bytes later : Bytes) :
    tagged source (bytes ++ later) = tagged source bytes ++ tagged source later :=
  List.map_append

theorem tagged_take (source : Source) (bytes : Bytes) (k : ℕ) :
    (tagged source bytes).take k = tagged source (bytes.take k) :=
  (List.map_take ..).symm

/-- A block stays one when something else is written. -/
theorem Contiguous.append {n : ℕ} {reply : Bytes} {written later : Written}
    (h : Contiguous n reply written) (hlater : ∀ entry ∈ later, entry.1 ≠ .reply n) :
    Contiguous n reply (written ++ later) := by
  obtain ⟨before, after, rfl, hother⟩ := h
  refine ⟨before, after ++ later, by simp, ?_⟩
  intro entry hentry
  rw [← List.append_assoc, List.mem_append] at hentry
  rcases hentry with hentry | hentry
  · exact hother entry hentry
  · exact hlater entry hentry

namespace Writing

variable {inputs : List Input} {this : PtyWriter}

theorem start (inputs : List Input) : Writing inputs (PtyWriter.start inputs) where
  progress := ⟨[], rfl, rfl⟩
  source := by simp [PtyWriter.start]
  held := by simp [PtyWriter.start]
  released := by simp [PtyWriter.start]
  boundary := by simp [PtyWriter.start]

/-- Taking the lock for a payload. -/
theorem lockForInput (h : Writing inputs this) {payload : Bytes} {todo : List Bytes}
    (hfree : this.holder = none) (htodo : this.todo = payload :: todo) :
    Writing inputs { this with todo, holder := some (.input, payload) } where
  progress := by
    have hprogress := h.progress
    rw [Progress, hfree, htodo] at hprogress
    obtain ⟨done, hpayloads, hwritten⟩ := hprogress
    exact ⟨done, [], hpayloads, by simpa using hwritten⟩
  source := h.source
  held := by simp
  released n reply hreply _ := h.released n reply hreply (by simp [hfree])
  boundary := h.boundary

/-- Taking the lock for a reply. -/
theorem lockForReply (h : Writing inputs this) (reply : Bytes) (hfree : this.holder = none) :
    Writing inputs { this with
      holder := some (.reply this.replies.length, reply)
      replies := this.replies ++ [reply] } where
  progress := by
    have hprogress := h.progress
    rw [Progress, hfree] at hprogress
    exact hprogress
  source entry hentry := by
    rcases h.source entry hentry with hinput | ⟨n, hn, hreply⟩
    · exact .inl hinput
    · exact .inr ⟨n, by simp; omega, hreply⟩
  held n rest hholder := by
    obtain ⟨hn, rfl⟩ : this.replies.length = n ∧ reply = rest := by simpa using hholder
    refine ⟨[], this.written, by simp [← hn], by simp [tagged], ?_⟩
    intro entry hentry hsource
    rcases h.source entry hentry with hinput | ⟨m, hm, hreply⟩
    · simp [hinput] at hsource
    · rw [hreply, Source.reply.injEq] at hsource
      omega
  released n reply' hreply hholder := by
    have hne : n ≠ this.replies.length := by
      rintro rfl
      exact hholder reply rfl
    have hlt : n < this.replies.length := by
      have := (List.getElem?_eq_some_iff.mp hreply).1
      simp at this
      omega
    rw [List.getElem?_append_left hlt] at hreply
    exact h.released n reply' hreply (by simp [hfree])
  boundary := h.boundary

/-- Giving the lock back. -/
theorem unlock (h : Writing inputs this) {source : Source} (hdone : this.holder = some (source, [])) :
    Writing inputs { this with holder := none } where
  progress := by
    have hprogress := h.progress
    rw [Progress, hdone] at hprogress
    cases source with
    | input =>
      obtain ⟨done, sent, hpayloads, hwritten⟩ := hprogress
      exact ⟨done ++ [sent], by simpa using hpayloads, by simpa using hwritten⟩
    | reply n => exact hprogress
  source := h.source
  held := by simp
  released n reply hreply _ := by
    by_cases hn : source = .reply n
    · obtain ⟨sent, before, hsent, hwritten, hother⟩ := h.held n [] (by rw [hdone, hn])
      have heq : reply = sent := by simpa [hreply] using hsent
      exact ⟨before, [], by simp [hwritten, heq], by simpa using hother⟩
    · exact h.released n reply hreply (by simp [hdone, hn])
  boundary := h.boundary

/-- Everything written so far stays where it is. -/
theorem boundary_append (h : Writing inputs this) {later : Written} {i n : ℕ} {byte : UInt8}
    (hi : i < this.written.length)
    (hentry : (this.written ++ later)[i]? = some (.reply n, byte)) :
    Boundary inputs (inputPart ((this.written ++ later).take i)).length := by
  rw [List.getElem?_append_left hi] at hentry
  rw [List.take_append_of_le_length hi.le]
  exact h.boundary i n byte hentry

theorem writeInput (h : Writing inputs this) {sent rest : Bytes}
    (hholder : this.holder = some (.input, sent ++ rest)) :
    Writing inputs { this with
      holder := some (.input, rest)
      written := this.written ++ tagged .input sent } where
  progress := by
    have hprogress := h.progress
    rw [Progress, hholder] at hprogress
    obtain ⟨done, earlier, hpayloads, hwritten⟩ := hprogress
    refine ⟨done, earlier ++ sent, ?_, ?_⟩
    · rw [hpayloads, List.append_assoc]
    · simp [hwritten]
  source entry hentry := by
    rcases List.mem_append.mp hentry with hentry | hentry
    · exact h.source entry hentry
    · exact .inl (mem_tagged hentry)
  held := by simp
  released n reply hreply _ := by
    have hcontiguous := h.released n reply hreply (by simp [hholder])
    exact hcontiguous.append fun entry hentry => by simp [mem_tagged hentry]
  boundary i n byte hentry := by
    by_cases hi : i < this.written.length
    · exact h.boundary_append hi hentry
    · rw [List.getElem?_append_right (not_lt.mp hi)] at hentry
      have hinput := mem_tagged (List.mem_of_getElem? hentry)
      simp at hinput

theorem writeReply (h : Writing inputs this) {m : ℕ} {sent rest : Bytes}
    (hholder : this.holder = some (.reply m, sent ++ rest)) :
    Writing inputs { this with
      holder := some (.reply m, rest)
      written := this.written ++ tagged (.reply m) sent } where
  progress := by
    have hprogress := h.progress
    rw [Progress, hholder] at hprogress
    simpa [Progress] using hprogress
  source entry hentry := by
    rcases List.mem_append.mp hentry with hentry | hentry
    · exact h.source entry hentry
    · obtain ⟨earlier, before, hreply, -⟩ := h.held m _ hholder
      exact .inr ⟨m, (List.getElem?_eq_some_iff.mp hreply).1, mem_tagged hentry⟩
  held n rest' hheld := by
    obtain ⟨rfl, rfl⟩ : m = n ∧ rest = rest' := by simpa using hheld
    obtain ⟨earlier, before, hreply, hwritten, hother⟩ := h.held m _ hholder
    exact ⟨earlier ++ sent, before, by simpa using hreply, by simp [hwritten, tagged_append], hother⟩
  released n reply hreply hheld := by
    have hne : m ≠ n := by
      rintro rfl
      exact hheld rest rfl
    have hcontiguous := h.released n reply hreply (by simp [hholder, hne])
    exact hcontiguous.append fun entry hentry => by simp [mem_tagged hentry, hne]
  boundary i n byte hentry := by
    by_cases hi : i < this.written.length
    · exact h.boundary_append hi hentry
    · -- A reply is written while no payload is, so all that is written are whole payloads.
      have hprogress := h.progress
      rw [Progress, hholder] at hprogress
      obtain ⟨done, hpayloads, hwritten⟩ := hprogress
      have htake : inputPart ((this.written ++ tagged (.reply m) sent).take i) = done.flatten := by
        rw [List.take_append, List.take_of_length_le (not_lt.mp hi), tagged_take]
        simp [hwritten]
      exact ⟨done, this.todo, hpayloads, by rw [htake]⟩

theorem step (h : Writing inputs this) {label : PtyStep} {next : PtyWriter} {output : Unit}
    (hstep : this.step label = some (next, output)) : Writing inputs next := by
  cases label with
  | lockForInput =>
    simp only [PtyWriter.step] at hstep
    split at hstep
    · obtain ⟨rfl, -⟩ := Prod.mk.inj (Option.some.inj hstep)
      exact h.lockForInput ‹_› ‹_›
    · cases hstep
  | lockForReply row col =>
    simp only [PtyWriter.step] at hstep
    split at hstep
    · obtain ⟨rfl, -⟩ := Prod.mk.inj (Option.some.inj hstep)
      exact h.lockForReply _ ‹_›
    · cases hstep
  | write count =>
    simp only [PtyWriter.step] at hstep
    split at hstep
    · rename_i source bytes hholder
      split at hstep
      · obtain ⟨rfl, -⟩ := Prod.mk.inj (Option.some.inj hstep)
        rw [← List.take_append_drop count bytes] at hholder
        cases source with
        | input => exact h.writeInput hholder
        | reply n => exact h.writeReply hholder
      · cases hstep
    · cases hstep
  | unlock =>
    simp only [PtyWriter.step] at hstep
    split at hstep
    · obtain ⟨rfl, -⟩ := Prod.mk.inj (Option.some.inj hstep)
      exact h.unlock ‹_›
    · cases hstep

theorem run {history : List (Transition PtyWriter PtyStep Unit)} (run : PtyRun inputs history this) :
    Writing inputs this :=
  run.invariant _ (start inputs) fun _ _ _ _ h hstep => h.step hstep

/-- When all is written, what the child receives is intact up to the characters. -/
theorem intact (h : Writing inputs this) (hfinished : this.Finished)
    (hwhole : ∀ t, .text t ∈ inputs → ChunksWhole t) : Intact inputs this where
  input := by
    have hprogress := h.progress
    rw [Progress, hfinished.2, hfinished.1] at hprogress
    obtain ⟨done, hpayloads, hwritten⟩ := hprogress
    rw [hwritten, ← flatten_payloadsOf, hpayloads, List.append_nil]
  source := h.source
  contiguous n reply hreply := h.released n reply hreply (by simp [hfinished.2])
  whole i n byte hentry := not_insideChar_of_boundary hwhole (h.boundary i n byte hentry)

end Writing

/-! ## A reply inside a character -/

section Schedule

variable {inputs : List Input} {replies : List Bytes}

/-- With the lock free there is a run that goes on by writing one payload. -/
theorem exists_run_payload {history : List (Transition PtyWriter PtyStep Unit)} {written : Written}
    {payload : Bytes} {rest : List Bytes} (hne : payload ≠ [])
    (run : PtyRun inputs history ⟨payload :: rest, none, replies, written⟩) :
    ∃ history', PtyRun inputs history'
      ⟨rest, none, replies, written ++ tagged .input payload⟩ := by
  have hpos : 0 < payload.length := List.length_pos_iff.mpr hne
  have hlock : PtyWriter.step ⟨payload :: rest, none, replies, written⟩ .lockForInput =
      some (⟨rest, some (.input, payload), replies, written⟩, ()) := rfl
  have hwrite : PtyWriter.step ⟨rest, some (.input, payload), replies, written⟩
      (.write payload.length) =
      some (⟨rest, some (.input, []), replies, written ++ tagged .input payload⟩, ()) := by
    simp [PtyWriter.step, hpos]
  have hunlock : PtyWriter.step
      ⟨rest, some (.input, []), replies, written ++ tagged .input payload⟩ .unlock =
      some (⟨rest, none, replies, written ++ tagged .input payload⟩, ()) := rfl
  exact ⟨_, ((run.step hlock).step hwrite).step hunlock⟩

theorem exists_run_payloads {history : List (Transition PtyWriter PtyStep Unit)}
    {written : Written} {payloads rest : List Bytes} (hne : ∀ payload ∈ payloads, payload ≠ [])
    (run : PtyRun inputs history ⟨payloads ++ rest, none, replies, written⟩) :
    ∃ history', PtyRun inputs history'
      ⟨rest, none, replies, written ++ tagged .input payloads.flatten⟩ := by
  induction payloads generalizing history written with
  | nil => exact ⟨history, by simpa [tagged] using run⟩
  | cons payload payloads ih =>
    obtain ⟨history', run'⟩ := exists_run_payload (hne payload (by simp)) run
    have hrest := ih (fun p hp => hne p (by simp [hp])) run'
    simpa [tagged_append] using hrest

theorem exists_run_reply {history : List (Transition PtyWriter PtyStep Unit)} {written : Written}
    {todo : List Bytes} (row col : ℕ) (run : PtyRun inputs history ⟨todo, none, replies, written⟩) :
    ∃ history', PtyRun inputs history'
      ⟨todo, none, replies ++ [cursorReport row col],
        written ++ tagged (.reply replies.length) (cursorReport row col)⟩ := by
  have hpos : 0 < (cursorReport row col).length := Nat.succ_pos _
  have hlock : PtyWriter.step ⟨todo, none, replies, written⟩ (.lockForReply row col) =
      some (⟨todo, some (.reply replies.length, cursorReport row col),
        replies ++ [cursorReport row col], written⟩, ()) := rfl
  have hwrite : PtyWriter.step ⟨todo, some (.reply replies.length, cursorReport row col),
      replies ++ [cursorReport row col], written⟩ (.write (cursorReport row col).length) =
      some (⟨todo, some (.reply replies.length, []), replies ++ [cursorReport row col],
        written ++ tagged (.reply replies.length) (cursorReport row col)⟩, ()) := by
    simp [PtyWriter.step, hpos]
  have hunlock : PtyWriter.step ⟨todo, some (.reply replies.length, []),
      replies ++ [cursorReport row col],
      written ++ tagged (.reply replies.length) (cursorReport row col)⟩ .unlock =
      some (⟨todo, none, replies ++ [cursorReport row col],
        written ++ tagged (.reply replies.length) (cursorReport row col)⟩, ()) := rfl
  exact ⟨_, ((run.step hlock).step hwrite).step hunlock⟩

end Schedule

/-- A reply may be written at any payload boundary. -/
theorem exists_run_boundary {inputs : List Input} {n : ℕ} (hn : Boundary inputs n) :
    ∃ history this, PtyRun inputs history this ∧ this.Finished ∧
      ∃ i byte, this.written[i]? = some (.reply 0, byte) ∧
        (inputPart (this.written.take i)).length = n := by
  obtain ⟨done, left, hpayloads, rfl⟩ := hn
  have hne : ∀ payload ∈ done ++ left, payload ≠ [] := fun payload hmem =>
    ne_nil_of_mem_payloadsOf (hpayloads ▸ hmem)
  have hstart : PtyRun inputs [] ⟨done ++ left, none, [], []⟩ := by
    rw [← hpayloads]
    exact .start
  obtain ⟨history₁, run₁⟩ := exists_run_payloads (fun p hp => hne p (by simp [hp])) hstart
  obtain ⟨history₂, run₂⟩ := exists_run_reply 1 1 run₁
  rw [← List.append_nil left] at run₂
  obtain ⟨history₃, run₃⟩ := exists_run_payloads (fun p hp => hne p (by simp [hp])) run₂
  have hwritten : [] ++ tagged .input done.flatten ++ tagged (.reply 0) (cursorReport 1 1) ++
      tagged .input left.flatten = tagged .input done.flatten ++
        (tagged (.reply 0) (cursorReport 1 1) ++ tagged .input left.flatten) := by
    simp
  refine ⟨history₃, _, run₃, ⟨rfl, rfl⟩, (tagged .input done.flatten).length, 0x1b, ?_, ?_⟩
  · simp only [List.length_nil, hwritten]
    rw [List.getElem?_append_right le_rfl, Nat.sub_self]
    rfl
  · simp only [List.length_nil, hwritten]
    rw [List.take_left, inputPart_input]

/-- Where a chunk ends inside a character, so does a payload. -/
theorem exists_boundary_insideChar {inputs : List Input} {t : String} (hmem : .text t ∈ inputs)
    (ht : ¬ ChunksWhole t) : ∃ n, Boundary inputs n ∧ InsideChar inputs n := by
  obtain ⟨before, after, rfl⟩ := List.append_of_mem hmem
  simp only [ChunksWhole, not_forall, not_not] at ht
  obtain ⟨cs, c, ds, k, hsplit, hlo, hhi⟩ := ht
  have hlength := length_utf8_of_split hsplit
  refine ⟨(bytesOf before).length + textChunkBytes * k, ?_, ?_⟩
  · refine ⟨payloadsOf before ++ (chunks textChunkBytes (utf8 t.toList)).take k,
      (chunks textChunkBytes (utf8 t.toList)).drop k ++ payloadsOf after, ?_, ?_⟩
    · rw [payloadsOf_split, List.append_assoc, ← List.append_assoc (List.take k _),
        List.take_append_drop]
    · rw [List.flatten_append, List.length_append, flatten_payloadsOf,
        length_take_chunks (by omega)]
  · exact ⟨before, t, after, cs, c, ds, rfl, hsplit, by omega, by omega⟩

/-- For every list of inputs: under every schedule the child receives the inputs in order with
whole replies between them and none inside a character, exactly if no chunk of a text ends inside a
character. -/
theorem intact_iff_chunksWhole (inputs : List Input) :
    (∀ history this, PtyRun inputs history this → this.Finished → Intact inputs this) ↔
      ∀ t, .text t ∈ inputs → ChunksWhole t := by
  constructor
  · intro h t hmem
    by_contra ht
    obtain ⟨n, hboundary, hinside⟩ := exists_boundary_insideChar hmem ht
    obtain ⟨history, this, run, hfinished, i, byte, hentry, hn⟩ := exists_run_boundary hboundary
    exact (h history this run hfinished).whole i 0 byte hentry (hn ▸ hinside)
  · intro h history this run hfinished
    exact (Writing.run run).intact hfinished h

/-- A text of 95 letters and an accented one: its first chunk ends between the two bytes of the
last character. -/
theorem not_intact_accent :
    ¬ ∀ inputs history this, PtyRun inputs history this → this.Finished → Intact inputs this := by
  intro h
  have ht : ¬ ChunksWhole (String.ofList (List.replicate 95 'a' ++ ['é'])) := by
    intro hwhole
    have hletters : (utf8 (List.replicate 95 'a')).length = 95 := by decide
    refine hwhole (List.replicate 95 'a') 'é' [] 1 (by simp) ⟨?_, ?_⟩
    · rw [hletters]
      decide
    · rw [hletters]
      decide
  obtain ⟨n, hboundary, hinside⟩ := exists_boundary_insideChar (List.mem_singleton.mpr rfl) ht
  obtain ⟨history, this, run, hfinished, i, byte, hentry, hn⟩ := exists_run_boundary hboundary
  exact (h _ history this run hfinished).whole i 0 byte hentry (hn ▸ hinside)

end ManInTheBox.Host
