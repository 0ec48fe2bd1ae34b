import Mathlib.Data.List.Chain
import Mathlib.Logic.Function.Basic
import Mathlib.Tactic
import ManInTheBox.Library.Run

/-! # The terminal transcript

The reader thread of the pseudo terminal appends what the child writes and evicts
from the front whatever exceeds the limit; policies read by absolute cursors. Every
access holds the lock of the buffer from its first look at it to its last.
-/

namespace ManInTheBox.Host

open Library

/-- `a.saturating_add(b)` on `u64`. -/
def saturatingAdd (a b : ℕ) : ℕ := min (a + b) (2 ^ 64 - 1)

theorem saturatingAdd_of_lt {a b : ℕ} (h : a + b < 2 ^ 64) : saturatingAdd a b = a + b := by
  rw [saturatingAdd]
  omega

/-- The bytes that are kept, and the position of the first of them in the output of the child. -/
structure TranscriptBuffer where
  start : ℕ
  bytes : List UInt8
  deriving DecidableEq

def TranscriptBuffer.default : TranscriptBuffer := ⟨0, []⟩

def trimTranscript (transcript : TranscriptBuffer) (maxBytes : ℕ) : TranscriptBuffer :=
  if maxBytes < transcript.bytes.length then
    let overflow := transcript.bytes.length - maxBytes
    { bytes := transcript.bytes.drop overflow
      start := saturatingAdd transcript.start overflow }
  else transcript

/-- What `read_pty_output` does with a chunk while it holds the lock. -/
def appendChunk (transcript : TranscriptBuffer) (chunk : List UInt8) (maxBytes : ℕ) :
    TranscriptBuffer :=
  trimTranscript { transcript with bytes := transcript.bytes ++ chunk } maxBytes

def transcriptHead (transcript : TranscriptBuffer) : ℕ :=
  saturatingAdd transcript.start transcript.bytes.length

def transcriptSnapshotBytes (transcript : TranscriptBuffer) (maxBytes : ℕ) : List UInt8 :=
  let keep := min transcript.bytes.length maxBytes
  let startIndex := transcript.bytes.length - keep
  transcript.bytes.drop startIndex

def transcriptBytesSince (transcript : TranscriptBuffer) (cursor maxBytes : ℕ) : ℕ × List UInt8 :=
  let availableStart := transcript.start
  let availableEnd := saturatingAdd transcript.start transcript.bytes.length
  let start := min (max cursor availableStart) availableEnd
  let offset := start - availableStart
  let keep := min (transcript.bytes.length - offset) maxBytes
  let bytes := (transcript.bytes.drop offset).take keep
  (saturatingAdd start bytes.length, bytes)

/-! ## Accesses -/

/-- The buffer, and the cursor that every reader was last given. -/
structure TranscriptState where
  buffer : TranscriptBuffer
  cursors : ℕ → Option ℕ

def TranscriptState.initial : TranscriptState := ⟨.default, fun _ => none⟩

def TranscriptState.give (s : TranscriptState) (reader cursor : ℕ) : TranscriptState :=
  { s with cursors := Function.update s.cursors reader (some cursor) }

@[simp] theorem TranscriptState.give_self (s : TranscriptState) (reader cursor : ℕ) :
    (s.give reader cursor).cursors reader = some cursor := Function.update_self ..

theorem TranscriptState.give_of_ne (s : TranscriptState) {reader other : ℕ} (h : other ≠ reader)
    (cursor : ℕ) : (s.give reader cursor).cursors other = s.cursors other :=
  Function.update_of_ne h ..

inductive Access
  | append (chunk : List UInt8)
  | head
  | snapshot (maxBytes : ℕ)
  /-- A reader begins with a cursor of its own choice, not past the head. -/
  | begin (reader cursor : ℕ)
  /-- `read_since` with the cursor the reader was last given. -/
  | readSince (reader maxBytes : ℕ)

inductive Answer
  | none
  | head (cursor : ℕ)
  | snapshot (bytes : List UInt8)
  | since (cursor : ℕ) (bytes : List UInt8)

def transcriptStep (maxBytes : ℕ) (s : TranscriptState) : Access → Option (TranscriptState × Answer)
  | .append chunk => some ({ s with buffer := appendChunk s.buffer chunk maxBytes }, .none)
  | .head => some (s, .head (transcriptHead s.buffer))
  | .snapshot m => some (s, .snapshot (transcriptSnapshotBytes s.buffer m))
  | .begin reader cursor =>
    if s.cursors reader = none ∧ cursor ≤ transcriptHead s.buffer then
      some (s.give reader cursor, .none)
    else none
  | .readSince reader m =>
    match s.cursors reader with
    | none => none
    | some cursor =>
      let (next, bytes) := transcriptBytesSince s.buffer cursor m
      some (s.give reader next, .since next bytes)

abbrev TranscriptTransition := Transition TranscriptState Access Answer

abbrev TranscriptRun (maxBytes : ℕ) :=
  Run (transcriptStep maxBytes) TranscriptState.initial

/-! ## What the accesses amount to -/

/-- All bytes the reader thread has appended. -/
def stream (history : List TranscriptTransition) : List UInt8 :=
  history.flatMap fun u =>
    match u.label with
    | .append chunk => chunk
    | _ => []

/-- One `read_since` of a reader: the cursor it passed, the slice of the stream it was given, and
how much of the stream had been evicted by then. -/
structure Slice where
  cursor : ℕ
  start : ℕ
  stop : ℕ
  bytes : List UInt8
  evicted : ℕ
  deriving DecidableEq

def sliceOf (reader : ℕ) (u : TranscriptTransition) : Option Slice :=
  match u.label, u.output, u.source.cursors reader with
  | .readSince reader' _, .since next bytes, some cursor =>
    if reader' = reader then
      some ⟨cursor, next - bytes.length, next, bytes, u.source.buffer.start⟩
    else none
  | _, _, _ => none

/-- The slices a reader was given, in order. -/
def slices (reader : ℕ) (history : List TranscriptTransition) : List Slice :=
  history.filterMap (sliceOf reader)

/-- The buffer holds the end of the stream, as much of it as the limit allows. -/
structure Retains (maxBytes : ℕ) (stream : List UInt8) (buffer : TranscriptBuffer) : Prop where
  start : buffer.start = stream.length - maxBytes
  bytes : buffer.bytes = stream.drop buffer.start

variable {maxBytes : ℕ} {bytes : List UInt8} {buffer : TranscriptBuffer}

theorem Retains.length (h : Retains maxBytes bytes buffer) :
    buffer.start + buffer.bytes.length = bytes.length := by
  rw [h.bytes, List.length_drop, h.start]
  omega

theorem Retains.head (h : Retains maxBytes bytes buffer) (hsize : bytes.length < 2 ^ 64) :
    transcriptHead buffer = bytes.length := by
  have hlength := h.length
  rw [transcriptHead, saturatingAdd_of_lt (by omega), hlength]

theorem Retains.append (h : Retains maxBytes bytes buffer) {chunk : List UInt8}
    (hsize : (bytes ++ chunk).length < 2 ^ 64) :
    Retains maxBytes (bytes ++ chunk) (appendChunk buffer chunk maxBytes) := by
  have hlength := h.length
  have hstart := h.start
  have hkept : buffer.bytes ++ chunk = (bytes ++ chunk).drop buffer.start := by
    rw [h.bytes, List.drop_append_of_le_length (by omega)]
  rw [List.length_append] at hsize
  rw [appendChunk, trimTranscript]
  split_ifs with hoverflow
  · simp only [List.length_append] at hoverflow ⊢
    have hsum : saturatingAdd buffer.start (buffer.bytes.length + chunk.length - maxBytes) =
        bytes.length + chunk.length - maxBytes := by
      rw [saturatingAdd_of_lt (by omega)]
      omega
    constructor
    · simp only [hsum, List.length_append]
    · simp only [hsum, hkept, List.drop_drop]
      congr 1
      omega
  · simp only [List.length_append] at hoverflow
    constructor
    · simp only [List.length_append]
      omega
    · exact hkept

/-- A snapshot is the end of the stream. -/
theorem Retains.snapshot (h : Retains maxBytes bytes buffer) (m : ℕ) :
    transcriptSnapshotBytes buffer m =
      bytes.drop (bytes.length - min m buffer.bytes.length) := by
  have hlength := h.length
  rw [transcriptSnapshotBytes, h.bytes, List.drop_drop]
  congr 1
  rw [List.length_drop]
  omega

/-- A read begins at the cursor, or where the evicted part ends, and goes on from there. -/
theorem Retains.since (h : Retains maxBytes bytes buffer) (hsize : bytes.length < 2 ^ 64)
    {cursor : ℕ} (hcursor : cursor ≤ bytes.length) (m : ℕ) :
    ∃ n, transcriptBytesSince buffer cursor m =
      (max cursor buffer.start + n, (bytes.drop (max cursor buffer.start)).take n) ∧
      max cursor buffer.start + n ≤ bytes.length := by
  have hlength := h.length
  refine ⟨min (bytes.length - max cursor buffer.start) m, ?_, by omega⟩
  have hend : saturatingAdd buffer.start buffer.bytes.length = bytes.length := by
    rw [saturatingAdd_of_lt (by omega), hlength]
  have hmin : min (max cursor buffer.start) bytes.length = max cursor buffer.start := by omega
  have hdrop : buffer.bytes.drop (max cursor buffer.start - buffer.start) =
      bytes.drop (max cursor buffer.start) := by
    rw [h.bytes, List.drop_drop]
    congr 1
    omega
  have hkeep : buffer.bytes.length - (max cursor buffer.start - buffer.start) =
      bytes.length - max cursor buffer.start := by omega
  have hlen : ((bytes.drop (max cursor buffer.start)).take
      (min (bytes.length - max cursor buffer.start) m)).length =
        min (bytes.length - max cursor buffer.start) m := by
    rw [List.length_take, List.length_drop]
    omega
  simp only [transcriptBytesSince, hend, hmin, hdrop, hkeep, hlen]
  rw [saturatingAdd_of_lt (by omega)]

/-! ## Every run -/

/-- The slice is that part of the stream. It begins at the cursor; where it begins later, everything
before it had been evicted. -/
structure Slice.Exact (stream : List UInt8) (x : Slice) : Prop where
  cursor_le : x.cursor ≤ x.start
  start_le : x.start ≤ x.stop
  stop_le : x.stop ≤ stream.length
  bytes : x.bytes = (stream.drop x.start).take (x.stop - x.start)
  gap : x.cursor < x.start → x.start ≤ x.evicted

theorem Slice.Exact.append {x : Slice} (h : x.Exact bytes) (chunk : List UInt8) :
    x.Exact (bytes ++ chunk) where
  cursor_le := h.cursor_le
  start_le := h.start_le
  stop_le := by
    have hstop := h.stop_le
    rw [List.length_append]
    omega
  bytes := by
    have hstart := h.start_le
    have hstop := h.stop_le
    rw [h.bytes, List.drop_append_of_le_length (by omega), List.take_append_of_le_length]
    rw [List.length_drop]
    omega
  gap := h.gap

/-- The second slice comes after the first; between them is nothing but what was evicted. -/
def Follows (x y : Slice) : Prop := x.stop ≤ y.start ∧ (x.stop < y.start → y.start ≤ y.evicted)

theorem stream_append (history : List TranscriptTransition) (u : TranscriptTransition) :
    stream (history ++ [u]) = stream history ++ stream [u] := by
  rw [stream, List.flatMap_append]
  rfl

theorem slices_of_none {reader : ℕ} {u : TranscriptTransition} (h : sliceOf reader u = none)
    (history : List TranscriptTransition) :
    slices reader (history ++ [u]) = slices reader history := by
  simp [slices, h]

theorem slices_of_some {reader : ℕ} {u : TranscriptTransition} {x : Slice}
    (h : sliceOf reader u = some x) (history : List TranscriptTransition) :
    slices reader (history ++ [u]) = slices reader history ++ [x] := by
  simp [slices, h]

/-- What one reader has been given by now, and where it goes on. -/
structure Follower (stream : List UInt8) (slices : List Slice) (cursor : Option ℕ) : Prop where
  exact : ∀ x ∈ slices, x.Exact stream
  chain : slices.IsChain Follows
  started : cursor = none → slices = []
  cursor_le : ∀ c, cursor = some c → c ≤ stream.length
  last : ∀ c, cursor = some c → ∀ x ∈ slices.getLast?, x.stop = c

theorem Follower.append {given : List Slice} {cursor : Option ℕ}
    (h : Follower bytes given cursor) (chunk : List UInt8) :
    Follower (bytes ++ chunk) given cursor where
  exact x hx := (h.exact x hx).append chunk
  chain := h.chain
  started := h.started
  cursor_le c hc := by
    have hle := h.cursor_le c hc
    rw [List.length_append]
    omega
  last := h.last

theorem Follower.begin {given : List Slice} (h : Follower bytes given none) {c : ℕ}
    (hc : c ≤ bytes.length) : Follower bytes given (some c) where
  exact := h.exact
  chain := h.chain
  started hnone := by cases hnone
  cursor_le c' hc' := Option.some.inj hc' ▸ hc
  last c' hc' x hx := by
    rw [h.started rfl] at hx
    cases hx

theorem Follower.read {given : List Slice} {x : Slice} (h : Follower bytes given (some x.cursor))
    (hx : x.Exact bytes) : Follower bytes (given ++ [x]) (some x.stop) where
  exact y hy := by
    rcases List.mem_append.mp hy with hold | hnew
    · exact h.exact y hold
    · exact List.mem_singleton.mp hnew ▸ hx
  chain := by
    rw [List.isChain_append]
    refine ⟨h.chain, by simp, ?_⟩
    intro y hy z hz
    have hstop := h.last x.cursor rfl y hy
    obtain rfl : x = z := by simpa using hz
    rw [Follows, hstop]
    exact ⟨hx.cursor_le, hx.gap⟩
  started hnone := by cases hnone
  cursor_le c hc := Option.some.inj hc ▸ hx.stop_le
  last c hc y hy := by
    obtain rfl : x = y := by simpa using hy
    exact Option.some.inj hc

/-- The state of the buffer and of all readers after a run. -/
structure Exact (maxBytes : ℕ) (history : List TranscriptTransition) (s : TranscriptState) :
    Prop where
  retains : Retains maxBytes (stream history) s.buffer
  readers : ∀ reader, Follower (stream history) (slices reader history) (s.cursors reader)

theorem Exact.read {history : List TranscriptTransition} {s : TranscriptState}
    (h : Exact maxBytes history s) (hsize : (stream history).length < 2 ^ 64) {reader cursor : ℕ}
    (hcursor : s.cursors reader = some cursor) (m : ℕ) :
    ∃ x : Slice, x.cursor = cursor ∧ x.Exact (stream history) ∧ x.evicted = s.buffer.start ∧
      transcriptBytesSince s.buffer cursor m = (x.stop, x.bytes) ∧
      x.start = x.stop - x.bytes.length := by
  have hle := (h.readers reader).cursor_le cursor hcursor
  obtain ⟨n, hread, hstop⟩ := h.retains.since hsize hle m
  refine ⟨⟨cursor, max cursor s.buffer.start, max cursor s.buffer.start + n,
    ((stream history).drop (max cursor s.buffer.start)).take n, s.buffer.start⟩, rfl, ?_, rfl,
    hread, ?_⟩
  · constructor
    · exact le_max_left _ _
    · exact Nat.le_add_right _ _
    · exact hstop
    · simp
    · simp only
      omega
  · simp only [List.length_take, List.length_drop]
    omega

/-- An access that appends nothing and is no read leaves the past as it is. -/
theorem Exact.unread {history : List TranscriptTransition} {s : TranscriptState}
    {u : TranscriptTransition} (h : Exact maxBytes history s) (hstream : stream [u] = [])
    (hslice : ∀ reader, sliceOf reader u = none) : Exact maxBytes (history ++ [u]) s := by
  constructor
  · rw [stream_append, hstream, List.append_nil]
    exact h.retains
  · intro reader
    rw [stream_append, hstream, List.append_nil, slices_of_none (hslice reader)]
    exact h.readers reader

theorem Exact.step {history : List TranscriptTransition} {s t : TranscriptState} {label : Access}
    {output : Answer} (h : Exact maxBytes history s)
    (taken : transcriptStep maxBytes s label = some (t, output))
    (hsize : (stream (history ++ [⟨s, label, output, t⟩])).length < 2 ^ 64) :
    Exact maxBytes (history ++ [⟨s, label, output, t⟩]) t := by
  rw [stream_append, List.length_append] at hsize
  cases label with
  | append chunk =>
    obtain ⟨rfl, rfl⟩ := Prod.mk.inj (Option.some.inj taken)
    have hchunk (t : TranscriptState) : stream [⟨s, .append chunk, .none, t⟩] = chunk := by
      simp [stream]
    rw [hchunk] at hsize
    constructor
    · rw [stream_append, hchunk]
      exact h.retains.append (by rwa [List.length_append])
    · intro reader
      rw [stream_append, hchunk, slices_of_none rfl]
      exact (h.readers reader).append chunk
  | head =>
    obtain ⟨rfl, rfl⟩ := Prod.mk.inj (Option.some.inj taken)
    exact h.unread rfl fun _ => rfl
  | snapshot m =>
    obtain ⟨rfl, rfl⟩ := Prod.mk.inj (Option.some.inj taken)
    exact h.unread rfl fun _ => rfl
  | begin reader cursor =>
    rw [transcriptStep, h.retains.head (by omega)] at taken
    split_ifs at taken with hbegin
    obtain ⟨rfl, rfl⟩ := Prod.mk.inj (Option.some.inj taken)
    have hpast : Exact maxBytes (history ++
        [⟨s, .begin reader cursor, .none, s.give reader cursor⟩]) s := h.unread rfl fun _ => rfl
    refine ⟨hpast.retains, fun reader' => ?_⟩
    have hfollower := hpast.readers reader'
    by_cases hreader : reader' = reader
    · subst hreader
      rw [TranscriptState.give_self]
      rw [hbegin.1] at hfollower
      apply hfollower.begin
      rw [stream_append, List.length_append]
      omega
    · rwa [TranscriptState.give_of_ne s hreader]
  | readSince reader m =>
    rw [transcriptStep] at taken
    cases hcursor : s.cursors reader with
    | none =>
      rw [hcursor] at taken
      cases taken
    | some cursor =>
      obtain ⟨x, rfl, hexact, hevicted, hread, hstart⟩ := h.read (by omega) hcursor m
      rw [hcursor] at taken
      simp only [hread] at taken
      obtain ⟨rfl, rfl⟩ := Prod.mk.inj (Option.some.inj taken)
      have hstream (t : TranscriptState) :
          stream (history ++ [⟨s, .readSince reader m, .since x.stop x.bytes, t⟩]) =
            stream history := by
        rw [stream_append]
        exact List.append_nil _
      constructor
      · rw [hstream]
        exact h.retains
      · intro reader'
        have hfollower := h.readers reader'
        rw [hstream]
        by_cases hreader : reader' = reader
        · subst hreader
          rw [hcursor] at hfollower
          have hslice (t : TranscriptState) : sliceOf reader'
              ⟨s, .readSince reader' m, .since x.stop x.bytes, t⟩ = some x := by
            simp [sliceOf, hcursor, ← hstart, ← hevicted]
          rw [slices_of_some (hslice _), TranscriptState.give_self]
          exact hfollower.read hexact
        · have hslice (t : TranscriptState) : sliceOf reader'
              ⟨s, .readSince reader m, .since x.stop x.bytes, t⟩ = none := by
            cases hother : s.cursors reader' <;> simp [sliceOf, hother, Ne.symm hreader]
          rw [slices_of_none (hslice _), TranscriptState.give_of_ne s hreader]
          exact hfollower

theorem exact_of_run {history : List TranscriptTransition} {s : TranscriptState}
    (run : TranscriptRun maxBytes history s) (hsize : (stream history).length < 2 ^ 64) :
    Exact maxBytes history s := by
  revert hsize
  apply run.historyInvariant fun history s =>
    (stream history).length < 2 ^ 64 → Exact maxBytes history s
  · intro _
    have hempty : Retains maxBytes (stream []) TranscriptState.initial.buffer :=
      ⟨(Nat.zero_sub _).symm, rfl⟩
    refine ⟨hempty, fun reader => ⟨by simp [slices], by simp [slices], fun _ => rfl, ?_, ?_⟩⟩
    · intro c hc
      cases hc
    · intro c hc
      cases hc
  · intro history s label t output _ h taken hsize
    have hpast : (stream history).length < 2 ^ 64 := by
      rw [stream_append, List.length_append] at hsize
      omega
    exact (h hpast).step taken hsize

/-- Cursors are exact, for every limit and every interleaving of the accesses: the head counts the
bytes appended and never falls, the last of them are retained, a snapshot is their end, and a reader
is given one slice after the other. -/
theorem transcript_cursors_exact {history : List TranscriptTransition} {s : TranscriptState}
    (run : TranscriptRun maxBytes history s) (hsize : (stream history).length < 2 ^ 64) :
    transcriptHead s.buffer = (stream history).length ∧
    (∀ u ∈ history, transcriptHead u.source.buffer ≤ transcriptHead u.target.buffer) ∧
    s.buffer.bytes = (stream history).drop
      ((stream history).length - min (stream history).length maxBytes) ∧
    s.buffer.start = (stream history).length - s.buffer.bytes.length ∧
    (∀ m, transcriptSnapshotBytes s.buffer m = (stream history).drop
      ((stream history).length - min m s.buffer.bytes.length)) ∧
    ∀ reader, (∀ x ∈ slices reader history, x.Exact (stream history)) ∧
      (slices reader history).IsChain Follows := by
  have h := exact_of_run run hsize
  refine ⟨h.retains.head hsize, ?_, ?_, ?_, h.retains.snapshot, ?_⟩
  · intro u hu
    obtain ⟨past, later, rfl⟩ := List.append_of_mem hu
    obtain ⟨before, taken⟩ := run.cut
    have hpast : (stream (past ++ [u])).length < 2 ^ 64 := by
      rw [List.append_cons, stream, List.flatMap_append] at hsize
      rw [List.length_append] at hsize
      exact lt_of_le_of_lt (Nat.le_add_right _ _) hsize
    have hafter := (exact_of_run (before.step taken) hpast).retains.head hpast
    rw [stream_append, List.length_append] at hpast hafter
    rw [(exact_of_run before (by omega)).retains.head (by omega), hafter]
    exact Nat.le_add_right _ _
  · rw [h.retains.bytes, h.retains.start]
    congr 1
    omega
  · have hlength := h.retains.length
    omega
  · exact fun reader => ⟨(h.readers reader).exact, (h.readers reader).chain⟩

/-- Five bytes with a limit of four: a reader that is one byte behind misses nothing, one that
begins at zero misses the first byte. -/
def evictingAccesses : List Access :=
  [.begin 0 0, .begin 1 0, .append [1, 2, 3], .readSince 0 2, .append [4, 5], .readSince 0 8,
    .readSince 1 8]

theorem transcript_cursors_exact_evicting :
    (slices 0 (trace (transcriptStep 4) .initial evictingAccesses)).IsChain Follows ∧
      slices 0 (trace (transcriptStep 4) .initial evictingAccesses) =
        [⟨0, 0, 2, [1, 2], 0⟩, ⟨2, 2, 5, [3, 4, 5], 1⟩] ∧
      slices 1 (trace (transcriptStep 4) .initial evictingAccesses) =
        [⟨0, 1, 5, [2, 3, 4, 5], 1⟩] := by
  have run : TranscriptRun 4 (trace _ _ evictingAccesses) (reached _ _ evictingAccesses) :=
    Run.of_labels rfl
  exact ⟨((transcript_cursors_exact run (by decide)).2.2.2.2.2 0).2, by decide, by decide⟩

end ManInTheBox.Host
