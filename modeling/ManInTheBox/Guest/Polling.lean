import ManInTheBox.Host.Session
import ManInTheBox.Host.Transcript
import ManInTheBox.Library.Utf8
import Mathlib.Data.List.DropRight

/-! # When a policy acts

The host polls the policy again and again, and a poll reads the end of the transcript while the
child goes on writing. The policy itself is asked only when two polls in a row have seen the same
text, and not in the first seconds of a session.
-/

namespace ManInTheBox.Guest

open Library Host

structure IdleTracker where
  previousContents : Option (List Char)
  startupGraceUntilNs : Option ℕ

def IdleTracker.default : IdleTracker := ⟨none, none⟩

def detectIdleAt (tracker : IdleTracker) (contents : List Char) (nowNs startupGraceNs : ℕ) :
    IdleTracker × Bool :=
  let idle :=
    match tracker.previousContents with
    | some previous => previous == contents
    | none => false
  let startupGraceUntilNs := tracker.startupGraceUntilNs.getD (saturatingAdd nowNs startupGraceNs)
  (⟨some contents, some startupGraceUntilNs⟩, idle && decide (startupGraceUntilNs ≤ nowNs))

@[simp] theorem detectIdleAt_tracker (tracker : IdleTracker) (contents : List Char)
    (nowNs startupGraceNs : ℕ) : (detectIdleAt tracker contents nowNs startupGraceNs).1 =
      ⟨some contents, some (tracker.startupGraceUntilNs.getD (saturatingAdd nowNs startupGraceNs))⟩ :=
  rfl

theorem detectIdleAt_idle (tracker : IdleTracker) (contents : List Char)
    (nowNs startupGraceNs : ℕ) : (detectIdleAt tracker contents nowNs startupGraceNs).2 = true ↔
      tracker.previousContents = some contents ∧
      tracker.startupGraceUntilNs.getD (saturatingAdd nowNs startupGraceNs) ≤ nowNs := by
  cases hprevious : tracker.previousContents <;> simp [detectIdleAt, hprevious]

/-- In nanoseconds. -/
def startupGrace : ℕ := 5 * 10 ^ 9

def defaultTerminalMaxBytes : ℕ := 512 * 1024

/-- An implementation of `Policy`. -/
structure Policy (ρ : Type) where
  default : ρ
  act : ρ → List Char → ρ × Except String Action

/-- `__PolicySessionState`, with the transcript that it reads and the monotonic clock. -/
structure PolledSession (ρ : Type) where
  clock : ℕ
  transcript : TranscriptBuffer
  idle : IdleTracker
  policy : ρ

inductive PolledStep
  | append (chunk : List UInt8)
  | poll (nowNs : ℕ)

inductive Polled
  | wait
  | act (contents : List Char) (result : Except String Action)

variable {ρ : Type}

def PolledSession.start (policy : Policy ρ) : PolledSession ρ :=
  ⟨0, .default, .default, policy.default⟩

def PolledSession.step (policy : Policy ρ) (maxBytes : ℕ) (this : PolledSession ρ) :
    PolledStep → Option (PolledSession ρ × Option Polled)
  | .append chunk =>
    some ({ this with transcript := appendChunk this.transcript chunk maxBytes }, none)
  | .poll nowNs =>
    if this.clock ≤ nowNs then
      let contents :=
        fromUtf8Lossy (transcriptSnapshotBytes this.transcript defaultTerminalMaxBytes)
      let detected := detectIdleAt this.idle contents nowNs startupGrace
      if !detected.2 then some ({ this with clock := nowNs, idle := detected.1 }, some .wait)
      else
        let answer := policy.act this.policy contents
        some ({ this with clock := nowNs, idle := detected.1, policy := answer.1 },
          some (.act contents answer.2))
    else none

abbrev PolledTransition (ρ : Type) := Transition (PolledSession ρ) PolledStep (Option Polled)

abbrev PolledRun (policy : Policy ρ) (maxBytes : ℕ) :=
  Run (PolledSession.step policy maxBytes) (PolledSession.start policy)

/-! ## What a poll sees -/

/-- What the child has written. -/
def writtenIn (history : List (PolledTransition ρ)) : List UInt8 :=
  history.flatMap fun taken =>
    match taken.label with
    | .append chunk => chunk
    | .poll _ => []

def PolledStep.time : PolledStep → Option ℕ
  | .poll nowNs => some nowNs
  | .append _ => none

/-- The time of the first poll. -/
def firstPoll (history : List (PolledTransition ρ)) : Option ℕ :=
  history.findSome? fun taken => taken.label.time

/-- The text that is seen of so much output. -/
def seen (maxBytes : ℕ) (output : List UInt8) : List Char :=
  fromUtf8Lossy (output.rtake (min defaultTerminalMaxBytes maxBytes))

section Suffixes

variable {α : Type} (l l' : List α) (n m : ℕ)

theorem rtake_rtake : (l.rtake m).rtake n = l.rtake (min n m) := by
  simp only [List.rtake_eq_reverse_take_reverse, List.reverse_reverse, List.take_take]

/-- Nothing is lost by forgetting all but the end early. -/
theorem rtake_append_rtake : (l.rtake n ++ l').rtake n = (l ++ l').rtake n := by
  simp only [List.rtake_eq_reverse_take_reverse, List.reverse_append, List.reverse_reverse,
    List.take_append, List.take_take, List.length_reverse]
  congr 3
  omega

end Suffixes

theorem appendChunk_bytes (transcript : TranscriptBuffer) (chunk : List UInt8) (maxBytes : ℕ) :
    (appendChunk transcript chunk maxBytes).bytes = (transcript.bytes ++ chunk).rtake maxBytes := by
  rw [appendChunk, trimTranscript, List.rtake]
  split_ifs with hover
  · rfl
  · rw [Nat.sub_eq_zero_of_le (not_lt.mp hover), List.drop_zero]

theorem snapshot_eq (transcript : TranscriptBuffer) (maxBytes : ℕ) :
    transcriptSnapshotBytes transcript maxBytes = transcript.bytes.rtake maxBytes := by
  rw [transcriptSnapshotBytes, List.rtake]
  congr 1
  omega

/-! ## When the policy is asked -/

section Runs

variable {policy : Policy ρ} {maxBytes : ℕ} {history before between : List (PolledTransition ρ)}
  {s : PolledSession ρ} {u v : PolledTransition ρ}

/-- What the session knows of the output and of the polls so far. -/
structure Recalls (maxBytes : ℕ) (history : List (PolledTransition ρ)) (s : PolledSession ρ) :
    Prop where
  transcript : s.transcript.bytes = (writtenIn history).rtake maxBytes
  grace : s.idle.startupGraceUntilNs =
    (firstPoll history).map fun nowNs => saturatingAdd nowNs startupGrace
  fresh : firstPoll history = none → s.idle.previousContents = none
  previous : ∀ before u between nowNs, history = before ++ u :: between →
    u.label = .poll nowNs → firstPoll between = none →
    s.idle.previousContents = some (seen maxBytes (writtenIn before))

theorem writtenIn_concat (history : List (PolledTransition ρ)) (u : PolledTransition ρ) :
    writtenIn (history ++ [u]) = writtenIn history ++ writtenIn [u] :=
  List.flatMap_append

theorem writtenIn_eq_of_poll {nowNs : ℕ} (hu : u.label = .poll nowNs) : writtenIn [u] = [] := by
  simp [writtenIn, hu]

theorem seen_eq (h : Recalls maxBytes history s) :
    fromUtf8Lossy (transcriptSnapshotBytes s.transcript defaultTerminalMaxBytes) =
      seen maxBytes (writtenIn history) := by
  rw [snapshot_eq, h.transcript, rtake_rtake, seen]

theorem Recalls.start (policy : Policy ρ) (maxBytes : ℕ) :
    Recalls maxBytes [] (PolledSession.start policy) := by
  constructor
  · simp [PolledSession.start, TranscriptBuffer.default, writtenIn]
  · simp [PolledSession.start, IdleTracker.default, firstPoll]
  · simp [PolledSession.start, IdleTracker.default]
  · intro before u between nowNs h
    simp at h

theorem Recalls.append (h : Recalls maxBytes history s) {chunk : List UInt8}
    (hu : u.label = .append chunk) :
    Recalls maxBytes (history ++ [u])
      { s with transcript := appendChunk s.transcript chunk maxBytes } := by
  have hnone : firstPoll [u] = none := by simp [firstPoll, hu, PolledStep.time]
  have hfirst : firstPoll (history ++ [u]) = firstPoll history := by
    rw [firstPoll, List.findSome?_append, ← firstPoll, ← firstPoll, hnone, Option.or_none]
  refine ⟨?_, by rw [hfirst]; exact h.grace, fun hfresh => h.fresh (hfirst ▸ hfresh), ?_⟩
  · have hchunk : writtenIn [u] = chunk := by simp [writtenIn, hu]
    rw [appendChunk_bytes, h.transcript, rtake_append_rtake, writtenIn_concat, hchunk]
  · intro before w between nowNs heq hw hbetween
    rcases List.eq_nil_or_concat between with rfl | ⟨between', last, rfl⟩
    · obtain ⟨rfl, hlast⟩ := List.append_inj' heq rfl
      obtain rfl := (List.cons.inj hlast).1
      rw [hu] at hw
      cases hw
    · rw [List.concat_eq_append, ← List.cons_append, ← List.append_assoc] at heq
      obtain ⟨rfl, -⟩ := List.append_inj' heq rfl
      refine h.previous before w between' nowNs rfl hw ?_
      rw [List.concat_eq_append, firstPoll, List.findSome?_append] at hbetween
      exact (Option.or_eq_none_iff.mp hbetween).1

/-- Whatever the policy answers, a poll leaves the text it has seen behind. -/
theorem Recalls.poll (h : Recalls maxBytes history s) {nowNs clock : ℕ} {state : ρ}
    (hu : u.label = .poll nowNs) :
    Recalls maxBytes (history ++ [u])
      { s with
        clock := clock
        idle := (detectIdleAt s.idle (seen maxBytes (writtenIn history)) nowNs startupGrace).1
        policy := state } := by
  have hwritten : writtenIn (history ++ [u]) = writtenIn history := by
    rw [writtenIn_concat, writtenIn_eq_of_poll hu, List.append_nil]
  have htime : firstPoll [u] = some nowNs := by simp [firstPoll, hu, PolledStep.time]
  have hfirst : firstPoll (history ++ [u]) = some ((firstPoll history).getD nowNs) := by
    rw [firstPoll, List.findSome?_append]
    change (firstPoll history).or (firstPoll [u]) = _
    rw [htime]
    cases firstPoll history <;> rfl
  refine ⟨by rw [hwritten]; exact h.transcript, ?_, fun hfresh => ?_, ?_⟩
  · rw [hfirst, detectIdleAt_tracker, h.grace, Option.map_some]
    cases firstPoll history with
    | none => rw [Option.map_none, Option.getD_none, Option.getD_none]
    | some first => rw [Option.map_some, Option.getD_some, Option.getD_some]
  · rw [hfirst] at hfresh
    cases hfresh
  · intro before w between nowNs' heq hw hbetween
    rcases List.eq_nil_or_concat between with rfl | ⟨between', last, rfl⟩
    · obtain ⟨rfl, -⟩ := List.append_inj' heq rfl
      rw [detectIdleAt_tracker]
    · rw [List.concat_eq_append, ← List.cons_append, ← List.append_assoc] at heq
      obtain ⟨-, hlast⟩ := List.append_inj' heq rfl
      obtain rfl := List.singleton_inj.mp hlast
      rw [List.concat_eq_append, firstPoll, List.findSome?_append] at hbetween
      have hpolled := (Option.or_eq_none_iff.mp hbetween).2
      rw [← firstPoll, htime] at hpolled
      cases hpolled

/-- A poll waits, or asks the policy about the text it sees. -/
theorem step_poll {t : PolledSession ρ} {nowNs : ℕ} {output : Option Polled}
    (h : Recalls maxBytes history s)
    (taken : s.step policy maxBytes (.poll nowNs) = some (t, output)) :
    ∃ clock state, t = { s with
        clock := clock
        idle := (detectIdleAt s.idle (seen maxBytes (writtenIn history)) nowNs startupGrace).1
        policy := state } ∧
      if (detectIdleAt s.idle (seen maxBytes (writtenIn history)) nowNs startupGrace).2 = true then
        output = some (.act (seen maxBytes (writtenIn history))
          (policy.act s.policy (seen maxBytes (writtenIn history))).2)
      else output = some .wait := by
  simp only [PolledSession.step, seen_eq h] at taken
  generalize detectIdleAt s.idle (seen maxBytes (writtenIn history)) nowNs startupGrace = detected
    at taken ⊢
  split_ifs at taken with hclock hacts
  · cases taken
    exact ⟨_, _, rfl, by rw [if_neg (by simpa using hacts)]⟩
  · cases taken
    exact ⟨_, _, rfl, by rw [if_pos (by simpa using hacts)]⟩

theorem recalls_of_run (run : PolledRun policy maxBytes history s) : Recalls maxBytes history s := by
  refine run.historyInvariant (Recalls maxBytes) (.start policy maxBytes) ?_
  rintro history s label t output - h taken
  cases label with
  | append chunk =>
    cases taken
    exact h.append rfl
  | poll nowNs =>
    obtain ⟨clock, state, rfl, -⟩ := step_poll h taken
    exact h.poll rfl

/-! ## Polls in a row -/

/-- Two polls with none in between, the first one after the steps of `before`. -/
structure InRow (history before : List (PolledTransition ρ)) (u : PolledTransition ρ)
    (between : List (PolledTransition ρ)) (v : PolledTransition ρ) (nowNs : ℕ) : Prop where
  split : ∃ after, history = (before ++ u :: between) ++ v :: after
  first : ∃ earlier, u.label = .poll earlier
  second : v.label = .poll nowNs
  between : firstPoll between = none

/-- No byte decodes to nothing. -/
theorem fromUtf8Lossy_eq_nil {bytes : List UInt8} (h : fromUtf8Lossy bytes = []) : bytes = [] := by
  cases bytes with
  | nil => rfl
  | cons byte rest =>
    rw [fromUtf8Lossy, decodeLossyAfter] at h
    split at h <;> cases h

theorem seen_of_le {output : List UInt8}
    (h : output.length ≤ min defaultTerminalMaxBytes maxBytes) :
    seen maxBytes output = fromUtf8Lossy output := by
  rw [seen, List.rtake, Nat.sub_eq_zero_of_le h, List.drop_zero]

/-- Whole text that is still all to be seen looks different with more output. -/
theorem eq_nil_of_seen {text : List Char} {output : List UInt8}
    (hlength : (encodeUtf8 text ++ output).length ≤ min defaultTerminalMaxBytes maxBytes)
    (hsame : seen maxBytes (encodeUtf8 text) = seen maxBytes (encodeUtf8 text ++ output)) :
    output = [] := by
  have hbefore : (encodeUtf8 text).length ≤ min defaultTerminalMaxBytes maxBytes := by
    rw [List.length_append] at hlength
    exact (Nat.le_add_right _ _).trans hlength
  rw [seen_of_le hbefore, seen_of_le hlength, fromUtf8Lossy_encodeUtf8,
    fromUtf8Lossy_encodeUtf8_append] at hsame
  exact fromUtf8Lossy_eq_nil (List.self_eq_append_right.mp hsame)

/-- However output and polls interleave, and whatever the policy: the first poll waits, and a later
one asks the policy about the text it sees exactly if the poll before has seen the same text and the
first seconds are over. As long as all output can be seen and was whole text at the poll before, the
child has then been silent in between. -/
theorem policy_acts_when_quiet (run : PolledRun policy maxBytes history s) :
    (∀ before v after nowNs, history = before ++ v :: after → v.label = .poll nowNs →
      firstPoll before = none → v.output = some .wait) ∧
    ∀ before u between v nowNs, InRow history before u between v nowNs →
      let contents := seen maxBytes (writtenIn before ++ writtenIn between)
      ((∃ result, v.output = some (.act contents result)) ↔
        seen maxBytes (writtenIn before) = contents ∧ ∃ first,
          firstPoll (before ++ [u]) = some first ∧ saturatingAdd first startupGrace ≤ nowNs) ∧
      (v.output = some .wait ∨ ∃ result, v.output = some (.act contents result)) ∧
      ∀ text, writtenIn before = encodeUtf8 text →
        (writtenIn before ++ writtenIn between).length ≤ min defaultTerminalMaxBytes maxBytes →
        (∃ result, v.output = some (.act contents result)) → writtenIn between = [] := by
  refine ⟨?_, ?_⟩
  · rintro before ⟨source, label, output, target⟩ after nowNs rfl rfl hnone
    obtain ⟨hpast, taken⟩ := run.cut
    have hrecalls := recalls_of_run hpast
    obtain ⟨clock, state, -, houtput⟩ := step_poll hrecalls taken
    rw [if_neg] at houtput
    · exact houtput
    · rw [detectIdleAt_idle, hrecalls.fresh hnone]
      simp
  · rintro before u between ⟨source, label, output, target⟩ nowNs
      ⟨⟨after, rfl⟩, ⟨earlier, hu⟩, rfl, hbetween⟩ contents
    obtain ⟨hpast, taken⟩ := run.cut
    have hrecalls := recalls_of_run hpast
    obtain ⟨clock, state, -, houtput⟩ := step_poll hrecalls taken
    have hwritten : writtenIn (before ++ u :: between) = writtenIn before ++ writtenIn between := by
      rw [← List.singleton_append, ← List.append_assoc, writtenIn, List.flatMap_append, ← writtenIn,
        ← writtenIn, writtenIn_concat, writtenIn_eq_of_poll hu, List.append_nil]
    have hfirst : firstPoll (before ++ u :: between) = firstPoll (before ++ [u]) := by
      rw [← List.singleton_append, ← List.append_assoc, firstPoll, List.findSome?_append,
        ← firstPoll, ← firstPoll, hbetween, Option.or_none]
    have hpolled : ∃ first, firstPoll (before ++ [u]) = some first := by
      rw [firstPoll, List.findSome?_append, ← firstPoll, ← firstPoll]
      have htime : firstPoll [u] = some earlier := by simp [firstPoll, hu, PolledStep.time]
      rw [htime]
      cases firstPoll before <;> simp
    obtain ⟨first, hfirst'⟩ := hpolled
    have hgrace := hrecalls.grace
    rw [hfirst, hfirst', Option.map_some] at hgrace
    have hprevious := hrecalls.previous before u between earlier rfl hu hbetween
    have hacts : (detectIdleAt source.idle contents nowNs startupGrace).2 = true ↔
        seen maxBytes (writtenIn before) = contents ∧ ∃ first,
          firstPoll (before ++ [u]) = some first ∧ saturatingAdd first startupGrace ≤ nowNs := by
      rw [detectIdleAt_idle, hprevious, hgrace, Option.some_inj, Option.getD_some, hfirst']
      simp only [Option.some_inj, exists_eq_left']
    rw [hwritten] at houtput
    change if (detectIdleAt source.idle contents nowNs startupGrace).2 = true then
        output = some (.act contents (policy.act source.policy contents).2)
      else output = some .wait at houtput
    have hboth : (∃ result, output = some (.act contents result)) ↔
        (detectIdleAt source.idle contents nowNs startupGrace).2 = true := by
      split_ifs at houtput with hdetected
      · exact iff_of_true ⟨_, houtput⟩ hdetected
      · rw [houtput]
        exact iff_of_false (by simp) hdetected
    refine ⟨hboth.trans hacts, ?_, fun text htext hlength hact => ?_⟩
    · split_ifs at houtput with hdetected
      · exact .inr ⟨_, houtput⟩
      · exact .inl houtput
    · have hsame := (hacts.mp (hboth.mp hact)).1
      simp only [contents, htext] at hlength hsame
      exact eq_nil_of_seen hlength hsame

/-- A policy that presses Enter. -/
def enterPolicy : Policy Unit := ⟨(), fun _ _ => ((), .ok (.perturb [.key .enter]))⟩

def quietSteps : List PolledStep :=
  [.append [36], .poll 0, .poll (4 * 10 ^ 9), .append [32], .poll (6 * 10 ^ 9), .poll (7 * 10 ^ 9)]

/-- The last two polls see the prompt and the space after it, and the seconds are over. -/
theorem policy_acts_when_quiet_prompt :
    (trace (PolledSession.step enterPolicy 1024) (.start enterPolicy) quietSteps).map
        Transition.output =
      [none, some .wait, some .wait, none, some .wait,
        some (.act ['$', ' '] (.ok (.perturb [.key .enter])))] ∧
    ∀ before v after nowNs,
      trace (PolledSession.step enterPolicy 1024) (.start enterPolicy) quietSteps =
        before ++ v :: after → v.label = .poll nowNs →
      firstPoll before = none → v.output = some .wait :=
  ⟨rfl, (@policy_acts_when_quiet Unit enterPolicy 1024 _ _ (Run.of_labels rfl)).1⟩

end Runs

end ManInTheBox.Guest
