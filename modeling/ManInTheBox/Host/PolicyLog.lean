import Mathlib.Data.List.DropRight
import ManInTheBox.Library.Utf8
import ManInTheBox.Server.Handshake

/-! # Log records of the policy

The guest writes every record as a line that begins with its level. The host collects
the bytes of the guest, cuts them into lines as they become complete, and reads the
level off the line again.
-/

namespace ManInTheBox.Host

open Library
open Server (isWhitespace)

/-! ## In the guest -/

inductive LogLevel
  | error
  | warn
  | info
  | debug
  | trace
  deriving DecidableEq

/-- `level as u8`. -/
def LogLevel.toU8 : LogLevel → UInt8
  | .error => 0
  | .warn => 1
  | .info => 2
  | .debug => 3
  | .trace => 4

/-- Whether records of a level are written, with the maximal level `max`. -/
def logEnabled (max level : LogLevel) : Bool := level.toU8 ≤ max.toU8

def levelStr : LogLevel → String
  | .error => "ERROR"
  | .warn => " WARN"
  | .info => " INFO"
  | .debug => "DEBUG"
  | .trace => "TRACE"

structure LogRecord where
  level : LogLevel
  scope : List Char
  message : List Char
  deriving DecidableEq

namespace LogRecord

/-- The text of a record behind its level. -/
def text (record : LogRecord) : List Char :=
  '[' :: record.scope ++ ']' :: ' ' :: record.message

/-- The line of a record, without the newline. -/
def line (record : LogRecord) : List Char := (levelStr record.level).toList ++ ' ' :: record.text

/-- `_sdk_log`: the bytes that are written for a record. -/
def sdkLog (max : LogLevel) (record : LogRecord) : List UInt8 :=
  if logEnabled max record.level then encodeUtf8 (record.line ++ ['\n']) else []

end LogRecord

/-! ## In the host -/

inductive PolicyLogLevel
  | error
  | warn
  | info
  | debug
  | trace
  deriving DecidableEq

/-- What `tracing` gets. -/
structure PolicyLogEvent where
  level : PolicyLogLevel
  stream : String
  message : List Char
  deriving DecidableEq

structure PolicyLogState where
  stream : String
  pending : List UInt8
  deriving DecidableEq

def policyLogTags : List (String × PolicyLogLevel) :=
  [("ERROR ", .error), (" WARN ", .warn), (" INFO ", .info), ("DEBUG ", .debug),
    ("TRACE ", .trace)]

def parsePolicyLogLine (line : List Char) : Option (PolicyLogLevel × List Char) :=
  policyLogTags.findSome? fun (tag, level) =>
    (List.isPrefixOf? tag.toList line).map fun message => (level, message)

def emitPolicyLog (stream : String) (line : List Char) : PolicyLogEvent :=
  match parsePolicyLogLine line with
  | some (level, message) => ⟨level, stream, message⟩
  | none => if stream = "stderr" then ⟨.warn, stream, line⟩ else ⟨.info, stream, line⟩

/-- `str::trim_end`. -/
def trimEnd (text : List Char) : List Char := text.rdropWhile isWhitespace

/-- `if line.last() == Some(&byte) { line.pop(); }`. -/
def popByte (byte : UInt8) (line : List UInt8) : List UInt8 :=
  if line.getLast? = some byte then line.dropLast else line

/-- One round of the loop of `flush_complete_lines`, with the bytes up to the newline. -/
def flushLine (stream : String) (line : List UInt8) : List PolicyLogEvent :=
  let trimmed := trimEnd (fromUtf8Lossy (popByte 0x0d (popByte 0x0a line)))
  if trimmed.isEmpty then [] else [emitPolicyLog stream trimmed]

theorem drop_lt_of_idxOf? {pending : List UInt8} {index : ℕ}
    (h : pending.idxOf? 0x0a = some index) : (pending.drop (index + 1)).length < pending.length := by
  obtain ⟨hlt, -⟩ := List.idxOf?_eq_some_iff.mp h
  rw [List.length_drop]
  omega

/-- The events of the lines that are complete, and what is left. -/
def flushCompleteLines (state : PolicyLogState) : List PolicyLogEvent × PolicyLogState :=
  match _h : state.pending.idxOf? 0x0a with
  | none => ([], state)
  | some index =>
    let (events, left) := flushCompleteLines { state with pending := state.pending.drop (index + 1) }
    (flushLine state.stream (state.pending.take (index + 1)) ++ events, left)
termination_by state.pending.length
decreasing_by exact drop_lt_of_idxOf? _h

def writeBytes (bytes : List UInt8) (state : PolicyLogState) :
    List PolicyLogEvent × PolicyLogState :=
  if bytes.isEmpty then ([], state)
  else flushCompleteLines { state with pending := state.pending ++ bytes }

/-- The events of one call of `write_bytes` after the other. -/
def writeAll : List (List UInt8) → PolicyLogState → List PolicyLogEvent × PolicyLogState
  | [], state => ([], state)
  | bytes :: chunks, state =>
    let (events, state) := writeBytes bytes state
    let (rest, state) := writeAll chunks state
    (events ++ rest, state)

/-! ## Lines are cut in the same way however the bytes come in -/

section Lines

variable {state : PolicyLogState}

theorem flushCompleteLines_of_notMem (h : 0x0a ∉ state.pending) :
    flushCompleteLines state = ([], state) := by
  have hnone : state.pending.idxOf? 0x0a = none := by
    rwa [← Option.not_isSome_iff_eq_none, List.isSome_idxOf?]
  rw [flushCompleteLines]
  split
  · rfl
  · rename_i index hindex
    rw [hnone] at hindex
    cases hindex

theorem idxOf?_line {line : List UInt8} (h : 0x0a ∉ line) (rest : List UInt8) :
    (line ++ 0x0a :: rest).idxOf? 0x0a = some line.length := by
  rw [List.idxOf?_eq_some_iff]
  refine ⟨by simp, by simp, fun j hj => ?_⟩
  rw [List.getElem_append_left hj]
  exact fun heq => h (heq ▸ List.getElem_mem hj)

/-- The first line that is complete comes first. -/
theorem flushCompleteLines_line (stream : String) {line : List UInt8} (h : 0x0a ∉ line)
    (rest : List UInt8) :
    flushCompleteLines ⟨stream, line ++ 0x0a :: rest⟩ =
      (flushLine stream (line ++ [0x0a]) ++ (flushCompleteLines ⟨stream, rest⟩).1,
        (flushCompleteLines ⟨stream, rest⟩).2) := by
  have hfirst := idxOf?_line h rest
  have htake : (line ++ 0x0a :: rest).take (line.length + 1) = line ++ [0x0a] := by
    rw [List.take_length_add_append]
    rfl
  have hdrop : (line ++ 0x0a :: rest).drop (line.length + 1) = rest := by
    rw [List.drop_length_add_append]
    rfl
  rw [flushCompleteLines]
  split
  · rename_i hnone
    rw [hfirst] at hnone
    cases hnone
  · rename_i index hindex
    obtain rfl := Option.some.inj (hfirst.symm.trans hindex)
    simp only [htake, hdrop]

/-- Bytes are a number of lines, and something without a newline after them. -/
theorem lines_induction {motive : List UInt8 → Prop}
    (last : ∀ bytes, 0x0a ∉ bytes → motive bytes)
    (line : ∀ line rest, 0x0a ∉ line → motive rest → motive (line ++ 0x0a :: rest))
    (bytes : List UInt8) : motive bytes := by
  induction hn : bytes.length using Nat.strong_induction_on generalizing bytes with
  | _ n ih =>
    by_cases h : 0x0a ∈ bytes
    · obtain ⟨first, rest, rfl, hfirst⟩ := List.eq_append_cons_of_mem h
      have hlt : rest.length < n := by
        rw [← hn, List.length_append, List.length_cons]
        omega
      exact line first rest hfirst (ih rest.length hlt rest rfl)
    · exact last bytes h

/-- Bytes that come later only meet what has been left. -/
theorem flushCompleteLines_append (stream : String) (bytes : List UInt8) :
    ∃ left, 0x0a ∉ left ∧ (flushCompleteLines ⟨stream, bytes⟩).2 = ⟨stream, left⟩ ∧
      ∀ more, flushCompleteLines ⟨stream, bytes ++ more⟩ =
        ((flushCompleteLines ⟨stream, bytes⟩).1 ++ (flushCompleteLines ⟨stream, left ++ more⟩).1,
          (flushCompleteLines ⟨stream, left ++ more⟩).2) := by
  induction bytes using lines_induction with
  | last bytes hbytes =>
    have hnone := @flushCompleteLines_of_notMem ⟨stream, bytes⟩ hbytes
    refine ⟨bytes, hbytes, by rw [hnone], fun more => ?_⟩
    rw [hnone, List.nil_append]
  | line line rest hline ih =>
    obtain ⟨left, hleft, hstate, happend⟩ := ih
    have hfirst := flushCompleteLines_line stream hline
    refine ⟨left, hleft, by rw [hfirst, hstate], fun more => ?_⟩
    rw [List.append_assoc, List.cons_append, hfirst, happend, hfirst, List.append_assoc]

theorem writeBytes_eq (stream : String) (bytes : List UInt8) {pending : List UInt8}
    (h : 0x0a ∉ pending) :
    writeBytes bytes ⟨stream, pending⟩ = flushCompleteLines ⟨stream, pending ++ bytes⟩ := by
  rw [writeBytes]
  split_ifs with hempty
  · rw [List.isEmpty_iff.mp hempty, List.append_nil]
    exact (@flushCompleteLines_of_notMem ⟨stream, pending⟩ h).symm
  · rfl

/-- In however many calls the bytes come in, the events are those of all bytes at once. -/
theorem writeAll_eq (stream : String) (chunks : List (List UInt8)) {pending : List UInt8}
    (h : 0x0a ∉ pending) :
    writeAll chunks ⟨stream, pending⟩ = flushCompleteLines ⟨stream, pending ++ chunks.flatten⟩ := by
  induction chunks generalizing pending with
  | nil =>
    rw [List.flatten_nil, List.append_nil]
    exact (@flushCompleteLines_of_notMem ⟨stream, pending⟩ h).symm
  | cons bytes chunks ih =>
    obtain ⟨left, hleft, hstate, happend⟩ := flushCompleteLines_append stream (pending ++ bytes)
    rw [List.flatten_cons, ← List.append_assoc, happend, ← ih hleft, writeAll,
      writeBytes_eq stream bytes h]
    simp only [hstate]

end Lines

/-! ## A line that was written -/

section Written

theorem trimEnd_append {text : List Char} {c : Char} (hc : isWhitespace c = false)
    (hmem : c ∈ text) (before : List Char) : trimEnd (before ++ text) = before ++ trimEnd text := by
  have hne : (text.reverse.dropWhile isWhitespace).isEmpty = false := by
    rw [Bool.eq_false_iff, ne_eq, List.isEmpty_iff, List.dropWhile_eq_nil_iff]
    intro hall
    rw [hall c (List.mem_reverse.mpr hmem)] at hc
    cases hc
  simp [trimEnd, List.rdropWhile, List.dropWhile_append, hne]

theorem popByte_newline (line : List UInt8) : popByte 0x0a (line ++ [0x0a]) = line := by
  simp [popByte]

/-- A carriage return that is popped would have been trimmed. -/
theorem trimEnd_popByte (text : List Char) :
    trimEnd (fromUtf8Lossy (popByte 0x0d (encodeUtf8 text))) = trimEnd text := by
  induction text using List.reverseRecOn with
  | nil => rfl
  | append_singleton text c =>
    by_cases hc : c = '\r'
    · subst hc
      have hbytes : encodeUtf8 (text ++ ['\r']) = encodeUtf8 text ++ [0x0d] :=
        encodeUtf8_append text ['\r']
      have hpop : popByte 0x0d (encodeUtf8 text ++ [0x0d]) = encodeUtf8 text := by simp [popByte]
      rw [hbytes, hpop, fromUtf8Lossy_encodeUtf8, trimEnd, trimEnd,
        List.rdropWhile_concat_pos _ _ _ (by decide)]
    · have hlast : (encodeUtf8 (text ++ [c])).getLast? ≠ some 0x0d := by
        intro hlast
        have hmem : 0x0d ∈ String.utf8EncodeChar c := by
          have hne : String.utf8EncodeChar c ≠ [] := by
            intro hnil
            have hlength := String.length_utf8EncodeChar c
            rw [hnil, List.length_nil] at hlength
            exact (Char.utf8Size_pos c).ne hlength
          rw [encodeUtf8_append, encodeUtf8_cons, encodeUtf8_nil, List.append_nil,
            List.getLast?_append_of_ne_nil _ hne] at hlast
          exact List.mem_of_getLast? hlast
        have hcode := toNat_of_mem_utf8EncodeChar hmem (by decide)
        exact hc (Char.toNat_inj.mp hcode)
      rw [popByte, if_neg hlast, fromUtf8Lossy_encodeUtf8]

/-- The level under which the host logs. -/
def LogLevel.toPolicy : LogLevel → PolicyLogLevel
  | .error => .error
  | .warn => .warn
  | .info => .info
  | .debug => .debug
  | .trace => .trace

/-- The host takes off the line just what the guest put before the text. -/
theorem parsePolicyLogLine_levelStr (level : LogLevel) (text : List Char) :
    parsePolicyLogLine ((levelStr level).toList ++ ' ' :: text) = some (level.toPolicy, text) := by
  cases level <;> simp [parsePolicyLogLine, policyLogTags, levelStr, LogLevel.toPolicy,
    List.isPrefixOf?, List.findSome?]

/-- What the host makes of a record. -/
def LogRecord.event (stream : String) (record : LogRecord) : PolicyLogEvent :=
  ⟨record.level.toPolicy, stream, trimEnd record.text⟩

theorem flushLine_record (stream : String) (record : LogRecord) :
    flushLine stream (encodeUtf8 record.line ++ [0x0a]) = [record.event stream] := by
  have htrim : trimEnd record.line =
      ((levelStr record.level).toList ++ [' ']) ++ trimEnd record.text := by
    have hbracket : '[' ∈ record.text := List.mem_cons_self ..
    rw [← trimEnd_append (by decide) hbracket, List.append_assoc]
    rfl
  have hemit : emitPolicyLog stream (trimEnd record.line) = record.event stream := by
    rw [emitPolicyLog, htrim, List.append_assoc, List.singleton_append, parsePolicyLogLine_levelStr]
    rfl
  have hne : (trimEnd record.line).isEmpty = false := by
    rw [htrim]
    cases record.level <;> rfl
  simp only [flushLine, popByte_newline, trimEnd_popByte, hne, hemit, Bool.false_eq_true, if_false]

theorem newline_notMem_encodeUtf8 {text : List Char} (h : '\n' ∉ text) :
    0x0a ∉ encodeUtf8 text :=
  fun hmem => h (mem_encodeUtf8 hmem (by decide))

theorem newline_notMem_line {record : LogRecord} (hscope : '\n' ∉ record.scope)
    (hmessage : '\n' ∉ record.message) : '\n' ∉ record.line := by
  have hlevel : '\n' ∉ (levelStr record.level).toList := by cases record.level <;> decide
  simp [LogRecord.line, LogRecord.text, hlevel, hscope, hmessage]

end Written

/-- The records of a guest, written with any maximal level and cut into writes in any way: the host
logs one event for each record that is written, in order, at its level and with its text, and keeps
nothing back. -/
theorem log_records_survive (max : LogLevel) (stream : String) (records : List LogRecord)
    (hlines : ∀ record ∈ records, '\n' ∉ record.scope ∧ '\n' ∉ record.message)
    (chunks : List (List UInt8)) (hchunks : chunks.flatten = records.flatMap (LogRecord.sdkLog max)) :
    writeAll chunks ⟨stream, []⟩ =
      ((records.filter fun record => logEnabled max record.level).map (LogRecord.event stream),
        ⟨stream, []⟩) := by
  rw [writeAll_eq stream chunks (by simp), List.nil_append, hchunks]
  clear hchunks
  induction records with
  | nil =>
    rw [List.flatMap_nil, flushCompleteLines_of_notMem (by simp)]
    rfl
  | cons record records ih =>
    rw [List.forall_mem_cons] at hlines
    have hrest := ih hlines.2
    rw [List.flatMap_cons, LogRecord.sdkLog]
    by_cases henabled : logEnabled max record.level = true
    · have hline := newline_notMem_encodeUtf8 (newline_notMem_line hlines.1.1 hlines.1.2)
      have hbytes : encodeUtf8 (record.line ++ ['\n']) = encodeUtf8 record.line ++ [0x0a] :=
        encodeUtf8_append _ _
      rw [if_pos henabled, hbytes, List.append_assoc, List.singleton_append,
        flushCompleteLines_line stream hline, flushLine_record, hrest,
        List.filter_cons, if_pos henabled, List.map_cons, List.singleton_append]
    · rw [if_neg henabled, List.nil_append, hrest, List.filter_cons, if_neg henabled]

/-- A record with trailing blanks, cut within the line and within a character, and one that is not
written. -/
theorem log_records_survive_cut :
    writeAll [[0x20, 0x57, 0x41], [], [0x52, 0x4e, 0x20, 0x5b, 0x5d, 0x20, 0xc3],
        [0xa9, 0x20, 0x0d, 0x0a]] ⟨"stderr", []⟩ =
      ([⟨.warn, "stderr", ['[', ']', ' ', 'é']⟩], ⟨"stderr", []⟩) := by
  have h := log_records_survive .info "stderr"
    [⟨.warn, [], ['é', ' ', '\r']⟩, ⟨.debug, ['x'], ['y']⟩] (by decide)
    [[0x20, 0x57, 0x41], [], [0x52, 0x4e, 0x20, 0x5b, 0x5d, 0x20, 0xc3], [0xa9, 0x20, 0x0d, 0x0a]]
    (by decide)
  rw [h]
  decide

end ManInTheBox.Host
