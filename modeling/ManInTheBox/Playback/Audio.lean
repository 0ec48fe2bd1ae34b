import Mathlib.Tactic
import ManInTheBox.Library.Fallible

/-! # The samples of decoded packets

A decoded packet has its samples channel by channel. They are interleaved frame by frame,
and the frames to be skipped are counted across packets.
-/

namespace ManInTheBox.Playback

open Library

universe u

/-- A decoded packet: every channel has a sample for each frame. -/
structure AudioBuffer (Sample : Type u) (channels : ℕ) where
  frames : ℕ
  planes : Fin channels → Fin frames → Sample

/-- `buffer.chan(channel)`, which panics when there is no such channel. -/
def AudioBuffer.chan {Sample : Type u} {channels : ℕ} (buffer : AudioBuffer Sample channels)
    (channel : ℕ) : Option (List Sample) :=
  if h : channel < channels then some (List.ofFn (buffer.planes ⟨channel, h⟩)) else none

variable {Sample : Type u} {channels : ℕ}

/-- `output[index] = sample`, which panics behind the end. -/
def setSample (output : List Sample) (index : ℕ) (sample : Sample) : Option (List Sample) :=
  if index < output.length then some (output.set index sample) else none

/-- The inner loop, over the channels. -/
def writeFrame (buffer : AudioBuffer Sample channels) (frameIndex outputIndex : ℕ)
    (output : List Sample) : Option (List Sample) :=
  (List.range channels).foldlM (fun output channel => do
    let samples ← buffer.chan channel
    match samples[frameIndex]? with
    | some sample => setSample output (outputIndex * channels + channel) sample
    | none => return output) output

/-- The samples, and the frames that are still to be skipped. -/
def interleaveAudioBuffer [Zero Sample] (buffer : AudioBuffer Sample channels)
    (remainingPreSkip : ℕ) : Option (List Sample × ℕ) :=
  let frames := buffer.frames
  if frames = 0 then
    some ([], remainingPreSkip)
  else
    let skipFrames := min remainingPreSkip frames
    let remainingPreSkip := remainingPreSkip - skipFrames
    if frames ≤ skipFrames then
      some ([], remainingPreSkip)
    else do
      let outputFrames := frames - skipFrames
      let output : List Sample := List.replicate (outputFrames * channels) 0
      let output ← (List.range (frames - skipFrames)).foldlM (fun output k =>
        let frameIndex := skipFrames + k
        let outputIndex := frameIndex - skipFrames
        writeFrame buffer frameIndex outputIndex output) output
      return (output, remainingPreSkip)

/-- What is appended to the output for the packets of the audio track; a packet that cannot be
decoded is left out. -/
def playAudio [Zero Sample] {ε : Type u} : ℕ → List (Except ε (AudioBuffer Sample channels)) →
    Option (List (List Sample))
  | _, [] => some []
  | remainingPreSkip, .error _ :: packets => playAudio remainingPreSkip packets
  | remainingPreSkip, .ok buffer :: packets => do
    let (samples, remainingPreSkip) ← interleaveAudioBuffer buffer remainingPreSkip
    let outputs ← playAudio remainingPreSkip packets
    return samples :: outputs

/-! ## Frames -/

/-- The samples of all channels at one time. -/
def AudioBuffer.frame (buffer : AudioBuffer Sample channels) (i : Fin buffer.frames) :
    List Sample :=
  List.ofFn fun channel => buffer.planes channel i

def AudioBuffer.frameList (buffer : AudioBuffer Sample channels) : List (List Sample) :=
  List.ofFn buffer.frame

@[simp] theorem length_frame (buffer : AudioBuffer Sample channels) (i : Fin buffer.frames) :
    (buffer.frame i).length = channels := List.length_ofFn

@[simp] theorem length_frameList (buffer : AudioBuffer Sample channels) :
    buffer.frameList.length = buffer.frames := List.length_ofFn

theorem length_of_mem_frameList {buffer : AudioBuffer Sample channels} {frame : List Sample}
    (h : frame ∈ buffer.frameList) : frame.length = channels := by
  obtain ⟨i, rfl⟩ := List.mem_ofFn.mp h
  exact length_frame buffer i

/-- Frames behind each other. -/
theorem length_flatten_frames {frames : List (List Sample)}
    (h : ∀ frame ∈ frames, frame.length = channels) :
    frames.flatten.length = frames.length * channels := by
  induction frames with
  | nil => simp
  | cons frame frames ih =>
    have hrest := ih fun frame hframe => h frame (List.mem_cons_of_mem _ hframe)
    rw [List.flatten_cons, List.length_append, h frame List.mem_cons_self, hrest,
      List.length_cons, Nat.succ_mul, Nat.add_comm]

theorem dvd_length_flatten (buffer : AudioBuffer Sample channels) (n : ℕ) :
    channels ∣ (buffer.frameList.drop n).flatten.length := by
  rw [length_flatten_frames fun frame h => length_of_mem_frameList (List.mem_of_mem_drop h)]
  exact Nat.dvd_mul_left _ _

/-- The packets that could be decoded. -/
def decoded {ε : Type u} (packets : List (Except ε (AudioBuffer Sample channels))) :
    List (AudioBuffer Sample channels) :=
  packets.filterMap Except.toOption

theorem drop_flatten (preSkip : ℕ) (frames rest : List (List Sample)) :
    (frames.drop preSkip).flatten ++ (rest.drop (preSkip - frames.length)).flatten =
      ((frames ++ rest).drop preSkip).flatten := by
  rw [List.drop_append, List.flatten_append]

/-! ## Writing -/

variable [Zero Sample]

/-- The samples are written one behind the other. -/
theorem setSample_next (written : List Sample) (sample : Sample) (rest : ℕ) :
    setSample (written ++ List.replicate (rest + 1) 0) written.length sample =
      some (written ++ [sample] ++ List.replicate rest 0) := by
  rw [setSample, if_pos (by simp), List.set_append_right _ _ (Nat.le_refl _), Nat.sub_self,
    List.replicate_succ, List.set_cons_zero, List.append_assoc]
  rfl

theorem writeFrame_next (buffer : AudioBuffer Sample channels) (i : Fin buffer.frames)
    (outputIndex : ℕ) {written : List Sample} (hwritten : written.length = outputIndex * channels)
    (rest : ℕ) :
    writeFrame buffer i outputIndex (written ++ List.replicate (channels + rest) 0) =
      some (written ++ buffer.frame i ++ List.replicate rest 0) := by
  have hloop := Yields.foldlM_range
    (f := fun output channel => do
      let samples ← buffer.chan channel
      match samples[(i : ℕ)]? with
      | some sample => setSample output (outputIndex * channels + channel) sample
      | none => return output)
    (fun channel output => output = written ++ (buffer.frame i).take channel ++
      List.replicate (channels - channel + rest) 0) channels
    (a := written ++ List.replicate (channels + rest) 0) (by simp) ?_
  · obtain ⟨output, houtput, rfl⟩ := hloop
    rw [writeFrame, houtput, List.take_of_length_le (length_frame buffer i).le, Nat.sub_self,
      Nat.zero_add]
  · rintro _ channel hchannel rfl
    have hsample : buffer.chan channel = some (List.ofFn (buffer.planes ⟨channel, hchannel⟩)) :=
      dif_pos hchannel
    have hlength : (written ++ (buffer.frame i).take channel).length =
        outputIndex * channels + channel := by
      rw [List.length_append, hwritten, List.length_take, length_frame, Nat.min_eq_left hchannel.le]
    have hrest : channels - channel + rest = channels - (channel + 1) + rest + 1 := by omega
    have hget : (buffer.frame i)[channel]? = some (buffer.planes ⟨channel, hchannel⟩ i) := by
      simp [AudioBuffer.frame, hchannel]
    refine ⟨_, ?_, rfl⟩
    rw [hsample, List.take_add_one, hget, ← List.append_assoc, Option.toList_some, hrest]
    simp only [Option.bind_eq_bind, Option.bind_some, List.getElem?_ofFn, i.isLt, dite_true,
      Fin.eta]
    rw [← hlength]
    exact setSample_next _ _ _

/-- The frames behind the skipped ones are written in their order. -/
theorem writeFrames_eq (buffer : AudioBuffer Sample channels) (skipFrames : ℕ) :
    (List.range (buffer.frames - skipFrames)).foldlM
        (fun output k => writeFrame buffer (skipFrames + k) (skipFrames + k - skipFrames) output)
        (List.replicate ((buffer.frames - skipFrames) * channels) (0 : Sample)) =
      some (buffer.frameList.drop skipFrames).flatten := by
  have hkept : (buffer.frameList.drop skipFrames).length = buffer.frames - skipFrames := by simp
  have hloop := Yields.foldlM_range
    (f := fun output k => writeFrame buffer (skipFrames + k) (skipFrames + k - skipFrames) output)
    (fun k output => output = ((buffer.frameList.drop skipFrames).take k).flatten ++
      List.replicate ((buffer.frames - skipFrames - k) * channels) (0 : Sample))
    (buffer.frames - skipFrames) (a := List.replicate ((buffer.frames - skipFrames) * channels) 0)
    (by simp) ?_
  · obtain ⟨output, houtput, rfl⟩ := hloop
    rw [houtput, List.take_of_length_le hkept.le]
    simp
  · rintro _ k hk rfl
    have hlt : skipFrames + k < buffer.frames := by omega
    have hwritten : ((buffer.frameList.drop skipFrames).take k).flatten.length =
        (skipFrames + k - skipFrames) * channels := by
      rw [length_flatten_frames, List.length_take, hkept, Nat.min_eq_left hk.le,
        Nat.add_sub_cancel_left]
      intro frame hframe
      exact length_of_mem_frameList (List.mem_of_mem_drop (List.mem_of_mem_take hframe))
    have hrest : (buffer.frames - skipFrames - k) * channels =
        channels + (buffer.frames - skipFrames - (k + 1)) * channels := by
      have hsucc : buffer.frames - skipFrames - k = buffer.frames - skipFrames - (k + 1) + 1 := by
        omega
      rw [hsucc, Nat.succ_mul, Nat.add_comm]
    have hget : (buffer.frameList.drop skipFrames)[k]? =
        some (buffer.frame ⟨skipFrames + k, hlt⟩) := by
      rw [List.getElem?_drop]
      simp [AudioBuffer.frameList, hlt]
    refine ⟨_, ?_, rfl⟩
    rw [hrest, List.take_add_one, hget, Option.toList_some, List.flatten_append,
      List.flatten_singleton]
    exact writeFrame_next buffer ⟨skipFrames + k, hlt⟩ _ hwritten _

/-- A packet yields its frames without those that were still to be skipped. -/
theorem interleaveAudioBuffer_eq (buffer : AudioBuffer Sample channels) (remainingPreSkip : ℕ) :
    interleaveAudioBuffer buffer remainingPreSkip =
      some ((buffer.frameList.drop remainingPreSkip).flatten,
        remainingPreSkip - buffer.frames) := by
  have hlength := length_frameList buffer
  rw [interleaveAudioBuffer]
  by_cases hempty : buffer.frames = 0
  · rw [if_pos hempty, List.drop_of_length_le (by omega), hempty]
    rfl
  · rw [if_neg hempty]
    by_cases hskip : buffer.frames ≤ remainingPreSkip
    · simp only
      rw [Nat.min_eq_right hskip, if_pos (Nat.le_refl _), List.drop_of_length_le (by omega)]
      rfl
    · simp only
      have hnone : remainingPreSkip - remainingPreSkip = remainingPreSkip - buffer.frames := by
        omega
      rw [Nat.min_eq_left (by omega), if_neg hskip, writeFrames_eq, hnone]
      rfl

/-! ## Across packets -/

theorem playAudio_eq_drop {ε : Type u} (preSkip : ℕ)
    (packets : List (Except ε (AudioBuffer Sample channels))) :
    ∃ outputs, playAudio preSkip packets = some outputs ∧
      outputs.flatten =
        (((decoded packets).flatMap AudioBuffer.frameList).drop preSkip).flatten ∧
      ∀ output ∈ outputs, channels ∣ output.length := by
  induction packets generalizing preSkip with
  | nil => exact ⟨[], rfl, by simp [decoded], by simp⟩
  | cons packet packets ih =>
    cases packet with
    | error e => exact ih preSkip
    | ok buffer =>
      obtain ⟨outputs, houtputs, hflatten, hwhole⟩ := ih (preSkip - buffer.frames)
      refine ⟨(buffer.frameList.drop preSkip).flatten :: outputs, ?_, ?_, ?_⟩
      · rw [playAudio, interleaveAudioBuffer_eq]
        simp [houtputs]
      · have hdecoded : decoded (.ok buffer :: packets) = buffer :: decoded packets := rfl
        rw [hdecoded, List.flatten_cons, hflatten, List.flatMap_cons,
          ← length_frameList buffer, drop_flatten]
      · intro output houtput
        rcases List.mem_cons.mp houtput with rfl | houtput
        · exact dvd_length_flatten buffer preSkip
        · exact hwhole output houtput

/-- The frames are skipped at the beginning of all packets together, and every packet yields
whole frames. -/
theorem playAudio_interleaves {ε : Type u} (preSkip : ℕ)
    (packets : List (Except ε (AudioBuffer Sample channels))) :
    let frames := (decoded packets).flatMap AudioBuffer.frameList
    ∃ outputs, playAudio preSkip packets = some outputs ∧
      outputs.flatten = (frames.drop (min preSkip frames.length)).flatten ∧
      ∀ output ∈ outputs, channels ∣ output.length := by
  intro frames
  obtain ⟨outputs, houtputs, hflatten, hwhole⟩ := playAudio_eq_drop preSkip packets
  refine ⟨outputs, houtputs, ?_, hwhole⟩
  rcases Nat.le_total preSkip frames.length with hle | hle
  · rw [Nat.min_eq_left hle, hflatten]
  · rw [Nat.min_eq_right hle, hflatten, List.drop_of_length_le hle, List.drop_length]

end ManInTheBox.Playback
