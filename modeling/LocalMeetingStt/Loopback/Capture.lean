import LocalMeetingStt.Lib.Rounding
import LocalMeetingStt.Loopback.Audio
import Mathlib.Algebra.BigOperators.Ring.List

/-!
# The capture loop (`common-wasapi-loopback.cpp`, `capture_loop`)

Each packet of the device is mixed down, resampled to the output rate, appended to the
capture buffer and written to the recording. `resample_linear` reads nothing outside its
input (`lerpAt_isSome`), and the length of what it returns is rounded down. The loop calls
it once a packet, so each packet loses what was rounded off, and how much is lost in all
depends on how the device cuts the signal.

The length stays within one sample of the signal's own exactly where the remainders of all
packets come to less than two samples (`captured_length_iff`). Rates are exact here, and so
is their ratio.
-/

namespace LocalMeetingStt
namespace Loopback

open Rounding

variable {α β : Type}

/-! ## The code -/

/-- The `float` operations of the loop. -/
structure Floats (α β : Type) where
  zero : α
  /-- The channels of a frame, added up and divided by their number. -/
  mean : List α → α
  /-- Limited to -1 and 1. -/
  clip : α → α
  /-- `left * (1 - frac) + right * frac` -/
  lerp : α → α → ℚ → α
  /-- A sample as `write_wav_samples` writes it. -/
  pcm : α → β

section

variable (f : Floats α β)

/-- `output[i]`; none where `input` is read outside its bounds. -/
def lerpAt (input : List α) (ratio : ℚ) (i : Nat) : Option α :=
  let source := i * ratio
  let left := ⌊source⌋₊
  let right := if left + 1 < input.length then left + 1 else left
  let frac := source - left
  (input[left]?).bind fun l => (input[right]?).map fun r => f.lerp l r frac

def resampleLinear (input : List α) (inputRate outputRate : Nat) : Option (List α) :=
  if input = [] ∨ inputRate = 0 ∨ outputRate = 0 ∨ inputRate = outputRate then some input
  else
    let ratio : ℚ := inputRate / outputRate
    let outputSize := ⌊(input.length : ℚ) / ratio⌋₊
    (List.range outputSize).mapM (lerpAt f input ratio)

end

/-- An initialized capture buffer, with the samples appended since it was cleared. -/
structure Buffer (α : Type) where
  audio : AudioAsync α
  held : List α
  holds : audio.Holds held

namespace Buffer

def init [Inhabited α] (lenMs sampleRate : Int) (hcapacity : 1 ≤ sampleRate * lenMs / 1000)
    (hfits : sampleRate * lenMs < 2 ^ 31) : Buffer α where
  audio := .init lenMs sampleRate
  held := []
  holds := AudioAsync.init_holds hcapacity hfits

variable (b : Buffer α)

theorem isSome_appendSamples (samples : List α) : (b.audio.appendSamples samples).isSome := by
  obtain ⟨a, ha, -⟩ := b.holds.appendSamples samples
  rw [ha]
  rfl

def appendSamples (samples : List α) : Buffer α where
  audio := (b.audio.appendSamples samples).get (b.isSome_appendSamples samples)
  held := b.held ++ samples
  holds := by
    obtain ⟨a, ha, hholds, -⟩ := b.holds.appendSamples samples
    simpa [ha] using hholds

def clear : Buffer α where
  audio := b.audio.clear
  held := []
  holds := b.holds.clear

/-- `m_sample_rate` where an `uint32_t` is wanted. -/
def outputRate : Nat := (b.audio.sampleRate % 2 ^ 32).toNat

@[simp] theorem outputRate_appendSamples (samples : List α) :
    (b.appendSamples samples).outputRate = b.outputRate := by
  obtain ⟨a, ha, -, -, -, hrate⟩ := b.holds.appendSamples samples
  simp [outputRate, appendSamples, ha, hrate]

end Buffer

/-- What the loop has at the head of a turn. `appended` is all that was ever given to
    `append_samples`; the recording is there if its file could be opened. -/
structure CaptureLoop (α β : Type) where
  buffer : Buffer α
  appended : List α
  recording : Option (List β)
  recordingDataSize : Nat

/-- What a turn meets: no answer about the size, no packet, no answer about the data, or a
    packet. Between two turns the main thread may clear the buffer. -/
inductive CaptureEvent (α : Type) where
  | sizeFails
  | noPacket
  | bufferFails
  | packet (silent : Bool) (frames : List (List α))
  | cleared

section

variable (f : Floats α β) (deviceRate : Nat)

def CaptureLoop.packet (c : CaptureLoop α β) (silent : Bool) (frames : List (List α)) :
    Option (CaptureLoop α β) :=
  let mono := frames.map fun frame => f.clip (if silent then f.zero else f.mean frame)
  (resampleLinear f mono deviceRate c.buffer.outputRate).map fun resampled =>
    { buffer := c.buffer.appendSamples resampled
      appended := c.appended ++ resampled
      recording := c.recording.map (· ++ resampled.map f.pcm)
      recordingDataSize :=
        if c.recording.isSome then (c.recordingDataSize + 2 * resampled.length) % 2 ^ 32
        else c.recordingDataSize }

/-- The `while` loop, until `m_stop` is set or it breaks off. -/
def captureFrom : CaptureLoop α β → List (CaptureEvent α) → Option (CaptureLoop α β)
  | c, [] => some c
  | c, .sizeFails :: _ => some c
  | c, .bufferFails :: _ => some c
  | c, .noPacket :: events => captureFrom c events
  | c, .cleared :: events => captureFrom { c with buffer := c.buffer.clear } events
  | c, .packet silent frames :: events =>
    (c.packet f deviceRate silent frames).bind fun c => captureFrom c events

def CaptureLoop.start (buffer : Buffer α) (recordingOpens : Bool) : CaptureLoop α β where
  buffer
  appended := []
  recording := if recordingOpens then some [] else none
  recordingDataSize := 0

def captureLoop (buffer : Buffer α) (recordingOpens : Bool) (events : List (CaptureEvent α)) :
    Option (CaptureLoop α β) :=
  captureFrom f deviceRate (.start buffer recordingOpens) events

end

/-- The frames of each packet the loop captures. -/
def packets : List (CaptureEvent α) → List Nat
  | [] => []
  | .sizeFails :: _ => []
  | .bufferFails :: _ => []
  | .noPacket :: events => packets events
  | .cleared :: events => packets events
  | .packet _ frames :: events => frames.length :: packets events

/-! ## One packet -/

theorem exists_mapM {γ δ : Type} (g : γ → Option δ) (xs : List γ)
    (h : ∀ x ∈ xs, (g x).isSome) : ∃ ys, xs.mapM g = some ys ∧ ys.length = xs.length := by
  induction xs with
  | nil => exact ⟨[], rfl, rfl⟩
  | cons x xs ih =>
    obtain ⟨y, hy⟩ := Option.isSome_iff_exists.mp (h x List.mem_cons_self)
    obtain ⟨ys, hys, hlen⟩ := ih fun z hz => h z (List.mem_cons_of_mem x hz)
    refine ⟨y :: ys, ?_, by rw [List.length_cons, List.length_cons, hlen]⟩
    rw [List.mapM_cons, hy, hys]
    rfl

/-- Every sample that is interpolated between is one of the input. -/
theorem lerpAt_isSome (f : Floats α β) {input : List α} {ratio : ℚ} {i : Nat}
    (hratio : 0 < ratio) (hi : i < ⌊(input.length : ℚ) / ratio⌋₊) :
    (lerpAt f input ratio i).isSome := by
  have hlt : (i : ℚ) < input.length / ratio := Nat.lt_of_lt_floor hi
  have hleft : ⌊(i : ℚ) * ratio⌋₊ < input.length := by
    rw [Nat.floor_lt (by positivity)]
    exact (lt_div_iff₀ hratio).mp hlt
  unfold lerpAt
  dsimp only
  rw [List.getElem?_eq_getElem hleft, Option.bind_some, Option.isSome_map]
  split
  next hright => rw [List.getElem?_eq_getElem hright, Option.isSome_some]
  next => rw [List.getElem?_eq_getElem hleft, Option.isSome_some]

/-- **A packet's length is rounded down** to the output rate. -/
theorem resampleLinear_length (f : Floats α β) (input : List α) {inputRate outputRate : Nat}
    (hin : 0 < inputRate) (hout : 0 < outputRate) :
    ∃ output, resampleLinear f input inputRate outputRate = some output ∧
      output.length = input.length * outputRate / inputRate := by
  unfold resampleLinear
  split
  next hsame =>
    refine ⟨input, rfl, ?_⟩
    rcases hsame with rfl | hzero | hzero | rfl
    · simp
    · omega
    · omega
    · rw [Nat.mul_div_cancel _ hin]
  next =>
    have hratio : (0 : ℚ) < inputRate / outputRate := by positivity
    obtain ⟨output, houtput, hlen⟩ :=
      exists_mapM (lerpAt f input (inputRate / outputRate))
        (List.range ⌊(input.length : ℚ) / (inputRate / outputRate)⌋₊)
        fun i hi => lerpAt_isSome f hratio (List.mem_range.mp hi)
    refine ⟨output, houtput, ?_⟩
    rw [hlen, List.length_range, div_div_eq_mul_div, ← Nat.cast_mul,
      Rat.natFloor_natCast_div_natCast]

/-! ## The run -/

/-- The account of a run that has come to `count` samples. -/
structure Captured (f : Floats α β) (recordingOpens : Bool) (outputRate count : Nat)
    (c : CaptureLoop α β) : Prop where
  rate : c.buffer.outputRate = outputRate
  length : c.appended.length = count
  recording : c.recording = if recordingOpens then some (c.appended.map f.pcm) else none
  dataSize : recordingOpens = true → c.recordingDataSize = 2 * count % 2 ^ 32

variable {f : Floats α β} {deviceRate : Nat} {recordingOpens : Bool} {outputRate count : Nat}
  {c : CaptureLoop α β}

theorem Captured.packet (h : Captured f recordingOpens outputRate count c)
    (hdevice : 0 < deviceRate) (hout : 0 < outputRate) (silent : Bool)
    (frames : List (List α)) :
    ∃ c', c.packet f deviceRate silent frames = some c' ∧
      Captured f recordingOpens outputRate (count + frames.length * outputRate / deviceRate)
        c' := by
  obtain ⟨hrate, hlength, hrecording, hsize⟩ := h
  obtain ⟨resampled, hresampled, hlen⟩ := resampleLinear_length f
    (frames.map fun frame => f.clip (if silent then f.zero else f.mean frame)) hdevice hout
  rw [List.length_map] at hlen
  unfold CaptureLoop.packet
  dsimp only
  rw [hrate, hresampled]
  refine ⟨_, rfl, ?_, ?_, ?_, ?_⟩
  · rw [Buffer.outputRate_appendSamples, hrate]
  · rw [List.length_append, hlength, hlen]
  · cases recordingOpens with
    | false => simp [hrecording]
    | true => simp [hrecording]
  · intro hopens
    simp only [hrecording, hopens, if_true, Option.isSome_some, hsize hopens, hlen]
    omega

theorem Captured.run (h : Captured f recordingOpens outputRate count c)
    (hdevice : 0 < deviceRate) (hout : 0 < outputRate) (events : List (CaptureEvent α)) :
    ∃ c', captureFrom f deviceRate c events = some c' ∧
      Captured f recordingOpens outputRate
        (count + ((packets events).map fun n => n * outputRate / deviceRate).sum) c' := by
  induction events generalizing c count with
  | nil => exact ⟨c, rfl, h⟩
  | cons event events ih =>
    cases event with
    | sizeFails => exact ⟨c, rfl, h⟩
    | bufferFails => exact ⟨c, rfl, h⟩
    | noPacket => exact ih h
    | cleared => exact ih ⟨h.rate, h.length, h.recording, h.dataSize⟩
    | packet silent frames =>
      obtain ⟨c', hc', hnext⟩ := h.packet hdevice hout silent frames
      obtain ⟨final, hfinal, hcaptured⟩ := ih hnext
      refine ⟨final, ?_, ?_⟩
      · rw [captureFrom, hc', Option.bind_some, hfinal]
      · rw [packets, List.map_cons, List.sum_cons, ← Nat.add_assoc]
        exact hcaptured

/-- **What `capture_loop` appends and records**: of each packet, its length at the output
    rate, rounded down. -/
theorem captureLoop_captured (f : Floats α β) (buffer : Buffer α) (recordingOpens : Bool)
    (events : List (CaptureEvent α)) (hdevice : 0 < deviceRate) (hout : 0 < buffer.outputRate) :
    ∃ c, captureLoop f deviceRate buffer recordingOpens events = some c ∧
      Captured f recordingOpens buffer.outputRate
        ((packets events).map fun n => n * buffer.outputRate / deviceRate).sum c := by
  have hstart : Captured f recordingOpens buffer.outputRate 0 (.start buffer recordingOpens) := by
    refine ⟨rfl, rfl, ?_, fun _ => rfl⟩
    cases recordingOpens <;> rfl
  have hrun := hstart.run hdevice hout events
  rw [Nat.zero_add] at hrun
  exact hrun

/-! ## The length of the recording -/

/-- `count` is within one of the length of all packets at the output rate, rounded down once. -/
def KeepsLength (deviceRate outputRate : Nat) (packets : List Nat) (count : Nat) : Prop :=
  |(count : ℤ) - ⌊(packets.sum : ℚ) * outputRate / deviceRate⌋| ≤ 1

/-- What the packets lose one by one, the signal as a whole still has: the whole samples in
    their remainders. -/
theorem length_eq_add_lost (hdevice : 0 < deviceRate) (packets : List Nat) :
    ⌊(packets.sum : ℚ) * outputRate / deviceRate⌋ =
      (((packets.map fun n => n * outputRate / deviceRate).sum +
        (packets.map fun n => n * outputRate % deviceRate).sum / deviceRate : ℕ) : ℤ) := by
  have hsplit := sum_div_eq hdevice (packets.map (· * outputRate))
  simp only [List.map_map, List.sum_map_mul_right, List.map_id', Function.comp_def] at hsplit
  rw [← hsplit, ← Nat.cast_mul, Rat.floor_natCast_div_natCast]
  rfl

theorem keepsLength_iff (hdevice : 0 < deviceRate) (packets : List Nat) :
    KeepsLength deviceRate outputRate packets
        (packets.map fun n => n * outputRate / deviceRate).sum ↔
      (packets.map fun n => n * outputRate % deviceRate).sum < 2 * deviceRate := by
  have hlost : (packets.map fun n => n * outputRate % deviceRate).sum / deviceRate < 2 ↔
      (packets.map fun n => n * outputRate % deviceRate).sum < 2 * deviceRate :=
    Nat.div_lt_iff_lt_mul hdevice
  unfold KeepsLength
  rw [length_eq_add_lost hdevice, ← hlost, abs_le]
  generalize (packets.map fun n => n * outputRate % deviceRate).sum / deviceRate = lost
  omega

/-- **When a recording keeps its length**: `capture_loop` appends, and records, as many samples
    as the packets together come to, but for one, if and only if what rounding leaves of
    the packets comes to less than two samples. -/
theorem captured_length_iff (f : Floats α β) (buffer : Buffer α) (recordingOpens : Bool)
    (events : List (CaptureEvent α)) (hdevice : 0 < deviceRate) (hout : 0 < buffer.outputRate) :
    ∃ c, captureLoop f deviceRate buffer recordingOpens events = some c ∧
      c.recording = (if recordingOpens then some (c.appended.map f.pcm) else none) ∧
      ((KeepsLength deviceRate buffer.outputRate (packets events) c.appended.length ∧
          ∀ samples, c.recording = some samples →
            KeepsLength deviceRate buffer.outputRate (packets events) samples.length) ↔
        ((packets events).map fun n => n * buffer.outputRate % deviceRate).sum <
          2 * deviceRate) := by
  obtain ⟨c, hc, hcaptured⟩ := captureLoop_captured f buffer recordingOpens events hdevice hout
  refine ⟨c, hc, hcaptured.recording, ?_⟩
  have hrecorded : ∀ samples, c.recording = some samples →
      samples.length = c.appended.length := by
    intro samples hsamples
    rw [hcaptured.recording] at hsamples
    split at hsamples
    · rw [← Option.some.inj hsamples, List.length_map]
    · cases hsamples
  rw [← keepsLength_iff hdevice, ← hcaptured.length]
  constructor
  · intro h
    exact h.1
  · intro h
    refine ⟨h, ?_⟩
    intro samples hsamples
    rw [hrecorded samples hsamples]
    exact h

/-! ## From 48 to 16 kHz -/

/-- Without rounding. -/
def exactFloats : Floats ℚ Int where
  zero := 0
  mean channels := channels.sum / channels.length
  clip value := max (-1) (min 1 value)
  lerp l r frac := l * (1 - frac) + r * frac
  pcm value := truncate (max (-1) (min 1 value) * 32767)

/-- `init` for 30 seconds at 16 kHz. -/
def buffer16k : Buffer ℚ := .init 30000 16000 (by decide) (by decide)

/-- A silent packet of two channels. -/
def silence (count : Nat) : CaptureEvent ℚ := .packet true (.replicate count [0, 0])

@[simp] theorem packets_silence (count : Nat) (events : List (CaptureEvent ℚ)) :
    packets (silence count :: events) = count :: packets events := by
  simp [silence, packets]

/-- Packets of 10 ms leave nothing. -/
theorem captured_length_iff_even :
    ∃ c, captureLoop exactFloats 48000 buffer16k true [silence 480, silence 480] = some c ∧
      KeepsLength 48000 buffer16k.outputRate [480, 480] c.appended.length := by
  obtain ⟨c, hc, -, hiff⟩ := captured_length_iff exactFloats buffer16k true
    [silence 480, silence 480] (show 0 < 48000 by decide) (by decide)
  rw [packets_silence, packets_silence] at hiff
  exact ⟨c, hc, (hiff.mpr (by decide)).1⟩

/-- **Three packets of 128 frames make 126 samples, not 128.** -/
theorem recording_drifts :
    ∃ c, captureLoop exactFloats 48000 buffer16k true [silence 128, silence 128, silence 128] =
        some c ∧
      c.appended.length = 126 ∧ c.recording.map List.length = some 126 ∧
      ⌊((128 + 128 + 128 : ℕ) : ℚ) * 16000 / 48000⌋ = 128 ∧
      ¬KeepsLength 48000 buffer16k.outputRate [128, 128, 128] c.appended.length := by
  obtain ⟨c, hc, hcaptured⟩ := captureLoop_captured exactFloats buffer16k true
    [silence 128, silence 128, silence 128] (show 0 < 48000 by decide) (by decide)
  rw [packets_silence, packets_silence, packets_silence] at hcaptured
  have hlength : c.appended.length = 126 := hcaptured.length.trans (by decide)
  refine ⟨c, hc, hlength, ?_, by norm_num, ?_⟩
  · rw [hcaptured.recording, if_pos rfl, Option.map_some, List.length_map, hlength]
  · rw [hcaptured.length]
    exact (keepsLength_iff (by decide) _).not.mpr (by decide)

end Loopback
end LocalMeetingStt
