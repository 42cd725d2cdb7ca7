import LocalMeetingStt.Live.Stream

/-!
# The WAV and the blocks it was captured in (`record_audio.py`, and the two live scripts)

Three loops capture audio and write it at another rate. `capture_audio` of both live
scripts hands every block to one `StreamResampler` and flushes it behind the loop;
`record_audio` calls `resample_audio` on each block by itself, and the filter starts anew
at every block edge.

What a filter makes of a signal is a parameter here: any function of the whole signal, of
which only silence about nothing is known. The live recordings are then the one-pass result
however the recorder cuts the signal (`Job.wav_onePass`). A recording of `record_audio`
is that for every filter in exactly two cases: there is no filter, or there is no edge.

The chunks a streaming session queues are the same samples as its WAV, whatever the
resampler answers (`queued_eq_wav`).
-/

namespace LocalMeetingStt
namespace Live

open Transition Transition.System

variable {α β ρ : Type}

/-! ## The live scripts -/

/-- `capture_audio` has returned. -/
def CapturePc.returned (pc : CapturePc α β) : Prop :=
  pc = .settingStop none ∨ pc = .exiting none ∨ pc = .dead none

/-- What `soxr.ResampleStream` promises: its answers and the flush are, one after the other,
    what `soxr.resample` makes of all blocks at once. -/
def Job.StreamAgrees (job : Job α β ρ) : Prop :=
  ∀ blocks, job.resampleStream.whole blocks =
    job.soxrResample blocks.flatten job.captureRate job.sampleRate

/-- Passing the blocks through is no resampling. -/
theorem Resampler.whole_through (r : Resampler ρ α)
    (chunk : ∀ state samples, r.chunk state samples = (state, samples))
    (flush : ∀ state, r.flush state = []) (blocks : List (List α)) :
    r.whole blocks = blocks.flatten := by
  have hchunks : ∀ blocks, r.chunks blocks = (r.start, blocks.flatten) := by
    intro blocks
    induction blocks using List.reverseRecOn with
    | nil => rfl
    | append_singleton blocks block ih => simp [chunks_concat, ih, chunk]
  simp [whole, hchunks, flush]

theorem Job.resampler_whole {job : Job α β ρ} (h : job.StreamAgrees) (blocks : List (List α)) :
    job.resampler.whole blocks =
      job.resampleAudio blocks.flatten job.captureRate job.sampleRate := by
  unfold resampleAudio
  split_ifs with hrate
  · exact Resampler.whole_through _ (fun _ _ => if_pos hrate) (fun _ => if_pos hrate) blocks
  · have hstream : job.resampler = job.resampleStream := by simp [resampler, hrate]
    rw [hstream, h blocks]

/-- What a returned `capture_audio` has queued and written. -/
theorem returned_whole [Casefold] {job : Job α β ρ} {s : State α β ρ}
    (hs : (system job).Reachable s) (hreturned : s.capture.pc.returned) :
    s.queued.flatten = job.resampler.whole s.recorded ∧
      (job.recordingOutput = true → s.wav = job.resampler.whole s.recorded) := by
  have hgood : ¬s.capture.pc.failed := by
    rcases hreturned with heq | heq | heq <;> simp [heq, CapturePc.failed]
  exact (kept_reachable hs hgood).returned hreturned

/-- A live recording does not show where its blocks ended. -/
theorem Job.wav_onePass [Casefold] {job : Job α β ρ} (h : job.StreamAgrees)
    (hrecording : job.recordingOutput = true) {s : State α β ρ}
    (hs : (system job).Reachable s) (hreturned : s.capture.pc.returned) :
    s.wav = job.resampleAudio s.recorded.flatten job.captureRate job.sampleRate := by
  rw [(returned_whole hs hreturned).2 hrecording, job.resampler_whole h]

/-- **In a streaming session the chunks are the recording.** When `capture_audio` has returned,
    the chunks it put on the queue are, one after the other, the samples in the WAV; and none
    of them was dropped: what was fed, what the consumer holds and what is still queued is the
    WAV as well. -/
theorem queued_eq_wav [Casefold] (job : Job α β ρ) (hstreaming : job.streaming = true)
    (hrecording : job.recordingOutput = true) {s : State α β ρ}
    (hs : (system job).Reachable s) (hreturned : s.capture.pc.returned) :
    s.queued.flatten = s.wav ∧
      (¬s.main.failed → s.fed.flatten ++ s.main.hand.flatten ++ s.chunks.flatten = s.wav) := by
  obtain ⟨hqueued, hwav⟩ := returned_whole hs hreturned
  have heq : s.queued.flatten = s.wav := hqueued.trans (hwav hrecording).symm
  refine ⟨heq, ?_⟩
  intro hmain
  rw [(taken_reachable hstreaming hs).account hmain, heq]

/-! ## `record_audio` -/

/-- The arguments of `record_audio`, and the libraries it calls. -/
structure RecordJob (α β : Type) where
  includeMic : Bool
  untilEnter : Bool
  captureRate : Nat
  sampleRate : Nat
  /-- `int(args.capture_rate * args.chunk_seconds)` -/
  chunkSeconds : Int
  /-- `int(args.capture_rate * args.duration)` -/
  duration : Int
  mixAudio : β → Option β → List α
  /-- `soxr.resample` -/
  soxrResample : List α → Nat → Nat → List α

/-- What one turn of the loop meets: the stop event at its head, and what the recorders
    answer when they are asked for so many frames. -/
structure Turn (β : Type) where
  stopped : Bool
  system : Nat → β
  mic : Nat → β

namespace RecordJob

variable (job : RecordJob α β)

def chunkFrames : Nat := (max 1 job.chunkSeconds).toNat

def totalFrames : Option Nat := if job.untilEnter then none else some (max 1 job.duration).toNat

/-- `not stop_event.is_set() and (total_frames is None or recorded_frames < total_frames)` -/
def goesOn (recordedFrames : Nat) (turn : Turn β) : Bool :=
  !turn.stopped && job.totalFrames.all fun total => recordedFrames < total

def frames (recordedFrames : Nat) : Nat :=
  match job.totalFrames with
  | none => job.chunkFrames
  | some total => min job.chunkFrames (total - recordedFrames)

/-- The mixed block of a turn. The loops with and without a microphone differ in nothing
    else. -/
def mono (turn : Turn β) (frames : Nat) : List α :=
  job.mixAudio (turn.system frames) (if job.includeMic then some (turn.mic frames) else none)

def resampleAudio (samples : List α) : List α :=
  if job.captureRate = job.sampleRate then samples
  else job.soxrResample samples job.captureRate job.sampleRate

/-- What the loop writes, from `recorded_frames` on. It is left where it does not go on, or
    cut off by Ctrl+C or a failure where no turn is left. -/
def record : Nat → List (Turn β) → List α
  | _, [] => []
  | recordedFrames, turn :: turns =>
    if job.goesOn recordedFrames turn then
      let frames := job.frames recordedFrames
      job.resampleAudio (job.mono turn frames) ++ record (recordedFrames + frames) turns
    else []

/-- The samples in the WAV. -/
def recordAudio (turns : List (Turn β)) : List α := job.record 0 turns

/-- The mixed signal, in the blocks it was captured in. -/
def mixed : Nat → List (Turn β) → List (List α)
  | _, [] => []
  | recordedFrames, turn :: turns =>
    if job.goesOn recordedFrames turn then
      job.mono turn (job.frames recordedFrames) ::
        mixed (recordedFrames + job.frames recordedFrames) turns
    else []

/-- The one-pass result on the whole mixed signal. -/
def onePass (turns : List (Turn β)) : List α := job.resampleAudio (job.mixed 0 turns).flatten

/-- The same job with another filter. -/
def filteredBy (filter : List α → Nat → Nat → List α) : RecordJob α β :=
  { job with soxrResample := filter }

/-- The blocks with a sample in them. -/
def soundingBlocks (turns : List (Turn β)) : List (List α) :=
  (job.mixed 0 turns).filter fun block => !block.isEmpty

variable {job}

/-- Each block is resampled by itself. -/
theorem recordAudio_eq (job : RecordJob α β) (turns : List (Turn β)) :
    job.recordAudio turns = (job.mixed 0 turns).flatMap job.resampleAudio := by
  have hfrom : ∀ recordedFrames, job.record recordedFrames turns =
      (job.mixed recordedFrames turns).flatMap job.resampleAudio := by
    induction turns with
    | nil => intro _; rfl
    | cons turn turns ih =>
      intro recordedFrames
      unfold record mixed
      split_ifs with hgoes
      · rw [List.flatMap_cons, ← ih]
      · rfl
  exact hfrom 0

/-- Blocks of which nothing is made may be left out. -/
theorem flatMap_sounding (f : List α → List α) (hf : f [] = []) (blocks : List (List α)) :
    blocks.flatMap f = (blocks.filter fun block => !block.isEmpty).flatMap f := by
  induction blocks with
  | nil => rfl
  | cons block blocks ih => cases block <;> simp [hf, ih]

/-- A filter that shows every block edge: it makes the one sample of any signal. -/
def oneSample (a : α) (samples : List α) : List α := if samples.isEmpty then [] else [a]

theorem length_oneSample_le (a : α) (samples : List α) : (oneSample a samples).length ≤ 1 := by
  unfold oneSample
  split_ifs <;> simp

theorem length_flatMap_oneSample (a : α) (blocks : List (List α)) :
    (blocks.flatMap (oneSample a)).length =
      (blocks.filter fun block => !block.isEmpty).length := by
  induction blocks with
  | nil => rfl
  | cons block blocks ih =>
    rw [List.flatMap_cons, List.length_append, ih]
    cases block <;> simp [oneSample, Nat.add_comm]

/-- What is captured does not depend on the filter. -/
theorem mixed_filteredBy (filter : List α → Nat → Nat → List α) (turns : List (Turn β))
    (recordedFrames : Nat) :
    (job.filteredBy filter).mixed recordedFrames turns = job.mixed recordedFrames turns := by
  induction turns generalizing recordedFrames with
  | nil => rfl
  | cons turn turns ih =>
    unfold mixed
    rw [ih]
    rfl

/-- One block is resampled as a whole. -/
theorem recordAudio_of_few {turns : List (Turn β)} (hsilent : job.resampleAudio [] = [])
    (hfew : (job.soundingBlocks turns).length ≤ 1) :
    job.recordAudio turns = job.onePass turns := by
  have hflatten := flatMap_sounding id rfl (job.mixed 0 turns)
  rw [List.flatMap_id, List.flatMap_id] at hflatten
  rw [recordAudio_eq, onePass, flatMap_sounding _ hsilent, hflatten]
  unfold soundingBlocks at hfew
  generalize (job.mixed 0 turns).filter (fun block => !block.isEmpty) = sounding at hfew ⊢
  match sounding, hfew with
  | [], _ => exact hsilent.symm
  | [block], _ => simp

/-- **No seams, for any filter: no filter, or no edge.** -/
theorem onePass_iff (job : RecordJob α β) (turns : List (Turn β)) :
    (∀ filter : List α → Nat → Nat → List α, (∀ i o, filter [] i o = []) →
      (job.filteredBy filter).recordAudio turns = (job.filteredBy filter).onePass turns) ↔
    job.captureRate = job.sampleRate ∨ (job.soundingBlocks turns).length ≤ 1 := by
  constructor
  · intro h
    by_cases hrate : job.captureRate = job.sampleRate
    · exact .inl hrate
    · refine .inr (Nat.not_lt.mp fun hmany => ?_)
      obtain ⟨block, hblock⟩ := List.exists_mem_of_length_pos (Nat.lt_of_succ_lt hmany)
      have hsounds := (List.mem_filter.mp hblock).2
      obtain ⟨a, ha⟩ := List.exists_mem_of_ne_nil block (by simpa using hsounds)
      have heq := h (fun samples _ _ => oneSample a samples) fun _ _ => rfl
      have hfilter : (job.filteredBy fun samples _ _ => oneSample a samples).resampleAudio =
          oneSample a := by
        funext samples
        exact if_neg hrate
      rw [recordAudio_eq, onePass, mixed_filteredBy, hfilter] at heq
      have hlen := congrArg List.length heq
      rw [length_flatMap_oneSample] at hlen
      exact absurd hmany (Nat.not_lt.mpr (hlen ▸ length_oneSample_le a _))
  · intro h filter hsilent
    rcases h with hrate | hfew
    · have hid : (job.filteredBy filter).resampleAudio = id := by
        funext samples
        exact if_pos hrate
      rw [recordAudio_eq, onePass, hid, List.flatMap_id, id]
    · have hempty : (job.filteredBy filter).resampleAudio [] = [] := by
        simp [resampleAudio, filteredBy, hsilent]
      refine recordAudio_of_few hempty ?_
      rw [soundingBlocks, mixed_filteredBy]
      exact hfew

end RecordJob

/-- **Which WAVs show their block edges.** None of a live script: each is the one-pass
    result on what was mixed. One of `record_audio` shows none, whatever the filter, if and
    only if the rates are equal or all of it was captured in one block. -/
theorem wav_onePass_iff [Casefold] :
    (∀ job : Job α β ρ, job.StreamAgrees → job.recordingOutput = true →
      ∀ s, (system job).Reachable s → s.capture.pc.returned →
        s.wav = job.resampleAudio s.recorded.flatten job.captureRate job.sampleRate) ∧
    ∀ (job : RecordJob α β) (turns : List (Turn β)),
      (∀ filter : List α → Nat → Nat → List α, (∀ i o, filter [] i o = []) →
        (job.filteredBy filter).recordAudio turns = (job.filteredBy filter).onePass turns) ↔
      job.captureRate = job.sampleRate ∨ (job.soundingBlocks turns).length ≤ 1 :=
  ⟨fun _ hagrees hrecording _ hs hreturned => Job.wav_onePass hagrees hrecording hs hreturned,
    RecordJob.onePass_iff⟩

/-! ## Half the rate -/

/-- Every other sample, and whether the next one is kept. -/
def everyOther : Bool → List Int → Bool × List Int
  | keep, [] => (keep, [])
  | true, sample :: samples =>
    let (keep, kept) := everyOther false samples
    (keep, sample :: kept)
  | false, _ :: samples => everyOther true samples

theorem everyOther_append (keep : Bool) (before after : List Int) :
    everyOther keep (before ++ after) =
      ((everyOther (everyOther keep before).1 after).1,
        (everyOther keep before).2 ++ (everyOther (everyOther keep before).1 after).2) := by
  induction before generalizing keep with
  | nil => rfl
  | cons sample before ih =>
    cases keep <;> simp [everyOther, ih]

/-- `live_transcribe.py --streaming` from 32 kHz to 16 kHz. -/
def Job.halved : Job Int (List Int) Bool where
  script := .transcribe
  streaming := true
  includeMic := false
  systemDevice := none
  micDevice := none
  recordingOutput := true
  stopFileNamed := true
  captureRate := 32000
  sampleRate := 16000
  chunkSeconds := 48000
  maxBacklog := 4
  mixAudio system _ := system
  resampleStream := ⟨true, everyOther, fun _ => []⟩
  soxrResample samples _ _ := (everyOther true samples).2
  streaming_server _ := Script.noConfusion

theorem Job.halved_agrees : Job.halved.StreamAgrees := by
  intro blocks
  have hchunks : halved.resampleStream.chunks blocks = everyOther true blocks.flatten := by
    induction blocks using List.reverseRecOn with
    | nil => rfl
    | append_singleton blocks block ih =>
      rw [Resampler.chunks_concat, ih, List.flatten_concat, everyOther_append]
      rfl
  rw [Resampler.whole, hchunks]
  exact List.append_nil _

/-- A session of two blocks of three samples each. The stop file is seen while the second is
    recorded. -/
theorem halved_run (x₁ x₂ x₃ y₁ y₂ y₃ : Int) :
    let _ := asciiCasefold
    ∃ s, (system Job.halved).Reachable s ∧ s.capture.pc = .settingStop none ∧
      s.recorded = [[x₁, x₂, x₃], [y₁, y₂, y₃]] ∧ s.queued = [[x₁, x₃], [y₂], []] := by
  intro _
  have found : selectSystemLoopback .plain none = .ok .speakers := rfl
  have unlimited : ∀ queue, ¬Job.halved.full queue := by simp [Job.full, Job.maxsize, Job.halved]
  have h := Reachable.start (S := system Job.halved) rfl
  have h := h.next (.main (.select rfl found (by simp [Job.halved])))
  have h := h.next (.main (.load rfl))
  have h := h.next (.main (.startCapture rfl))
  have h := h.next (.capture (.selectSystem rfl found))
  have h := h.next (.capture (.opened rfl))
  have h := h.next (.capture (.loopGoesOn rfl rfl))
  have h := h.next (.capture (.recordSystem [x₁, x₂, x₃] rfl))
  have h := h.next (.capture (.resample rfl))
  have h := h.next (.capture (.write rfl))
  have h := h.next (.capture (.batchFull rfl (Nat.le_of_ble_eq_true rfl)))
  have h := h.next (.capture (.put rfl (unlimited _)))
  have h := h.next (.capture (.loopGoesOn rfl rfl))
  have h := h.next (.capture (.recordSystem [y₁, y₂, y₃] rfl))
  have h := h.next .stopRequested
  have h := h.next (.watcherSees rfl rfl)
  have h := h.next (.capture (.resample rfl))
  have h := h.next (.capture (.write rfl))
  have h := h.next (.capture (.batchFull rfl (Nat.le_of_ble_eq_true rfl)))
  have h := h.next (.capture (.put rfl (unlimited _)))
  have h := h.next (.capture (.loopEnds rfl rfl))
  have h := h.next (.capture (.flush rfl))
  have h := h.next (.capture (.writeTail rfl))
  have h := h.next (.capture (.closed rfl))
  have h := h.next (.capture (.queueTail rfl (by simp [State.captureAt, State.writes])))
  have h := h.next (.capture (.put rfl (unlimited _)))
  exact ⟨_, h, rfl, rfl, rfl⟩

/-- Two blocks of three silent samples, which make three at half the rate. -/
theorem wav_onePass_iff_halved :
    let _ := asciiCasefold
    ∃ s, (system Job.halved).Reachable s ∧ s.recorded = [[0, 0, 0], [0, 0, 0]] ∧
      s.wav = [0, 0, 0] := by
  intro _
  obtain ⟨s, hs, hpc, hrecorded, -⟩ := halved_run 0 0 0 0 0 0
  refine ⟨s, hs, hrecorded, ?_⟩
  have hwav := wav_onePass_iff.1 Job.halved Job.halved_agrees rfl s hs (.inl hpc)
  rw [hrecorded] at hwav
  exact hwav

/-- Three samples of six are left, in two chunks and an empty one. -/
theorem queued_eq_wav_halved :
    let _ := asciiCasefold
    ∃ s, (system Job.halved).Reachable s ∧ s.capture.pc.returned ∧
      s.queued = [[1, 3], [5], []] ∧ s.wav = [1, 3, 5] := by
  intro _
  obtain ⟨s, hs, hpc, -, hqueued⟩ := halved_run 1 2 3 4 5 6
  refine ⟨s, hs, .inl hpc, hqueued, ?_⟩
  have hwav := (queued_eq_wav Job.halved rfl rfl hs (.inl hpc)).1
  rw [hqueued] at hwav
  exact hwav.symm

/-- `record_audio` from 32 kHz to 16 kHz until Enter. -/
def RecordJob.halved : RecordJob Int (List Int) where
  includeMic := false
  untilEnter := true
  captureRate := 32000
  sampleRate := 16000
  chunkSeconds := 3
  duration := 0
  mixAudio system _ := system
  soxrResample samples _ _ := (everyOther true samples).2

/-- **`record_audio` makes four samples of the same two blocks**, two of each. -/
theorem recording_has_seam :
    ¬∀ (job : RecordJob Int (List Int)) (turns : List (Turn (List Int))),
      job.recordAudio turns = job.onePass turns := by
  intro hclaim
  have hseam := hclaim RecordJob.halved
    [⟨false, fun frames => .replicate frames 0, fun _ => []⟩,
      ⟨false, fun frames => .replicate frames 0, fun _ => []⟩]
  revert hseam
  decide

end Live
end LocalMeetingStt
