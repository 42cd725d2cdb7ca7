import LocalMeetingStt.Live.Failures

/-!
# What `capture_audio` does with the samples

Every sample the resampler answers is written to the recording and put on the queue, each
in the order the resampler answered. Between the two it is in the hands of the capture
thread: in the variable of the current step, or in `pending`. The four copies of this
bookkeeping, with and without a microphone and in both scripts, are one here; it is the
step relation of `Session.lean` that each of them is an instance of.

`Kept` states this with nothing but the state of one moment, for a thread that has not
failed. At the end of `capture_audio` nothing is in its hands any more, so the recording
and the queued chunks are both all that was resampled (`Kept.returned`).
-/

namespace LocalMeetingStt
namespace Live

open Transition Transition.System

variable {α β ρ : Type}

/-! ## A resampler over a whole recording -/

namespace Resampler

/-- The calls for a list of blocks: the state they lead to, and all they answered. -/
def chunks (r : Resampler ρ α) (blocks : List (List α)) : ρ × List α :=
  blocks.foldl
    (fun answered block =>
      ((r.chunk answered.1 block).1, answered.2 ++ (r.chunk answered.1 block).2))
    (r.start, [])

/-- And with what the last call gives back. -/
def whole (r : Resampler ρ α) (blocks : List (List α)) : List α :=
  (r.chunks blocks).2 ++ r.flush (r.chunks blocks).1

theorem chunks_concat (r : Resampler ρ α) (blocks : List (List α)) (block : List α) :
    r.chunks (blocks ++ [block]) =
      ((r.chunk (r.chunks blocks).1 block).1,
        (r.chunks blocks).2 ++ (r.chunk (r.chunks blocks).1 block).2) := by
  simp [chunks, List.foldl_append]

end Resampler

/-! ## Where a resampled sample is -/

/-- The samples the capture thread has resampled and not queued yet. -/
def Capture.inHand (c : Capture α β ρ) : List α :=
  match c.pc with
  | .write mono | .batch mono => c.pending.flatten ++ mono
  | .writeTail tail => c.pending.flatten ++ tail
  | .enqueue chunk _ | .makeRoom chunk _ | .putAgain chunk _ => chunk
  | .warning _ | .raised _ | .settingStop _ | .exiting _ | .dead _ => []
  | _ => c.pending.flatten

/-- And those it has not written yet. -/
def CapturePc.unwritten : CapturePc α β → List α
  | .write mono => mono
  | .writeTail tail => tail
  | _ => []

/-- The resampler was asked for its last samples, and nothing has failed. -/
def CapturePc.flushed : CapturePc α β → Bool
  | .writeTail _ | .closing | .queueTail => true
  | .enqueue _ caller | .makeRoom _ caller | .putAgain _ caller | .warning caller =>
    decide (caller = .tail)
  | .settingStop failure | .exiting failure | .dead failure => failure.isNone
  | _ => false

/-- The bookkeeping of a capture thread that has not failed. -/
structure Kept (job : Job α β ρ) (s : State α β ρ) : Prop where
  queued : s.queued.flatten ++ s.capture.inHand = s.resampled
  written : job.recordingOutput = true → s.wav ++ s.capture.pc.unwritten = s.resampled
  resampler : s.capture.resampler = (job.resampler.chunks s.recorded).1
  resampled : s.resampled =
    (job.resampler.chunks s.recorded).2 ++
      if s.capture.pc.flushed then job.resampler.flush s.capture.resampler else []

section

variable [Casefold] {job : Job α β ρ} {s s' : State α β ρ}

theorem Kept.step (h : Kept job s) (hstep : CaptureStep job s s')
    (hs' : ¬s'.capture.pc.failed) : Kept job s' := by
  obtain ⟨hqueued, hwritten, hresampler, hresampled⟩ := h
  cases hstep
  case selectSystem | recordSystem =>
    cases hmic : job.includeMic <;> refine ⟨?_, ?_, ?_, ?_⟩ <;>
      simp_all [Capture.inHand, CapturePc.unwritten, CapturePc.flushed, State.captureAt]
  case put caller _ _ | putAgain caller _ _ | warns caller _ =>
    cases caller <;> refine ⟨?_, ?_, ?_, ?_⟩ <;>
      simp_all [Capture.inHand, CapturePc.unwritten, CapturePc.flushed, Capture.back, State.puts,
        State.captureAt]
  -- The only steps that resample; the others hand the samples on.
  case resample | flush =>
    refine ⟨?_, ?_, ?_, ?_⟩ <;>
      simp_all [Capture.inHand, CapturePc.unwritten, CapturePc.flushed, Resampler.chunks_concat,
        State.captureAt]
    rw [← List.append_assoc, hqueued]
  all_goals refine ⟨?_, ?_, ?_, ?_⟩
  all_goals
    simp_all [Capture.inHand, CapturePc.unwritten, CapturePc.flushed, State.captureAt,
      State.writes, CapturePc.failed]

theorem MainStep.recording (h : MainStep job s s') :
    s'.wav = s.wav ∧ s'.recorded = s.recorded ∧ s'.resampled = s.resampled ∧
      s'.queued = s.queued := by
  cases h <;> exact ⟨rfl, rfl, rfl, rfl⟩

theorem Kept.main (h : Kept job s) (hstep : MainStep job s s')
    (hbefore : ¬s.main.started → s.capture.pc = .notStarted) : Kept job s' := by
  obtain ⟨hwav, hrecorded, hresampled, hqueued⟩ := hstep.recording
  obtain ⟨h₁, h₂, h₃, h₄⟩ := h
  obtain ⟨-, -, heq | ⟨hmain, heq⟩⟩ := hstep.frame
  · exact ⟨by rwa [hqueued, heq, hresampled], by rwa [hwav, heq, hresampled],
      by rwa [heq, hrecorded], by rwa [hresampled, hrecorded, heq]⟩
  · have hpc := hbefore (by simp [hmain, MainPc.started])
    simp only [Capture.inHand, CapturePc.unwritten, CapturePc.flushed, hpc] at h₁ h₂ h₄
    refine ⟨?_, ?_, ?_, ?_⟩
    · simpa only [hqueued, hresampled, heq, Capture.inHand] using h₁
    · simpa only [hwav, hresampled, heq, CapturePc.unwritten] using h₂
    · rw [hrecorded, heq]
      exact h₃
    · simpa only [hresampled, hrecorded, heq, CapturePc.flushed] using h₄

theorem kept_reachable (hs : (system job).Reachable s) (hgood : ¬s.capture.pc.failed) :
    Kept job s := by
  refine Inductive.reachable (I := fun s => ¬s.capture.pc.failed → Kept job s) ⟨?_, ?_⟩ hs hgood
  · rintro _ rfl -
    exact ⟨rfl, fun _ => rfl, rfl, rfl⟩
  · rintro s s' hr h (hstep | hstep | - | - | -) hgood'
    · exact (h fun hfailed => hgood' (hstep.failed hfailed)).step hstep hgood'
    · have hbefore := (explained_reachable hr).before
      refine (h fun hfailed => hgood' ?_).main hstep hbefore
      obtain ⟨-, -, heq | ⟨hmain, -⟩⟩ := hstep.frame
      · rwa [heq]
      · simp [hbefore (by simp [hmain, MainPc.started]), CapturePc.failed] at hfailed
    · exact ⟨(h hgood').queued, (h hgood').written, (h hgood').resampler, (h hgood').resampled⟩
    · exact ⟨(h hgood').queued, (h hgood').written, (h hgood').resampler, (h hgood').resampled⟩
    · exact ⟨(h hgood').queued, (h hgood').written, (h hgood').resampler, (h hgood').resampled⟩

omit [Casefold] in
/-- **`capture_audio` has put on the queue, and in the recording, all the resampler makes
    of the recorded blocks**, its last samples included. -/
theorem Kept.returned (h : Kept job s)
    (hpc : s.capture.pc = .settingStop none ∨ s.capture.pc = .exiting none ∨
      s.capture.pc = .dead none) :
    s.queued.flatten = job.resampler.whole s.recorded ∧
      (job.recordingOutput = true → s.wav = job.resampler.whole s.recorded) := by
  have hwhole : s.resampled = job.resampler.whole s.recorded := by
    have hflushed : s.capture.pc.flushed = true := by
      rcases hpc with heq | heq | heq <;> simp [heq, CapturePc.flushed]
    rw [h.resampled, if_pos hflushed, h.resampler]
    rfl
  rw [← hwhole]
  refine ⟨?_, fun hrecording => ?_⟩
  · have hnone : s.capture.inHand = [] := by
      rcases hpc with heq | heq | heq <;> simp [heq, Capture.inHand]
    simpa [hnone] using h.queued
  · have hnone : s.capture.pc.unwritten = [] := by
      rcases hpc with heq | heq | heq <;> simp [heq, CapturePc.unwritten]
    simpa [hnone] using h.written hrecording

end

end Live
end LocalMeetingStt
