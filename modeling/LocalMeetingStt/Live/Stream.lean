import LocalMeetingStt.Live.Recording

/-!
# What of the queue `run_streaming` feeds to the segmenter

The queue of a streaming session has no limit, so nothing is dropped from it, and the
consumer takes its chunks in order: in every state what was fed, what the consumer holds
and what is still queued is, one after the other, everything ever put (`Taken`).

Whether the rest is empty when the consumer leaves is another matter. It leaves on an
empty queue with the stop event set, and the event is set before the capture thread has
recorded its last block and flushed its resampler: what is put after that reaches the
recording and no caption. `streamed_whole` is the contract for the sessions in which the
consumer leaves late enough (`LeavesLate`).
-/

namespace LocalMeetingStt
namespace Live

open Transition Transition.System

variable {α β ρ : Type}

namespace MainPc

/-- What the consumer has taken from the queue and not fed yet. -/
def hand : MainPc α → List (List α)
  | .drain blocks | .feed blocks => blocks
  | _ => []

/-- The consumer of a session without `--streaming`. -/
def chunked : MainPc α → Prop
  | .nextStopTest | .nextErrorsTest | .nextGet | .latest _ | .staleWarning _ | .transcribe _
  | .nextLastErrorsTest => True
  | _ => False

/-- `run_streaming` has left its loop, and nothing has failed. -/
def left : MainPc α → Prop
  | .lastErrorsTest | .finish | .printing => True
  | .settingStop failure | .joining failure | .stoppingServer failure | .aliveTest failure
  | .finalErrorsTest failure | .ended failure => failure = none
  | _ => False

end MainPc

/-- `capture_audio` puts nothing on the queue any more. -/
def CapturePc.allPut : CapturePc α β → Prop
  | .raised _ | .settingStop _ | .exiting _ | .dead _ => True
  | _ => False

/-- The condition on a step: `run_streaming` leaves its loop only when the capture thread
    has put its last chunk, and the queue is empty. -/
def LeavesLate (s s' : State α β ρ) : Prop :=
  s.main = .stopTest → s'.main = .lastErrorsTest → s.capture.pc.allPut ∧ s.chunks = []

/-- The streaming consumer's account of the queue. -/
structure Taken (s : State α β ρ) : Prop where
  unlimited : ∀ chunk caller, s.capture.pc ≠ .makeRoom chunk caller ∧
    s.capture.pc ≠ .putAgain chunk caller
  streaming : ¬s.main.chunked
  order : s.fed.flatten <+: s.queued.flatten
  account : ¬s.main.failed →
    s.fed.flatten ++ s.main.hand.flatten ++ s.chunks.flatten = s.queued.flatten

section

variable [Casefold] {job : Job α β ρ} {s s' : State α β ρ}

theorem CaptureStep.queue (h : CaptureStep job s s') (hs : Taken s) :
    s'.fed = s.fed ∧ ∃ put, s'.chunks = s.chunks ++ put ∧ s'.queued = s.queued ++ put := by
  cases h
  case put chunk _ _ _ => exact ⟨rfl, [chunk], rfl, rfl⟩
  case putAgain chunk caller at_ room => exact absurd at_ (hs.unlimited chunk caller).2
  case makeRoom chunk caller at_ => exact absurd at_ (hs.unlimited chunk caller).1
  all_goals
    refine ⟨rfl, [], ?_, ?_⟩ <;> simp [State.captureAt, State.writes]

theorem CaptureStep.unlimited (h : CaptureStep job s s') (hstreaming : job.streaming = true)
    (hs : Taken s) (chunk : List α) (caller : Caller) :
    s'.capture.pc ≠ .makeRoom chunk caller ∧ s'.capture.pc ≠ .putAgain chunk caller := by
  cases h
  case selectSystem | recordSystem => cases hmic : job.includeMic <;> simp_all
  case put caller _ _ | warns caller _ => cases caller <;> simp_all [Capture.back]
  case queueFull full => simp [Job.full, Job.maxsize, hstreaming] at full
  case makeRoom chunk caller at_ => exact absurd at_ (hs.unlimited chunk caller).1
  all_goals simp_all

theorem Taken.capture (h : Taken s) (hstreaming : job.streaming = true)
    (hstep : CaptureStep job s s') : Taken s' := by
  obtain ⟨hfed, put, hchunks, hqueued⟩ := hstep.queue h
  have hmain := hstep.frame.1
  refine ⟨hstep.unlimited hstreaming h, hmain ▸ h.streaming, ?_, fun hgood => ?_⟩
  · rw [hfed, hqueued, List.flatten_append]
    exact h.order.trans (List.prefix_append _ _)
  · rw [hmain] at hgood ⊢
    rw [hfed, hchunks, hqueued, List.flatten_append, List.flatten_append, ← h.account hgood]
    simp

omit [Casefold] in
/-- `run_live` hands `run_streaming` the same rate twice. -/
theorem Job.resampleAudio_same (job : Job α β ρ) (blocks : List (List α)) :
    (blocks.map fun item => job.resampleAudio item job.sampleRate job.sampleRate) = blocks := by
  simp [Job.resampleAudio]

theorem MainStep.feeds (h : MainStep job s s') :
    s'.fed = s.fed ∨ ∃ blocks, s.main = .feed blocks ∧ s'.fed = s.fed ++ [blocks.flatten] := by
  cases h with
  | feed at_ => exact .inr ⟨_, at_, by rw [Job.resampleAudio_same]⟩
  | _ => exact .inl rfl

theorem MainStep.chunked (h : MainStep job s s') (hstreaming : job.streaming = true)
    (hs' : s'.main.chunked) : s.main.chunked := by
  cases h
  case startCapture => simp [Job.consumer, hstreaming, MainPc.chunked] at hs'
  case loadFails | startFails =>
    cases hs : job.script <;> simp [Script.outside, hs, MainPc.chunked] at hs'
  all_goals simp_all [MainPc.chunked]

theorem Taken.main (h : Taken s) (hstreaming : job.streaming = true)
    (hstep : MainStep job s s') : Taken s' := by
  obtain ⟨-, -, -, hqueued⟩ := hstep.recording
  refine ⟨?_, fun hchunked => h.streaming (hstep.chunked hstreaming hchunked), ?_, ?_⟩
  · intro chunk caller
    obtain ⟨-, -, heq | ⟨-, heq⟩⟩ := hstep.frame
    · rw [heq]
      exact h.unlimited chunk caller
    · simp [heq]
  · rw [hqueued]
    rcases hstep.feeds with heq | ⟨blocks, hmain, heq⟩
    · exact heq ▸ h.order
    · have haccount := h.account (by simp [hmain, MainPc.failed])
      rw [heq, ← haccount, hmain]
      simp [MainPc.hand]
  · intro hgood
    have haccount := h.account fun hfailed => hgood (hstep.failed hfailed)
    have hstream := h.streaming
    rw [hqueued, ← haccount]
    cases hstep
    case startCapture => simp_all [MainPc.hand, Job.consumer]
    case loadFails | startFails =>
      cases hs : job.script <;> simp_all [MainPc.failed, Script.outside]
    case nextGet at_ _ => simp [at_, MainPc.chunked] at hstream
    case feed at_ =>
      rw [Job.resampleAudio_same]
      simp [at_, MainPc.hand]
    all_goals simp_all [MainPc.hand, MainPc.failed, MainPc.chunked, MainPc.consuming]

theorem taken_reachable (hstreaming : job.streaming = true) (hs : (system job).Reachable s) :
    Taken s := by
  refine Inductive.reachable ⟨?_, ?_⟩ hs
  · rintro _ rfl
    exact ⟨fun _ _ => ⟨nofun, nofun⟩, id, List.prefix_rfl, fun _ => rfl⟩
  · rintro s s' - h (hstep | hstep | - | - | -)
    · exact h.capture hstreaming hstep
    · exact h.main hstreaming hstep
    · exact ⟨h.unlimited, h.streaming, h.order, h.account⟩
    · exact ⟨h.unlimited, h.streaming, h.order, h.account⟩
    · exact ⟨h.unlimited, h.streaming, h.order, h.account⟩

/-! ## Leaving late -/

theorem CaptureStep.allPut (h : CaptureStep job s s') (hs : s.capture.pc.allPut) :
    s'.capture.pc.allPut ∧ s'.chunks = s.chunks := by
  cases h
  case fails running =>
    cases hpc : s.capture.pc <;> simp_all [Capture.inTarget, CapturePc.allPut]
  all_goals simp_all [CapturePc.allPut]

theorem MainStep.left (h : MainStep job s s') (hs : ¬s.main.chunked) (hs' : s'.main.left) :
    (s.main.left ∨ s.main = .stopTest ∧ s'.main = .lastErrorsTest) ∧ s'.capture = s.capture ∧
      s'.chunks = s.chunks := by
  cases h
  case startCapture => cases hs : job.streaming <;> simp_all [MainPc.left, Job.consumer]
  case loadFails | startFails =>
    cases hs : job.script <;> simp_all [MainPc.left, Script.outside]
  all_goals simp_all [MainPc.left, MainPc.chunked]

/-- Once the consumer has left late, the capture thread has put everything and the
    consumer has taken it. -/
theorem left_reachable (hstreaming : job.streaming = true)
    (hs : ((system job).restrict LeavesLate).Reachable s) :
    s.main.left → s.capture.pc.allPut ∧ s.chunks = [] := by
  refine Inductive.reachable
    (I := fun s => s.main.left → s.capture.pc.allPut ∧ s.chunks = []) ⟨?_, ?_⟩ hs
  · rintro _ rfl h
    simp [State.start, MainPc.left] at h
  · rintro s s' hr h ⟨hstep | hstep | - | - | -, hlate⟩ hleft
    · obtain ⟨hput, hempty⟩ := h (hstep.frame.1 ▸ hleft)
      obtain ⟨hput', hchunks⟩ := hstep.allPut hput
      exact ⟨hput', hchunks.trans hempty⟩
    · have hstream := (taken_reachable hstreaming hr.of_restrict).streaming
      obtain ⟨hfrom, hcapture, hchunks⟩ := hstep.left hstream hleft
      rw [hcapture, hchunks]
      rcases hfrom with hs | ⟨htest, hlast⟩
      · exact h hs
      · exact hlate htest hlast
    · exact h hleft
    · exact h hleft
    · exact h hleft

omit [Casefold] in
theorem CapturePc.allPut_cases {pc : CapturePc α β} (h : pc.allPut) (hgood : ¬pc.failed) :
    pc = .settingStop none ∨ pc = .exiting none ∨ pc = .dead none := by
  cases pc <;> simp_all [allPut, failed]

omit [Casefold] in
theorem MainPc.left_cases {main : MainPc α} (h : main.left) : ¬main.failed ∧ main.hand = [] := by
  cases main <;> simp_all [left, failed, hand]

/-- **What a streaming session feeds to the segmenter.** In every run the samples fed are
    the first of those queued, in order and none twice, and what is missing of them at the
    end is what is left on the queue. In a run in which the consumer leaves late, and the
    capture does not fail, none is missing: what is fed is all that the resampler makes of
    the recorded blocks, and what the recording holds. -/
theorem streamed_whole (job : Job α β ρ) (hstreaming : job.streaming = true) :
    (∀ s, (system job).Reachable s →
      s.fed.flatten <+: s.queued.flatten ∧
      (¬s.main.failed →
        s.fed.flatten ++ s.main.hand.flatten ++ s.chunks.flatten = s.queued.flatten) ∧
      (s.main.left → (s.fed.flatten = s.queued.flatten ↔ s.chunks.flatten = []))) ∧
    (∀ s, ((system job).restrict LeavesLate).Reachable s → s.main.left →
      ¬s.capture.pc.failed →
      s.fed.flatten = s.queued.flatten ∧
      s.queued.flatten = job.resampler.whole s.recorded ∧
      (job.recordingOutput = true → s.wav = s.fed.flatten)) := by
  have hrest : ∀ s, (system job).Reachable s → s.main.left →
      s.fed.flatten ++ s.chunks.flatten = s.queued.flatten := by
    intro s hs hleft
    obtain ⟨hgood, hhand⟩ := MainPc.left_cases hleft
    simpa [hhand] using (taken_reachable hstreaming hs).account hgood
  refine ⟨fun s hs => ?_, fun s hs hleft hgood => ?_⟩
  · have htaken := taken_reachable hstreaming hs
    refine ⟨htaken.order, htaken.account, fun hleft => ?_⟩
    rw [← hrest s hs hleft]
    simp
  · obtain ⟨hput, hempty⟩ := left_reachable hstreaming hs hleft
    obtain ⟨hqueued, hwav⟩ := (kept_reachable hs.of_restrict hgood).returned
      (CapturePc.allPut_cases hput hgood)
    have hfed : s.fed.flatten = s.queued.flatten := by
      simpa [hempty] using hrest s hs.of_restrict hleft
    exact ⟨hfed, hqueued, fun hrecording => by rw [hwav hrecording, hfed, hqueued]⟩

end

/-- A session that records one block before it is stopped. -/
theorem streamed_whole_one_block :
    let _ := asciiCasefold
    ∃ s, ((system Job.plain).restrict LeavesLate).Reachable s ∧ s.main = .ended none ∧
      s.fed.flatten = [7] ∧ s.wav = s.fed.flatten := by
  intro _
  have found : selectSystemLoopback .plain none = .ok .speakers := rfl
  have unlimited : ∀ queue, ¬Job.plain.full queue := by simp [Job.full, Job.maxsize, Job.plain]
  have h := Reachable.start (S := (system Job.plain).restrict LeavesLate) rfl
  have h := h.next ⟨.main (.select rfl found (by simp [Job.plain])), by intro _ h; cases h⟩
  have h := h.next ⟨.main (.load rfl), by intro _ h; cases h⟩
  have h := h.next ⟨.main (.startCapture rfl), by intro _ h; cases h⟩
  have h := h.next ⟨.capture (.selectSystem rfl found), by intro _ h; cases h⟩
  have h := h.next ⟨.capture (.opened rfl), by intro _ h; cases h⟩
  have h := h.next ⟨.capture (.loopGoesOn rfl rfl), by intro _ h; cases h⟩
  have h := h.next ⟨.capture (.recordSystem [7] rfl), by intro _ h; cases h⟩
  have h := h.next ⟨.capture (.resample rfl), by intro _ h; cases h⟩
  have h := h.next ⟨.capture (.write rfl), by intro _ h; cases h⟩
  have h := h.next ⟨.capture (.batchFull rfl (by decide)), by intro _ h; cases h⟩
  have h := h.next ⟨.capture (.put rfl (unlimited _)), by intro _ h; cases h⟩
  have h := h.next ⟨.stopRequested, by intro _ h; cases h⟩
  have h := h.next ⟨.watcherSees rfl rfl, by intro _ h; cases h⟩
  have h := h.next ⟨.capture (.loopEnds rfl rfl), by intro _ h; cases h⟩
  have h := h.next ⟨.capture (.flush rfl), by intro _ h; cases h⟩
  have h := h.next ⟨.capture (.writeTail rfl), by intro _ h; cases h⟩
  have h := h.next ⟨.capture (.closed rfl), by intro _ h; cases h⟩
  have h := h.next
    ⟨.capture (.queueTail rfl (by simp [State.captureAt, State.writes])), by intro _ h; cases h⟩
  have h := h.next ⟨.capture (.put rfl (unlimited _)), by intro _ h; cases h⟩
  have h := h.next ⟨.main (.noError rfl rfl), by intro _ h; cases h⟩
  have h := h.next ⟨.main (.get rfl rfl), by intro _ h; cases h⟩
  have h := h.next ⟨.main (.drain rfl rfl), by intro _ h; cases h⟩
  have h := h.next ⟨.main (.drained rfl rfl), by intro _ h; cases h⟩
  have h := h.next ⟨.main (.feed rfl), by intro _ h; cases h⟩
  have h := h.next ⟨.main (.processed rfl), by intro _ h; cases h⟩
  have h := h.next ⟨.main (.noError rfl rfl), by intro _ h; cases h⟩
  have h := h.next ⟨.main (.getTimesOut rfl rfl), by intro _ h; cases h⟩
  have h := h.next ⟨.main (.stopped rfl rfl), fun _ _ => ⟨trivial, rfl⟩⟩
  have h := h.next ⟨.main (.noLastError rfl rfl), by intro _ h; cases h⟩
  have h := h.next ⟨.main (.finished rfl), by intro _ h; cases h⟩
  have h := h.next ⟨.capture (.setsStop rfl), by intro _ h; cases h⟩
  have h := h.next ⟨.capture (.exits rfl), by intro _ h; cases h⟩
  have h := h.next ⟨.main (.setsStop rfl), by intro _ h; cases h⟩
  have h := h.next ⟨.main (.joined rfl), by intro _ h; cases h⟩
  have h := h.next ⟨.main (.serverStopped rfl), by intro _ h; cases h⟩
  have h := h.next ⟨.main (.notAlive rfl id), by intro _ h; cases h⟩
  have h := h.next ⟨.main (.goesOn rfl rfl), by intro _ h; cases h⟩
  have h := h.next ⟨.main (.printed rfl), by intro _ h; cases h⟩
  exact ⟨_, h, rfl, rfl,
    ((streamed_whole Job.plain rfl).2 _ h rfl (by simp [CapturePc.failed])).2.2 rfl⟩

/-- **The last words of a meeting are recorded and not transcribed**: the stop event is
    set while the capture thread records a block, the consumer finds the queue empty and
    leaves, and the block and what follows it are put on a queue nobody reads. The session
    ends normally. -/
theorem last_block_not_fed :
    let _ := asciiCasefold
    ∃ s, (system Job.plain).Reachable s ∧ s.main = .ended none ∧ s.capture.pc = .dead none ∧
      s.errors = [] ∧ s.wav = [7] ∧ s.queued.flatten = [7] ∧ s.fed = [] := by
  intro _
  have found : selectSystemLoopback .plain none = .ok .speakers := rfl
  have unlimited : ∀ queue, ¬Job.plain.full queue := by simp [Job.full, Job.maxsize, Job.plain]
  have h := Reachable.start (S := system Job.plain) rfl
  have h := h.next (.main (.select rfl found (by simp [Job.plain])))
  have h := h.next (.main (.load rfl))
  have h := h.next (.main (.startCapture rfl))
  have h := h.next (.capture (.selectSystem rfl found))
  have h := h.next (.capture (.opened rfl))
  have h := h.next (.capture (.loopGoesOn rfl rfl))
  -- the capture thread is inside `record`
  have h := h.next .stopRequested
  have h := h.next (.watcherSees rfl rfl)
  have h := h.next (.main (.noError rfl rfl))
  have h := h.next (.main (.getTimesOut rfl rfl))
  have h := h.next (.main (.stopped rfl rfl))
  have h := h.next (.main (.noLastError rfl rfl))
  have h := h.next (.main (.finished rfl))
  have h := h.next (.main (.setsStop rfl))
  have h := h.next (.capture (.recordSystem [7] rfl))
  have h := h.next (.capture (.resample rfl))
  have h := h.next (.capture (.write rfl))
  have h := h.next (.capture (.batchFull rfl (by decide)))
  have h := h.next (.capture (.put rfl (unlimited _)))
  have h := h.next (.capture (.loopEnds rfl rfl))
  have h := h.next (.capture (.flush rfl))
  have h := h.next (.capture (.writeTail rfl))
  have h := h.next (.capture (.closed rfl))
  have h := h.next (.capture (.queueTail rfl (by simp [State.captureAt, State.writes])))
  have h := h.next (.capture (.put rfl (unlimited _)))
  have h := h.next (.capture (.setsStop rfl))
  have h := h.next (.capture (.exits rfl))
  have h := h.next (.main (.joined rfl))
  have h := h.next (.main (.serverStopped rfl))
  have h := h.next (.main (.notAlive rfl id))
  have h := h.next (.main (.goesOn rfl rfl))
  have h := h.next (.main (.printed rfl))
  exact ⟨_, h, rfl, rfl, rfl, rfl, rfl, rfl⟩

end Live
end LocalMeetingStt
