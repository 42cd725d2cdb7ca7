import LocalMeetingStt.Live.Stream
import LocalMeetingStt.Live.Backlog

/-!
# How a session ends once it is to stop

The stop event is never taken back, so from the moment it is set the capture thread makes
at most one more pass of its loop and the consumer empties the queue. Neither waits for
the other: the consumer's `get` and the `join` have timeouts, and `put_nowait` does not
block. `stop_ends` turns this into numbers: a bound on the steps of both threads together,
and a next step for each of them short of its end.
-/

namespace LocalMeetingStt
namespace Live

open Transition Transition.System

variable {α β ρ : Type}

/-- The capture thread's steps that are left once the event is set, a put chunk counting
    for the five steps the consumer makes of it. -/
def CapturePc.stopRank : CapturePc α β → Nat
  | .dead _ => 0
  | .exiting _ => 1
  | .settingStop _ => 2
  | .raised _ => 3
  | .warning .tail => 4
  | .putAgain _ .tail => 10
  | .makeRoom _ .tail => 11
  | .enqueue _ .tail => 12
  | .queueTail => 13
  | .closing => 14
  | .writeTail _ => 15
  | .flush => 16
  | .loopTest => 17
  | .warning .loop => 18
  | .putAgain _ .loop => 24
  | .makeRoom _ .loop => 25
  | .enqueue _ .loop => 26
  | .batch _ => 27
  | .write _ => 28
  | .resample _ => 29
  | .recordMic _ => 30
  | .recordSystem => 31
  | .opening => 32
  | .selectMic => 33
  | .selectSystem => 34
  | .notStarted => 35

/-- And the main thread's, when nothing is queued. -/
def MainPc.stopRank : MainPc α → Nat
  | .ended _ => 0
  | .printing => 1
  | .finalErrorsTest _ => 2
  | .aliveTest _ => 3
  | .stoppingServer _ => 4
  | .joining _ => 5
  | .settingStop _ => 6
  | .finish => 7
  | .lastErrorsTest | .nextLastErrorsTest => 8
  | .stopTest | .nextStopTest => 9
  | .get | .nextGet | .transcribe _ => 10
  | .errorsTest | .nextErrorsTest | .latest _ => 11
  | .process | .staleWarning _ => 12
  | .feed _ => 13
  | .drain _ => 14
  | .starting => 15
  | .loading => 16
  | .selecting => 17

def State.stopRank (s : State α β ρ) : Nat :=
  s.capture.pc.stopRank + s.main.stopRank + 5 * s.chunks.length

section

variable [Casefold] {job : Job α β ρ} {s s' : State α β ρ}

omit [Casefold] in
theorem stopRank_inTarget {c : Capture α β ρ} (h : c.inTarget) : 3 < c.pc.stopRank := by
  cases hpc : c.pc with
  | putAgain _ caller | makeRoom _ caller | enqueue _ caller | warning caller =>
    cases caller <;> simp [CapturePc.stopRank]
  | _ => simp_all [Capture.inTarget, CapturePc.stopRank]

theorem CaptureStep.stopRank_lt (h : CaptureStep job s s') (hstop : s.stopEvent = true) :
    s'.stopRank < s.stopRank := by
  unfold State.stopRank
  cases h
  case selectSystem | recordSystem =>
    cases hmic : job.includeMic <;> simp_all [CapturePc.stopRank]
  case put caller _ _ | putAgain caller _ _ | warns caller _ =>
    cases caller <;> simp_all [CapturePc.stopRank, Capture.back, State.puts] <;> omega
  case queueFull caller _ _ => cases caller <;> simp_all [CapturePc.stopRank]
  case makeRoom caller _ => cases caller <;> simp_all [CapturePc.stopRank] <;> omega
  case fails running =>
    have := stopRank_inTarget running
    show 3 + s.main.stopRank + 5 * s.chunks.length < _
    omega
  all_goals simp_all [CapturePc.stopRank, State.writes]

theorem MainStep.stopRank_lt (h : MainStep job s s') (hstop : s.stopEvent = true)
    (hbefore : ¬s.main.started → s.capture.pc = .notStarted) : s'.stopRank < s.stopRank := by
  unfold State.stopRank
  cases h
  case consumerFails consuming =>
    cases hpc : s.main <;> simp_all [MainPc.stopRank, MainPc.consuming]
  case concludingFails concluding =>
    cases hpc : s.main <;> simp_all [MainPc.stopRank, MainPc.concluding]
  case startCapture at_ =>
    have hpc := hbefore (by simp [at_, MainPc.started])
    cases hstreaming : job.streaming <;>
      simp [at_, hpc, Job.consumer, hstreaming, MainPc.stopRank, CapturePc.stopRank]
  case loadFails at_ | startFails at_ =>
    cases hscript : job.script <;> simp [at_, Script.outside, MainPc.stopRank]
  case nextGet chunk rest at_ queued =>
    show s.capture.pc.stopRank +
      (if job.script = .cppServer then MainPc.latest chunk else .transcribe chunk).stopRank +
        5 * rest.length < _
    rw [at_, queued, List.length_cons]
    split_ifs <;> simp only [MainPc.stopRank] <;> omega
  case get at_ queued | drain at_ queued | skipsStale at_ queued =>
    rw [at_, queued, List.length_cons]
    simp only [State.mainAt, MainPc.stopRank]
    omega
  all_goals simp_all [MainPc.stopRank]

/-- Before the capture thread is started the main thread has a step, too. -/
theorem MainStep.enabled_always (h : ∀ result, s.main ≠ .ended result) :
    ∃ s', MainStep job s s' := by
  by_cases hstarted : s.main.started
  · exact MainStep.enabled hstarted h
  · cases hpc : s.main with
    | selecting => exact ⟨_, .selectFails deviceDidNotStop hpc⟩
    | loading => exact ⟨_, .load hpc⟩
    | starting => exact ⟨_, .startCapture hpc⟩
    | _ => simp [hpc, MainPc.started] at hstarted

/-- `enqueue_chunk` always finds room for the chunk it has made room for. -/
theorem hasRoom_reachable (hs : (system job).Reachable s) :
    s.capture.pc.hasRoom job s.chunks := by
  cases hstreaming : job.streaming with
  | true =>
    have hnever := (taken_reachable hstreaming hs).unlimited
    cases hpc : s.capture.pc with
    | putAgain chunk caller => exact absurd hpc (hnever chunk caller).2
    | _ => trivial
  | false =>
    obtain ⟨a, ha⟩ := Backlog.of_reachable hs
    exact (accounted_reachable hstreaming ha).room

/-- Where a step that is no failure may still lead to one: the device is gone. -/
def CapturePc.selecting : CapturePc α β → Prop
  | .selectSystem | .selectMic => True
  | _ => False

/-- Inside `record`, which waits for the device. -/
def CapturePc.recording : CapturePc α β → Prop
  | .recordSystem | .recordMic _ => True
  | _ => False

/-- The capture thread waits for nothing but the device: short of its end, and outside
    `record`, it has a step, which is not a new failure once it has its devices. -/
theorem CaptureStep.enabled (h : s.capture.alive) (hdevice : ¬s.capture.pc.recording)
    (hroom : s.capture.pc.hasRoom job s.chunks) :
    ∃ s', CaptureStep job s s' ∧
      (s'.capture.pc.failed → s.capture.pc.failed ∨ s.capture.pc.selecting) := by
  cases hpc : s.capture.pc with
  | notStarted | dead => simp [Capture.alive, hpc] at h
  | selectSystem =>
    cases hfound : selectSystemLoopback .plain job.systemDevice with
    | ok device => exact ⟨_, .selectSystem hpc hfound, fun _ => .inr trivial⟩
    | error failure => exact ⟨_, .systemMissing hpc hfound, fun _ => .inr trivial⟩
  | selectMic =>
    cases hfound : selectMicrophone .plain job.micDevice with
    | ok device => exact ⟨_, .selectMic hpc hfound, fun _ => .inr trivial⟩
    | error failure => exact ⟨_, .micMissing hpc hfound, fun _ => .inr trivial⟩
  | opening => exact ⟨_, .opened hpc, False.elim⟩
  | loopTest =>
    cases hstop : s.stopEvent with
    | false => exact ⟨_, .loopGoesOn hpc hstop, False.elim⟩
    | true => exact ⟨_, .loopEnds hpc hstop, False.elim⟩
  | recordSystem | recordMic => simp [hpc, CapturePc.recording] at hdevice
  | resample mixed => exact ⟨_, .resample hpc, False.elim⟩
  | write mono => exact ⟨_, .write hpc, False.elim⟩
  | batch mono =>
    by_cases henough : job.chunkSamples ≤ s.capture.pendingFrames + mono.length
    · exact ⟨_, .batchFull hpc henough, False.elim⟩
    · exact ⟨_, .batchOpen hpc (by omega), False.elim⟩
  | flush => exact ⟨_, .flush hpc, False.elim⟩
  | writeTail tail => exact ⟨_, .writeTail hpc, False.elim⟩
  | closing => exact ⟨_, .closed hpc, False.elim⟩
  | queueTail =>
    by_cases hpending : s.capture.pending = []
    · exact ⟨_, .noTail hpc hpending, fun hfailed => absurd rfl hfailed⟩
    · exact ⟨_, .queueTail hpc hpending, False.elim⟩
  | enqueue chunk caller =>
    by_cases hfull : job.full s.chunks
    · exact ⟨_, .queueFull hpc hfull, False.elim⟩
    · refine ⟨_, .put hpc hfull, ?_⟩
      cases caller <;> simp [Capture.back, CapturePc.failed]
  | makeRoom chunk caller => exact ⟨_, .makeRoom hpc, False.elim⟩
  | putAgain chunk caller =>
    rw [hpc] at hroom
    exact ⟨_, .putAgain hpc hroom, False.elim⟩
  | warning caller =>
    refine ⟨_, .warns hpc, ?_⟩
    cases caller <;> simp [Capture.back, CapturePc.failed]
  | raised failure =>
    cases failure with
    | exception message => exact ⟨_, .caught hpc, fun _ => .inl trivial⟩
    | systemExit message => exact ⟨_, .uncaught hpc, fun _ => .inl trivial⟩
  | settingStop failure => exact ⟨_, .setsStop hpc, .inl⟩
  | exiting failure => exact ⟨_, .exits hpc, .inl⟩

/-- The steps the two threads take, as against what happens around them. -/
def OwnStep (job : Job α β ρ) (s s' : State α β ρ) : Prop :=
  CaptureStep job s s' ∨ MainStep job s s'

theorem Step.stopRank_le (hs : (system job).Reachable s) (hstop : s.stopEvent = true)
    (h : Step job s s') : s'.stopEvent = true ∧ s'.stopRank ≤ s.stopRank := by
  rcases h with hstep | hstep | - | - | -
  · refine ⟨?_, (hstep.stopRank_lt hstop).le⟩
    rcases hstep.stopEvent with heq | ⟨heq, -⟩
    · exact heq.trans hstop
    · exact heq
  · refine ⟨?_, (hstep.stopRank_lt hstop (explained_reachable hs).before).le⟩
    rcases hstep.stopEvent with heq | ⟨heq, -⟩
    · exact heq.trans hstop
    · exact heq
  · exact ⟨hstop, le_rfl⟩
  · exact ⟨rfl, le_rfl⟩
  · exact ⟨hstop, le_rfl⟩

/-- No stretch of a run has more steps of the two threads than the rank it starts from. -/
theorem paced_stopRank (hs : (system job).Reachable s) (hstop : s.stopEvent = true) {n : Nat}
    (h : Paced (system job).next (OwnStep job) n s s') : n + s'.stopRank ≤ s.stopRank := by
  refine (h.le_rank State.stopRank
    (I := fun s => (system job).Reachable s ∧ s.stopEvent = true) ?_ ?_ ⟨hs, hstop⟩).2
  · rintro s s' ⟨hr, hstop⟩ hstep
    obtain ⟨hstop', hle⟩ := Step.stopRank_le hr hstop hstep
    exact ⟨⟨hr.next hstep, hstop'⟩, hle⟩
  · rintro s s' ⟨hr, hstop⟩ - (hstep | hstep)
    · exact hstep.stopRank_lt hstop
    · exact hstep.stopRank_lt hstop (explained_reachable hr).before

omit [Casefold] in
theorem stopRank_le (s : State α β ρ) : s.stopRank ≤ 52 + 5 * s.chunks.length := by
  have hcapture : s.capture.pc.stopRank ≤ 35 := by
    cases s.capture.pc with
    | putAgain _ caller | makeRoom _ caller | enqueue _ caller | warning caller =>
      cases caller <;> simp [CapturePc.stopRank]
    | _ => simp [CapturePc.stopRank]
  have hmain : s.main.stopRank ≤ 17 := by cases s.main <;> simp [MainPc.stopRank]
  unfold State.stopRank
  omega

/-- **A session that is to stop ends.** From the moment the stop event is set, in whatever
    order the threads run, the two of them together take at most 52 more steps and 5 for
    each queued chunk. Neither gets stuck: short of its end the main thread has a step of
    its own whatever the capture thread does, and the capture thread has one unless it waits
    for its device inside `record`. The step it has need not be its next, since anything it
    does may fail; but once its devices are selected there is one that is no failure. -/
theorem stop_ends (job : Job α β ρ) (s : State α β ρ) (hs : (system job).Reachable s)
    (hstop : s.stopEvent = true) :
    (∀ n s', Paced (system job).next (OwnStep job) n s s' → n ≤ 52 + 5 * s.chunks.length) ∧
    ∀ s', Relation.ReflTransGen (system job).next s s' →
      ((∀ result, s'.main ≠ .ended result) → ∃ s'', MainStep job s' s'') ∧
      (s'.capture.alive → ¬s'.capture.pc.recording →
        ∃ s'', CaptureStep job s' s'' ∧
          (s''.capture.pc.failed → s'.capture.pc.failed ∨ s'.capture.pc.selecting)) := by
  refine ⟨fun n s' hpaced => ?_, fun s' hrun => ⟨MainStep.enabled_always, ?_⟩⟩
  · have := paced_stopRank hs hstop hpaced
    have := stopRank_le s
    omega
  · intro halive hdevice
    have hr : (system job).Reachable s' := stretch_keeps (fun h hstep => h.next hstep) hrun hs
    exact CaptureStep.enabled halive hdevice (hasRoom_reachable hr)

end

/-- A session that is stopped while its capture thread is inside `record`: both threads
    together have at most 52 steps before them, and the main thread has one. -/
theorem stop_ends_recording :
    let _ := asciiCasefold
    ∃ s : State Nat (List Nat) Unit, (system Job.plain).Reachable s ∧ s.stopEvent = true ∧
      s.capture.pc = .recordSystem ∧ (∃ s', MainStep Job.plain s s') ∧
      ∀ n s', Paced (system Job.plain).next (OwnStep Job.plain) n s s' → n ≤ 52 := by
  intro _
  have found : selectSystemLoopback .plain none = .ok .speakers := rfl
  have h := Reachable.start (S := system Job.plain) rfl
  have h := h.next (.main (.select rfl found (by simp [Job.plain])))
  have h := h.next (.main (.load rfl))
  have h := h.next (.main (.startCapture rfl))
  have h := h.next (.capture (.selectSystem rfl found))
  have h := h.next (.capture (.opened rfl))
  have h := h.next (.capture (.loopGoesOn rfl rfl))
  have h := h.next .stopRequested
  have h := h.next (.watcherSees rfl rfl)
  obtain ⟨hbound, hsteps⟩ := stop_ends Job.plain _ h rfl
  refine ⟨_, h, rfl, rfl, (hsteps _ .refl).1 ?_, hbound⟩
  intro result hend
  cases hend

end Live
end LocalMeetingStt
