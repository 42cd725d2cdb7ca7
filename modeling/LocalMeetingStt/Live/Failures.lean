import LocalMeetingStt.Live.Session

/-!
# What becomes of a capture failure

`run_live` learns of a failed capture through the list of errors, which it reads once the
capture thread is dead. `capture_worker` puts every `Exception` there, and wakes the main
thread by setting the stop event in its `finally`. A `SystemExit` takes the second way
without the first: the event is set, the list stays empty, and a session that recorded
nothing ends like one that was stopped.

Nothing but the selection of a device raises one. `run_live_reports` is the contract for
the sessions in which the capture thread finds its devices: it returns normally only after
a requested stop and a capture without failure, and a failure makes it end with an error,
after a bounded number of its own steps.
-/

namespace LocalMeetingStt
namespace Live

open Transition Transition.System

variable {α β ρ : Type}

/-! ## How far a thread has come -/

namespace CapturePc

/-- `capture_audio` was left by a failure. -/
def failed : CapturePc α β → Prop
  | .raised _ => True
  | .settingStop failure | .exiting failure | .dead failure => failure ≠ none
  | _ => False

/-- The failure is behind `except Exception`. -/
def handled : CapturePc α β → Prop
  | .settingStop failure | .exiting failure | .dead failure => failure ≠ none
  | _ => False

/-- The loop has ended because the stop event was set, and nothing has failed since. -/
def leftLoop : CapturePc α β → Prop
  | .flush | .writeTail _ | .closing | .queueTail => True
  | .enqueue _ caller | .makeRoom _ caller | .putAgain _ caller | .warning caller =>
    caller = .tail
  | .settingStop failure | .exiting failure | .dead failure => failure = none
  | _ => False

end CapturePc

namespace MainPc

/-- A failure has reached the `finally` of `run_live`, or left it. -/
def failed : MainPc α → Prop
  | .settingStop failure | .joining failure | .stoppingServer failure | .aliveTest failure
  | .finalErrorsTest failure | .ended failure => failure ≠ none
  | _ => False

/-- The capture thread has been started. -/
def started : MainPc α → Prop
  | .selecting | .loading | .starting => False
  | _ => True

/-- The capture thread is known to be dead, and no failure has reached the main thread. -/
def joinedDead : MainPc α → Prop
  | .finalErrorsTest failure | .ended failure => failure = none
  | .printing => True
  | _ => False

/-- The list of errors was read after that. -/
def accepted : MainPc α → Prop
  | .ended failure => failure = none
  | .printing => True
  | _ => False

end MainPc

section

variable [Casefold] {job : Job α β ρ} {s s' : State α β ρ}

/-! ## What one step changes -/

theorem CaptureStep.frame (h : CaptureStep job s s') :
    s'.main = s.main ∧ s'.stopFile = s.stopFile := by
  cases h <;> exact ⟨rfl, rfl⟩

theorem CaptureStep.stopEvent (h : CaptureStep job s s') :
    s'.stopEvent = s.stopEvent ∨
      s'.stopEvent = true ∧ ∃ failure, s.capture.pc = .settingStop failure := by
  cases h with
  | setsStop at_ => exact .inr ⟨rfl, _, at_⟩
  | _ => exact .inl rfl

theorem CaptureStep.failed (h : CaptureStep job s s') (hs : s.capture.pc.failed) :
    s'.capture.pc.failed := by
  cases h <;> simp_all [CapturePc.failed]

theorem CaptureStep.leftLoop (h : CaptureStep job s s') (hs' : s'.capture.pc.leftLoop) :
    s.capture.pc.leftLoop ∨ s.stopEvent = true := by
  cases h
  case selectSystem | recordSystem =>
    cases hmic : job.includeMic <;> simp_all [CapturePc.leftLoop]
  case put caller _ _ | warns caller _ =>
    cases caller <;> simp_all [CapturePc.leftLoop, Capture.back]
  all_goals simp_all [CapturePc.leftLoop]

/-- A dead thread takes no step, and none is ever not started again. -/
theorem CaptureStep.running (h : CaptureStep job s s') :
    s.capture.pc ≠ .notStarted ∧ s'.capture.pc ≠ .notStarted ∧
      ∀ failure, s.capture.pc ≠ .dead failure := by
  cases h
  case selectSystem | recordSystem =>
    cases hmic : job.includeMic <;> simp_all
  case put caller _ _ | warns caller _ => cases caller <;> simp_all [Capture.back]
  case fails running =>
    refine ⟨?_, by simp, ?_⟩ <;> intros <;> intro heq <;> simp [Capture.inTarget, heq] at running
  all_goals simp_all

theorem MainStep.frame (h : MainStep job s s') :
    s'.stopFile = s.stopFile ∧ s'.errors = s.errors ∧
      (s'.capture = s.capture ∨
        (s.main = .starting ∧ s'.capture = { s.capture with pc := .selectSystem })) := by
  cases h with
  | startCapture at_ => exact ⟨rfl, rfl, .inr ⟨at_, rfl⟩⟩
  | _ => exact ⟨rfl, rfl, .inl rfl⟩

theorem MainStep.stopEvent (h : MainStep job s s') :
    s'.stopEvent = s.stopEvent ∨
      s'.stopEvent = true ∧
        ∃ failure, s.main = .settingStop failure ∧ s'.main = .joining failure := by
  cases h with
  | setsStop at_ => exact .inr ⟨rfl, _, at_, rfl⟩
  | _ => exact .inl rfl

theorem MainStep.failed (h : MainStep job s s') (hs : s.main.failed) : s'.main.failed := by
  cases h
  case consumerFails consuming => simp [MainPc.failed]
  case loadFails at_ | startFails at_ => simp [MainPc.failed, at_] at hs
  all_goals simp_all [MainPc.failed]

theorem MainStep.starts (h : MainStep job s s') (hs' : s'.main.started) :
    s.main.started ∨ s'.main.failed ∨ s'.capture.pc = .selectSystem := by
  cases h
  case loadFails | startFails =>
    cases hs : job.script <;> simp_all [MainPc.failed, Script.outside]
  all_goals simp_all [MainPc.started, MainPc.failed]

theorem MainStep.started (h : MainStep job s s') (hs' : ¬s'.main.started) :
    ¬s.main.started ∧ s'.capture = s.capture := by
  cases h
  case startCapture => cases hs : job.streaming <;> simp_all [MainPc.started, Job.consumer]
  case loadFails | startFails =>
    cases hs : job.script <;> simp_all [MainPc.started, Script.outside]
  case nextGet => by_cases hs : job.script = .cppServer <;> simp_all [MainPc.started]
  all_goals simp_all [MainPc.started]

/-- The main thread leaves its loop normally only when it has seen the event set. -/
def MainPc.leaving : MainPc α → Prop
  | .lastErrorsTest | .finish | .nextLastErrorsTest => True
  | .settingStop failure => failure = none
  | _ => False

theorem MainStep.leaving (h : MainStep job s s') (hs' : s'.main.leaving) :
    s.main.leaving ∨ s.stopEvent = true := by
  cases h
  case startCapture => cases hs : job.streaming <;> simp_all [MainPc.leaving, Job.consumer]
  case loadFails | startFails =>
    cases hs : job.script <;> simp_all [MainPc.leaving, Script.outside]
  case nextGet => by_cases hs : job.script = .cppServer <;> simp_all [MainPc.leaving]
  all_goals simp_all [MainPc.leaving]

theorem MainStep.joinedDead (h : MainStep job s s') (hs' : s'.main.joinedDead) :
    s'.capture = s.capture ∧
      (s.main.joinedDead ∨ s.main = .aliveTest none ∧ ¬s.capture.alive) := by
  cases h
  case startCapture => cases hs : job.streaming <;> simp_all [MainPc.joinedDead, Job.consumer]
  case loadFails | startFails =>
    cases hs : job.script <;> simp_all [MainPc.joinedDead, Script.outside]
  case nextGet => by_cases hs : job.script = .cppServer <;> simp_all [MainPc.joinedDead]
  all_goals simp_all [MainPc.joinedDead]

theorem MainStep.accepted (h : MainStep job s s') (hs' : s'.main.accepted) :
    s.main.joinedDead ∧ (s.main.accepted ∨ s.errors = []) := by
  cases h
  case startCapture => cases hs : job.streaming <;> simp_all [MainPc.accepted, Job.consumer]
  case loadFails | startFails =>
    cases hs : job.script <;> simp_all [MainPc.accepted, Script.outside]
  case nextGet => by_cases hs : job.script = .cppServer <;> simp_all [MainPc.accepted]
  all_goals simp_all [MainPc.accepted, MainPc.joinedDead]

/-! ## What holds in every session -/

/-- Who may have set the stop event, and ended the loop of `capture_audio`. -/
structure Explained (s : State α β ρ) : Prop where
  stop : s.stopEvent = true → s.stopFile = true ∨ s.capture.pc.failed ∨ s.main.failed
  loop : s.capture.pc.leftLoop → s.stopFile = true ∨ s.main.failed
  leaving : s.main.leaving → s.stopEvent = true
  before : ¬s.main.started → s.capture.pc = .notStarted
  after : s.main.started → ¬s.main.failed → s.capture.pc ≠ .notStarted

omit [Casefold] in
theorem CapturePc.not_failed_of_leftLoop {pc : CapturePc α β} (h : pc.leftLoop) : ¬pc.failed := by
  cases pc <;> simp_all [leftLoop, failed]

omit [Casefold] in
theorem CapturePc.leftLoop_of_settingStop {failure : Option Failure}
    (h : ¬(settingStop failure : CapturePc α β).failed) :
    (settingStop failure : CapturePc α β).leftLoop := by
  simpa [failed, leftLoop] using h

theorem Explained.capture (h : Explained s) (hstep : CaptureStep job s s') : Explained s' := by
  obtain ⟨hmain, hfile⟩ := hstep.frame
  have hstop : s'.stopEvent = true → s.stopFile = true ∨ s'.capture.pc.failed ∨ s.main.failed := by
    intro hset
    rcases hstep.stopEvent with heq | ⟨-, failure, hpc⟩
    · rcases h.stop (heq ▸ hset) with hfile | hfailed | hfailed
      · exact .inl hfile
      · exact .inr (.inl (hstep.failed hfailed))
      · exact .inr (.inr hfailed)
    · by_cases hfailed : s.capture.pc.failed
      · exact .inr (.inl (hstep.failed hfailed))
      · -- The capture returned, and it leaves its loop only on a set event.
        rw [hpc] at hfailed
        exact (h.loop (hpc ▸ CapturePc.leftLoop_of_settingStop hfailed)).imp_right .inr
  refine ⟨?_, ?_, ?_, ?_, ?_⟩
  · rwa [hfile, hmain]
  · intro hloop
    rw [hfile, hmain]
    rcases hstep.leftLoop hloop with hleft | hset
    · exact h.loop hleft
    · rcases h.stop hset with hfile | hfailed | hfailed
      · exact .inl hfile
      · exact absurd (hstep.failed hfailed) (CapturePc.not_failed_of_leftLoop hloop)
      · exact .inr hfailed
  · intro hleaving
    rw [hmain] at hleaving
    rcases hstep.stopEvent with heq | ⟨hset, -⟩
    · exact heq.trans (h.leaving hleaving)
    · exact hset
  · intro hbefore
    exact absurd (h.before (hmain ▸ hbefore)) hstep.running.1
  · exact fun _ _ => hstep.running.2.1

theorem Explained.main (h : Explained s) (hstep : MainStep job s s') : Explained s' := by
  obtain ⟨hfile, -, hcapture⟩ := hstep.frame
  have hkeeps : s.stopEvent = true → s'.stopEvent = true := by
    intro hset
    rcases hstep.stopEvent with heq | ⟨hset', -⟩
    · exact heq.trans hset
    · exact hset'
  -- the capture thread starts from a state in which nothing has failed
  have hfailed : s.capture.pc.failed → s'.capture.pc.failed := by
    intro hfailed
    rcases hcapture with heq | ⟨hmain, -⟩
    · rwa [heq]
    · have := h.before (by simp [hmain, MainPc.started])
      simp [this, CapturePc.failed] at hfailed
  have hexplained : s.stopEvent = true →
      s.stopFile = true ∨ s'.capture.pc.failed ∨ s'.main.failed := fun hset =>
    (h.stop hset).imp_right (Or.imp hfailed hstep.failed)
  refine ⟨?_, ?_, ?_, ?_, ?_⟩
  · intro hset
    rw [hfile]
    rcases hstep.stopEvent with heq | ⟨-, failure, hmain, hmain'⟩
    · exact hexplained (heq ▸ hset)
    · -- `finally` sets it, and a normal end gets there only when it is set already.
      cases failure with
      | none => exact hexplained (h.leaving (by simp [hmain, MainPc.leaving]))
      | some failure => exact .inr (.inr (by simp [hmain', MainPc.failed]))
  · intro hloop
    rw [hfile]
    rcases hcapture with heq | ⟨-, hpc⟩
    · exact (h.loop (heq ▸ hloop)).imp_right hstep.failed
    · simp [hpc, CapturePc.leftLoop] at hloop
  · intro hleaving
    rcases hstep.leaving hleaving with hs | hs
    · exact hkeeps (h.leaving hs)
    · exact hkeeps hs
  · intro hbefore
    obtain ⟨hs, heq⟩ := hstep.started hbefore
    rw [heq]
    exact h.before hs
  · intro hstarted hgood
    rcases hstep.starts hstarted with hs | hs | hs
    · rcases hcapture with heq | ⟨-, hpc⟩
      · rw [heq]
        exact h.after hs fun hbad => hgood (hstep.failed hbad)
      · simp [hpc]
    · exact absurd hs hgood
    · simp [hs]

theorem explained_reachable (hs : (system job).Reachable s) : Explained s := by
  refine Inductive.reachable ⟨?_, ?_⟩ hs
  · rintro _ rfl
    refine ⟨?_, ?_, ?_, ?_, ?_⟩ <;>
      simp [State.start, CapturePc.leftLoop, MainPc.leaving, MainPc.started]
  · rintro s s' - h (hstep | hstep | - | - | -)
    · exact h.capture hstep
    · exact h.main hstep
    · exact ⟨fun _ => .inl rfl, fun _ => .inl rfl, h.leaving, h.before, h.after⟩
    · next hthere => exact ⟨fun _ => .inl hthere, h.loop, fun _ => rfl, h.before, h.after⟩
    · exact ⟨h.stop, h.loop, h.leaving, h.before, h.after⟩

/-- Once the main thread has found the capture thread dead, it is. -/
structure Joined (s : State α β ρ) : Prop where
  dead : s.main.joinedDead → ∃ failure, s.capture.pc = .dead failure
  errors : s.main.accepted → s.errors = []

theorem joined_reachable (hs : (system job).Reachable s) : Joined s := by
  refine Inductive.reachable ⟨?_, ?_⟩ hs
  · rintro _ rfl
    exact ⟨fun h => by simp [State.start, MainPc.joinedDead] at h, fun _ => rfl⟩
  · rintro s s' hr h (hstep | hstep | - | - | -)
    · -- a dead capture thread takes no step
      have hrunning : ¬s.main.joinedDead := fun hjoined => by
        obtain ⟨failure, hdead⟩ := h.dead hjoined
        exact hstep.running.2.2 failure hdead
      have hmain := hstep.frame.1
      refine ⟨fun hjoined => absurd (hmain ▸ hjoined) hrunning, fun haccepted => ?_⟩
      rw [hmain] at haccepted
      refine absurd ?_ hrunning
      cases hpc : s.main <;> simp_all [MainPc.accepted, MainPc.joinedDead]
    · refine ⟨fun hjoined => ?_, fun haccepted => ?_⟩
      · obtain ⟨heq, hs | ⟨hs, hover⟩⟩ := hstep.joinedDead hjoined
        · rw [heq]
          exact h.dead hs
        · rw [heq]
          have hstarted := (explained_reachable hr).after (by simp [hs, MainPc.started])
            (by simp [hs, MainPc.failed])
          cases hpc : s.capture.pc <;> simp_all [Capture.alive]
      · rw [hstep.frame.2.1]
        exact (hstep.accepted haccepted).2.elim h.errors id
    · exact ⟨h.dead, h.errors⟩
    · exact ⟨h.dead, h.errors⟩
    · exact ⟨h.dead, h.errors⟩

/-! ## Sessions in which the capture thread finds its devices -/

/-- The condition on a step: no failure of the capture thread is a `SystemExit`. -/
def DevicesFound (_ s' : State α β ρ) : Prop :=
  ∀ message, s'.capture.pc ≠ .raised (.systemExit message)

/-- Only the selection of a device can fail the condition. -/
theorem CaptureStep.raised_systemExit {message : Text} (h : CaptureStep job s s')
    (hs' : s'.capture.pc = .raised (.systemExit message)) :
    (∃ sound, s.capture.pc = .selectSystem ∧
      selectSystemLoopback sound job.systemDevice = .error (.systemExit message)) ∨
    ∃ sound, s.capture.pc = .selectMic ∧
      selectMicrophone sound job.micDevice = .error (.systemExit message) := by
  cases h
  case systemMissing sound failure at_ missing =>
    obtain rfl : failure = .systemExit message := by simpa using hs'
    exact .inl ⟨sound, at_, missing⟩
  case micMissing sound failure at_ missing =>
    obtain rfl : failure = .systemExit message := by simpa using hs'
    exact .inr ⟨sound, at_, missing⟩
  case selectSystem | recordSystem => cases hmic : job.includeMic <;> simp_all
  case put caller _ _ | warns caller _ => cases caller <;> simp_all [Capture.back]
  all_goals simp_all

theorem CaptureStep.errors (h : CaptureStep job s s') :
    s'.errors = s.errors ∨ ∃ error, s'.errors = s.errors ++ [error] := by
  cases h with
  | caught at_ => exact .inr ⟨_, rfl⟩
  | _ => exact .inl rfl

theorem CaptureStep.handled (h : CaptureStep job s s') (hs' : s'.capture.pc.handled) :
    s.capture.pc.handled ∨ s'.errors ≠ [] ∨
      ∃ message, s.capture.pc = .raised (.systemExit message) := by
  cases h
  case selectSystem | recordSystem =>
    cases hmic : job.includeMic <;> simp_all [CapturePc.handled]
  case put caller _ _ | warns caller _ =>
    cases caller <;> simp_all [CapturePc.handled, Capture.back]
  all_goals simp_all [CapturePc.handled]

/-- Every failure behind `except Exception` is in the list. -/
structure Listed (s : State α β ρ) : Prop where
  caught : ∀ message, s.capture.pc ≠ .raised (.systemExit message)
  listed : s.capture.pc.handled → s.errors ≠ []

theorem listed_reachable (hs : ((system job).restrict DevicesFound).Reachable s) : Listed s := by
  refine Inductive.reachable ⟨?_, ?_⟩ hs
  · rintro _ rfl
    exact ⟨by simp [State.start], by simp [State.start, CapturePc.handled]⟩
  · rintro s s' hr h ⟨hstep | hstep | - | - | -, hfound⟩
    · refine ⟨hfound, fun hhandled => ?_⟩
      rcases hstep.handled hhandled with hs | hlisted | ⟨message, hraised⟩
      · have := h.listed hs
        rcases hstep.errors with heq | ⟨error, heq⟩ <;> simp_all
      · exact hlisted
      · exact absurd hraised (h.caught message)
    · refine ⟨hfound, fun hhandled => ?_⟩
      obtain ⟨-, herrors, heq | ⟨-, hpc⟩⟩ := hstep.frame
      · rw [herrors]
        exact h.listed (heq ▸ hhandled)
      · simp [hpc, CapturePc.handled] at hhandled
    · exact ⟨h.caught, h.listed⟩
    · exact ⟨h.caught, h.listed⟩
    · exact ⟨h.caught, h.listed⟩

/-- A normal end vouches for the recording. -/
theorem accepted_recorded (hs : ((system job).restrict DevicesFound).Reachable s)
    (h : s.main.accepted) : s.capture.pc = .dead none ∧ s.stopFile = true := by
  have hr := hs.of_restrict
  have hjoined : s.main.joinedDead := by
    cases hpc : s.main <;> simp_all [MainPc.accepted, MainPc.joinedDead]
  obtain ⟨failure, hdead⟩ := (joined_reachable hr).dead hjoined
  have herrors := (joined_reachable hr).errors h
  -- A failure would be on the list, which was found empty.
  have hnone : failure = none := by
    by_contra hsome
    exact (listed_reachable hs).listed (by simpa [hdead, CapturePc.handled] using hsome) herrors
  subst hnone
  refine ⟨hdead, ?_⟩
  have hgood : ¬s.main.failed := by
    cases hpc : s.main <;> simp_all [MainPc.accepted, MainPc.failed]
  exact ((explained_reachable hr).loop (by simp [hdead, CapturePc.leftLoop])).resolve_right hgood

/-! ## How long a failed session goes on -/

/-- The main thread's own steps that are left, with this many chunks in the queue, when
    there is an error to be found and nothing more is queued. -/
def MainPc.rank (queued : Nat) : MainPc α → Nat
  | .ended _ => 0
  | .printing => 1
  | .finalErrorsTest _ => 2
  | .aliveTest _ => 3
  | .stoppingServer _ => 4
  | .joining _ => 5
  | .settingStop _ => 6
  | .finish => 7
  | .lastErrorsTest | .nextLastErrorsTest => 8
  | .errorsTest | .nextErrorsTest => 9
  | .stopTest | .process | .nextStopTest => 10
  | .feed _ | .transcribe _ => 11
  | .drain _ | .latest _ => 2 * queued + 12
  | .get | .nextGet | .staleWarning _ => 2 * queued + 13
  | .starting => 2 * queued + 14
  | .loading => 2 * queued + 15
  | .selecting => 2 * queued + 16

def State.rank (s : State α β ρ) : Nat := s.main.rank s.chunks.length

theorem MainStep.rank_lt (h : MainStep job s s') (hstarted : s.main.started)
    (herrors : s.errors ≠ []) : s'.rank < s.rank := by
  unfold State.rank
  cases h
  case consumerFails consuming =>
    cases hpc : s.main <;> simp_all [MainPc.rank, MainPc.consuming]
  case concludingFails concluding =>
    cases hpc : s.main <;> simp_all [MainPc.rank, MainPc.concluding]
  case nextGet chunk rest at_ queued =>
    show (if job.script = .cppServer then MainPc.latest chunk else .transcribe chunk).rank
      rest.length < _
    rw [at_, queued, List.length_cons]
    split_ifs <;> simp only [MainPc.rank] <;> omega
  case get at_ queued | skipsStale at_ queued =>
    rw [at_, queued, List.length_cons]
    simp only [State.mainAt, MainPc.rank]
    omega
  all_goals simp_all [MainPc.rank, MainPc.started]

/-- The main thread is never stuck: short of its end it has a step, and not only one that
    fails. -/
theorem MainStep.enabled (hstarted : s.main.started) (h : ∀ result, s.main ≠ .ended result) :
    ∃ s', MainStep job s s' := by
  cases hpc : s.main with
  | selecting | loading | starting => simp [hpc, MainPc.started] at hstarted
  | errorsTest =>
    cases herrors : s.errors with
    | nil => exact ⟨_, .noError hpc herrors⟩
    | cons error errors => exact ⟨_, .captureError hpc herrors⟩
  | get =>
    cases hchunks : s.chunks with
    | nil => exact ⟨_, .getTimesOut hpc hchunks⟩
    | cons block rest => exact ⟨_, .get hpc hchunks⟩
  | stopTest =>
    cases hstop : s.stopEvent with
    | false => exact ⟨_, .notStopped hpc hstop⟩
    | true => exact ⟨_, .stopped hpc hstop⟩
  | drain blocks =>
    cases hchunks : s.chunks with
    | nil => exact ⟨_, .drained hpc hchunks⟩
    | cons block rest => exact ⟨_, .drain hpc hchunks⟩
  | feed blocks => exact ⟨_, .feed hpc⟩
  | process => exact ⟨_, .processed hpc⟩
  | lastErrorsTest =>
    cases herrors : s.errors with
    | nil => exact ⟨_, .noLastError hpc herrors⟩
    | cons error errors => exact ⟨_, .lastCaptureError hpc herrors⟩
  | finish => exact ⟨_, .finished hpc⟩
  | nextStopTest =>
    cases hstop : s.stopEvent with
    | false => exact ⟨_, .nextNotStopped hpc hstop⟩
    | true => exact ⟨_, .nextStopped hpc hstop⟩
  | nextErrorsTest =>
    cases herrors : s.errors with
    | nil => exact ⟨_, .nextNoError hpc herrors⟩
    | cons error errors => exact ⟨_, .nextCaptureError hpc herrors⟩
  | nextGet =>
    cases hchunks : s.chunks with
    | nil => exact ⟨_, .nextTimesOut hpc hchunks⟩
    | cons chunk rest => exact ⟨_, .nextGet hpc hchunks⟩
  | latest chunk =>
    cases hchunks : s.chunks with
    | nil => exact ⟨_, .takesLatest hpc hchunks⟩
    | cons block rest => exact ⟨_, .skipsStale hpc hchunks⟩
  | staleWarning chunk => exact ⟨_, .warnsStale hpc⟩
  | transcribe chunk => exact ⟨_, .transcribed hpc⟩
  | nextLastErrorsTest =>
    cases herrors : s.errors with
    | nil => exact ⟨_, .nextNoLastError hpc herrors⟩
    | cons error errors => exact ⟨_, .nextLastCaptureError hpc herrors⟩
  | settingStop failure => exact ⟨_, .setsStop hpc⟩
  | joining failure => exact ⟨_, .joined hpc⟩
  | stoppingServer failure => exact ⟨_, .serverStopped hpc⟩
  | aliveTest failure =>
    by_cases halive : s.capture.alive
    · exact ⟨_, .stillAlive hpc halive⟩
    · exact ⟨_, .notAlive hpc halive⟩
  | finalErrorsTest failure =>
    cases herrors : s.errors with
    | nil =>
      cases failure with
      | none => exact ⟨_, .goesOn hpc herrors⟩
      | some failure => exact ⟨_, .raisesOn hpc herrors⟩
    | cons error errors => exact ⟨_, .finalCaptureError hpc herrors⟩
  | printing => exact ⟨_, .printed hpc⟩
  | ended result => exact absurd hpc (h result)

/-- A capture that has failed, with a failure on the list. -/
structure DeadCapture (failure : Failure) (s : State α β ρ) : Prop where
  dead : s.capture.pc = .dead (some failure)
  listed : s.errors ≠ []
  started : s.main.started

theorem DeadCapture.step {failure : Failure} (h : DeadCapture failure s) (hstep : Step job s s') :
    DeadCapture failure s' ∧ s'.rank ≤ s.rank := by
  obtain ⟨hdead, hlisted, hstarted⟩ := h
  rcases hstep with hstep | hstep | - | - | -
  · exact absurd hdead (hstep.running.2.2 _)
  · obtain ⟨-, herrors, heq | ⟨hmain, -⟩⟩ := hstep.frame
    · refine ⟨⟨heq ▸ hdead, herrors ▸ hlisted, ?_⟩, (hstep.rank_lt hstarted hlisted).le⟩
      by_contra hnot
      exact (hstep.started hnot).1 hstarted
    · simp [hmain, MainPc.started] at hstarted
  · exact ⟨⟨hdead, hlisted, hstarted⟩, le_rfl⟩
  · exact ⟨⟨hdead, hlisted, hstarted⟩, le_rfl⟩
  · exact ⟨⟨hdead, hlisted, hstarted⟩, le_rfl⟩

theorem deadCapture_of_reachable {failure : Failure}
    (hs : ((system job).restrict DevicesFound).Reachable s)
    (h : s.capture.pc = .dead (some failure)) : DeadCapture failure s where
  dead := h
  listed := (listed_reachable hs).listed (by simp [h, CapturePc.handled])
  started := by
    by_contra hnot
    have := (explained_reachable hs.of_restrict).before hnot
    rw [h] at this
    cases this

/-- **A session whose capture thread finds its devices reports what became of it.** The
    `Stopped:` line is printed and `run_live` returns only after a requested stop and a
    capture without failure. After a failure `run_live` ends with an error: short of its
    end the main thread has a next step, and it takes no more than `s.rank` of them. -/
theorem run_live_reports (job : Job α β ρ) :
    (∀ s, ((system job).restrict DevicesFound).Reachable s →
      s.main = .printing ∨ s.main = .ended none →
      s.capture.pc = .dead none ∧ s.stopFile = true) ∧
    (∀ s failure, ((system job).restrict DevicesFound).Reachable s →
      s.capture.pc = .dead (some failure) →
      s.main ≠ .ended none ∧
      ((∀ result, s.main ≠ .ended result) → ∃ s', MainStep job s s') ∧
      ∀ n s', Paced ((system job).restrict DevicesFound).next (MainStep job) n s s' →
        s'.capture.pc = .dead (some failure) ∧ n ≤ s.rank) := by
  refine ⟨fun s hs hend => accepted_recorded hs ?_, fun s failure hs hdead => ⟨?_, ?_, ?_⟩⟩
  · rcases hend with heq | heq <;> simp [heq, MainPc.accepted]
  · intro hend
    have := (accepted_recorded hs (by simp [hend, MainPc.accepted])).1
    rw [hdead] at this
    cases this
  · exact MainStep.enabled (deadCapture_of_reachable hs hdead).started
  · intro n s' hpaced
    obtain ⟨hdead', hle⟩ := hpaced.le_rank State.rank (I := DeadCapture failure)
      (fun h hstep => h.step hstep.1)
      (fun h _ hmain => hmain.rank_lt h.started h.listed)
      (deadCapture_of_reachable hs hdead)
    exact ⟨hdead'.dead, by omega⟩

end

/-- A session stopped before its capture loop records anything, and one whose device is
    lost while it records. -/
theorem run_live_reports_both :
    let _ := asciiCasefold
    (∃ s, ((system Job.plain).restrict DevicesFound).Reachable s ∧ s.main = .ended none ∧
      s.capture.pc = .dead none ∧ s.stopFile = true) ∧
    ∃ s failure, ((system Job.plain).restrict DevicesFound).Reachable s ∧
      s.capture.pc = .dead (some failure) ∧ s.main ≠ .ended none := by
  intro _
  have found : selectSystemLoopback .plain none = .ok .speakers := rfl
  have h := Reachable.start (S := (system Job.plain).restrict DevicesFound) rfl
  have h := h.next ⟨.main (.select rfl found (by simp [Job.plain])), by intro _ h; cases h⟩
  have h := h.next ⟨.main (.load rfl), by intro _ h; cases h⟩
  have h := h.next ⟨.main (.startCapture rfl), by intro _ h; cases h⟩
  have h := h.next ⟨.capture (.selectSystem rfl found), by intro _ h; cases h⟩
  have recording := h.next ⟨.capture (.opened rfl), by intro _ h; cases h⟩
  refine ⟨?_, ?_⟩
  · have h := recording.next ⟨.stopRequested, by intro _ h; cases h⟩
    have h := h.next ⟨.watcherSees rfl rfl, by intro _ h; cases h⟩
    have h := h.next ⟨.capture (.loopEnds rfl rfl), by intro _ h; cases h⟩
    have h := h.next ⟨.capture (.flush rfl), by intro _ h; cases h⟩
    have h := h.next ⟨.capture (.writeTail rfl), by intro _ h; cases h⟩
    have h := h.next ⟨.capture (.closed rfl), by intro _ h; cases h⟩
    have h := h.next ⟨.capture (.queueTail rfl (by simp [State.captureAt])), by intro _ h; cases h⟩
    have h := h.next
      ⟨.capture (.put rfl (by simp [Job.full, Job.maxsize, Job.plain])), by intro _ h; cases h⟩
    have h := h.next ⟨.capture (.setsStop rfl), by intro _ h; cases h⟩
    have h := h.next ⟨.capture (.exits rfl), by intro _ h; cases h⟩
    have h := h.next ⟨.main (.noError rfl rfl), by intro _ h; cases h⟩
    have h := h.next ⟨.main (.get rfl rfl), by intro _ h; cases h⟩
    have h := h.next ⟨.main (.drained rfl rfl), by intro _ h; cases h⟩
    have h := h.next ⟨.main (.feed rfl), by intro _ h; cases h⟩
    have h := h.next ⟨.main (.processed rfl), by intro _ h; cases h⟩
    have h := h.next ⟨.main (.noError rfl rfl), by intro _ h; cases h⟩
    have h := h.next ⟨.main (.getTimesOut rfl rfl), by intro _ h; cases h⟩
    have h := h.next ⟨.main (.stopped rfl rfl), by intro _ h; cases h⟩
    have h := h.next ⟨.main (.noLastError rfl rfl), by intro _ h; cases h⟩
    have h := h.next ⟨.main (.finished rfl), by intro _ h; cases h⟩
    have h := h.next ⟨.main (.setsStop rfl), by intro _ h; cases h⟩
    have h := h.next ⟨.main (.joined rfl), by intro _ h; cases h⟩
    have h := h.next ⟨.main (.serverStopped rfl), by intro _ h; cases h⟩
    have h := h.next ⟨.main (.notAlive rfl id), by intro _ h; cases h⟩
    have h := h.next ⟨.main (.goesOn rfl rfl), by intro _ h; cases h⟩
    have h := h.next ⟨.main (.printed rfl), by intro _ h; cases h⟩
    exact ⟨_, h, rfl, (run_live_reports Job.plain).1 _ h (.inr rfl)⟩
  · have h := recording.next ⟨.capture (.loopGoesOn rfl rfl), by intro _ h; cases h⟩
    have h := h.next ⟨.capture (.fails "device lost".toList trivial), by intro _ h; cases h⟩
    have h := h.next ⟨.capture (.caught rfl), by intro _ h; cases h⟩
    have h := h.next ⟨.capture (.setsStop rfl), by intro _ h; cases h⟩
    have h := h.next ⟨.capture (.exits rfl), by intro _ h; cases h⟩
    exact ⟨_, _, h, rfl, ((run_live_reports Job.plain).2 _ _ h rfl).1⟩

/-- **A device that is gone when the capture thread selects it goes unreported**: nothing
    was recorded and nobody asked for a stop, and `run_live` returns as if somebody had. -/
theorem lost_device_reported_as_stopped :
    let _ := asciiCasefold
    ∃ s, (system Job.plain).Reachable s ∧ s.main = .ended none ∧ s.stopFile = false ∧
      s.capture.pc = .dead (some (.systemExit
        "No Windows loopback recording devices were found.".toList)) ∧ s.wav = [] := by
  intro _
  have found : selectSystemLoopback .plain none = .ok .speakers := rfl
  have gone : selectSystemLoopback .gone none = .error (.systemExit
    "No Windows loopback recording devices were found.".toList) := rfl
  have h := Reachable.start (S := system Job.plain) rfl
  have h := h.next (.main (.select rfl found (by simp [Job.plain])))
  have h := h.next (.main (.load rfl))
  have h := h.next (.main (.startCapture rfl))
  have h := h.next (.capture (.systemMissing rfl gone))
  have h := h.next (.capture (.uncaught rfl))
  have h := h.next (.capture (.setsStop rfl))
  have h := h.next (.capture (.exits rfl))
  -- the consumer finds an empty list of errors, an empty queue and the event set
  have h := h.next (.main (.noError rfl rfl))
  have h := h.next (.main (.getTimesOut rfl rfl))
  have h := h.next (.main (.stopped rfl rfl))
  have h := h.next (.main (.noLastError rfl rfl))
  have h := h.next (.main (.finished rfl))
  have h := h.next (.main (.setsStop rfl))
  have h := h.next (.main (.joined rfl))
  have h := h.next (.main (.serverStopped rfl))
  have h := h.next (.main (.notAlive rfl id))
  have h := h.next (.main (.goesOn rfl rfl))
  have h := h.next (.main (.printed rfl))
  exact ⟨_, h, rfl, rfl, rfl, rfl⟩

end Live
end LocalMeetingStt
