import LocalMeetingStt.Live.Recording

/-!
# What becomes of the chunks when transcription is behind

Without `--streaming` the queue has a limit. `enqueue_chunk` drops the oldest chunk when it
is reached, and `get_latest_chunk` skips all but the newest; each prints that
transcription is behind, a moment later. Two threads take chunks from the same queue at any
moment, so an account of them has to be kept beside the run: `Account` is that history,
written by the same steps and read by none of them (`Backlog.of_reachable`, `Backlog.reachable`).

`backlog_accounted` is what it adds up to: every chunk ever queued was given to the
recognizer, or lost with a warning, or is still queued; none twice and none out of order. A
thread that ends in between is one warning short, and no more (`unsaid`).
-/

namespace LocalMeetingStt
namespace Live

open Transition Transition.System

variable {α β ρ : Type}

/-- What became of the chunks that have left the queue. -/
structure Account (α : Type) where
  /-- Every one of them, in the order they left. -/
  removed : List (List α)
  /-- Given to the recognizer. -/
  heard : List (List α)
  /-- `get_latest_chunk` found a newer one. -/
  skipped : List (List α)
  /-- `enqueue_chunk` made room. -/
  dropped : List (List α)
  /-- In the hands of `get_latest_chunk` when it was interrupted. -/
  interrupted : List (List α)
  /-- The lines `Warning: transcription is behind; …` printed. -/
  warnings : Nat
deriving DecidableEq, Repr

namespace Account

def empty : Account α := ⟨[], [], [], [], [], 0⟩

/-- What a step of the capture thread adds. -/
def capture (a : Account α) (s s' : State α β ρ) : Account α :=
  match s.capture.pc, s'.capture.pc with
  | .makeRoom _ _, .putAgain _ _ =>
    { a with
      removed := a.removed ++ s.chunks.take 1
      dropped := a.dropped ++ s.chunks.take 1 }
  | .warning _, .raised _ => a
  | .warning _, _ => { a with warnings := a.warnings + 1 }
  | _, _ => a

/-- What a step of the main thread adds. -/
def main (a : Account α) (s s' : State α β ρ) : Account α :=
  match s.main, s'.main with
  | .nextGet, .transcribe chunk =>
    { a with removed := a.removed ++ [chunk], heard := a.heard ++ [chunk] }
  | .nextGet, .latest chunk => { a with removed := a.removed ++ [chunk] }
  | .latest stale, .staleWarning chunk =>
    { a with removed := a.removed ++ [chunk], skipped := a.skipped ++ [stale] }
  | .staleWarning _, .latest _ => { a with warnings := a.warnings + 1 }
  | .latest chunk, .transcribe _ => { a with heard := a.heard ++ [chunk] }
  | .latest chunk, .settingStop _ | .staleWarning chunk, .settingStop _ =>
    { a with interrupted := a.interrupted ++ [chunk] }
  | _, _ => a

end Account

/-- A session with its account. -/
structure Backlog (α β ρ : Type) where
  state : State α β ρ
  account : Account α

namespace Backlog

variable [Casefold]

inductive Step (job : Job α β ρ) (w : Backlog α β ρ) : Backlog α β ρ → Prop
  | capture {s' : State α β ρ} (step : CaptureStep job w.state s') :
      Step job w ⟨s', w.account.capture w.state s'⟩
  | main {s' : State α β ρ} (step : MainStep job w.state s') :
      Step job w ⟨s', w.account.main w.state s'⟩
  | stopRequested : Step job w ⟨{ w.state with stopFile := true }, w.account⟩
  | watcherSees (running : w.state.watching = true) (there : w.state.stopFile = true) :
      Step job w ⟨{ w.state with stopEvent := true, watching := false }, w.account⟩
  | watcherLeaves (running : w.state.watching = true) (stopped : w.state.stopEvent = true) :
      Step job w ⟨{ w.state with watching := false }, w.account⟩

def system (job : Job α β ρ) : Transition.System (Backlog α β ρ) where
  init w := w = ⟨State.start job, .empty⟩
  next := Step job

variable {job : Job α β ρ}

/-- A session with its account is a session. -/
theorem reachable {w : Backlog α β ρ} (h : (system job).Reachable w) :
    (Live.system job).Reachable w.state := by
  induction h with
  | start hinit =>
    subst hinit
    exact .start rfl
  | next _ hstep ih =>
    cases hstep with
    | capture step => exact ih.next (.capture step)
    | main step => exact ih.next (.main step)
    | stopRequested => exact ih.next .stopRequested
    | watcherSees running there => exact ih.next (.watcherSees running there)
    | watcherLeaves running stopped => exact ih.next (.watcherLeaves running stopped)

/-- And every session has one. -/
theorem of_reachable {s : State α β ρ} (h : (Live.system job).Reachable s) :
    ∃ a, (system job).Reachable ⟨s, a⟩ := by
  induction h with
  | start hinit =>
    cases hinit
    exact ⟨.empty, .start rfl⟩
  | next _ hstep ih =>
    obtain ⟨a, ha⟩ := ih
    cases hstep with
    | capture step => exact ⟨_, ha.next (.capture step)⟩
    | main step => exact ⟨_, ha.next (.main step)⟩
    | stopRequested => exact ⟨_, ha.next .stopRequested⟩
    | watcherSees running there => exact ⟨_, ha.next (.watcherSees running there)⟩
    | watcherLeaves running stopped => exact ⟨_, ha.next (.watcherLeaves running stopped)⟩

end Backlog

/-! ## The account of one moment -/

namespace MainPc

/-- `get_latest_chunk` has taken it and looks for a newer one. -/
def latestHand : MainPc α → List (List α)
  | .latest chunk | .staleWarning chunk => [chunk]
  | _ => []

/-- Inside `run_streaming`. -/
def streamed : MainPc α → Prop
  | .errorsTest | .get | .stopTest | .drain _ | .feed _ | .process | .lastErrorsTest
  | .finish => True
  | _ => False

/-- `get_latest_chunk` has skipped a chunk and not said so yet, or will say nothing more. -/
def unsaid : MainPc α → Nat
  | .staleWarning _ => 1
  | .settingStop (some _) | .joining (some _) | .stoppingServer (some _) | .aliveTest (some _)
  | .finalErrorsTest (some _) | .ended (some _) => 1
  | _ => 0

end MainPc

namespace CapturePc

/-- `enqueue_chunk` has dropped a chunk and not said so yet, or will say nothing more. -/
def unsaid : CapturePc α β → Nat
  | .putAgain _ _ | .warning _ | .raised _ => 1
  | .settingStop (some _) | .exiting (some _) | .dead (some _) => 1
  | _ => 0

theorem unsaid_le (pc : CapturePc α β) : pc.unsaid ≤ 1 := by
  unfold unsaid
  split <;> decide

/-- Between the two `put_nowait`s there is room on the queue. -/
def hasRoom (pc : CapturePc α β) (job : Job α β ρ) (queue : List (List α)) : Prop :=
  match pc with
  | .putAgain _ _ => ¬job.full queue
  | _ => True

end CapturePc

theorem MainPc.unsaid_le (pc : MainPc α) : pc.unsaid ≤ 1 := by
  unfold unsaid
  split <;> decide

/-- What the account says of the queue. -/
structure Accounted (job : Job α β ρ) (s : State α β ρ) (a : Account α) : Prop where
  chunked : ¬s.main.streamed
  order : a.removed ++ s.chunks = s.queued
  heard : (a.heard ++ s.main.latestHand).Sublist a.removed
  fates : a.removed.Perm
    (a.heard ++ s.main.latestHand ++ a.skipped ++ a.dropped ++ a.interrupted)
  warned : a.skipped.length + a.dropped.length ≤
    a.warnings + s.capture.pc.unsaid + s.main.unsaid
  capacity : 0 < job.maxsize → s.chunks.length ≤ job.maxsize
  room : s.capture.pc.hasRoom job s.chunks
  interrupted : a.interrupted ≠ [] → s.main.failed ∧ a.interrupted.length = 1

section

variable [Casefold] {job : Job α β ρ} {s s' : State α β ρ} {a : Account α}

/-- A step of the capture thread puts a chunk, makes room for one, or leaves the queue
    alone. -/
theorem CaptureStep.backlog (h : CaptureStep job s s') (a : Account α) :
    (∃ chunk, ¬job.full s.chunks ∧ s'.chunks = s.chunks ++ [chunk] ∧
        s'.queued = s.queued ++ [chunk] ∧ (∀ queue, s'.capture.pc.hasRoom job queue) ∧
        a.capture s s' = a) ∨
      (s'.chunks = s.chunks.tail ∧ s'.queued = s.queued ∧
        a.capture s s' = { a with
          removed := a.removed ++ s.chunks.take 1
          dropped := a.dropped ++ s.chunks.take 1 }) ∨
      (s'.chunks = s.chunks ∧ s'.queued = s.queued ∧
        (∀ queue, s'.capture.pc.hasRoom job queue) ∧
        ∃ n, a.capture s s' = { a with warnings := a.warnings + n }) := by
  cases h
  case put chunk caller at_ room =>
    refine .inl ⟨chunk, room, rfl, rfl, ?_, ?_⟩ <;>
      cases caller <;> simp [Account.capture, at_, Capture.back, CapturePc.hasRoom]
  case putAgain chunk caller at_ room =>
    refine .inl ⟨chunk, room, rfl, rfl, fun _ => trivial, ?_⟩
    simp [Account.capture, at_]
  case makeRoom at_ => exact .inr (.inl ⟨rfl, rfl, by simp [Account.capture, at_]⟩)
  case warns caller at_ =>
    refine .inr (.inr ⟨rfl, rfl, ?_, 1, ?_⟩) <;>
      cases caller <;> simp [Account.capture, at_, Capture.back, CapturePc.hasRoom]
  case fails message running =>
    refine .inr (.inr ⟨rfl, rfl, fun _ => trivial, 0, ?_⟩)
    cases hpc : s.capture.pc <;> simp [Account.capture, hpc]
  case selectSystem at_ _ | recordSystem at_ =>
    refine .inr (.inr ⟨rfl, rfl, ?_, 0, ?_⟩) <;>
      cases hmic : job.includeMic <;> simp [at_, CapturePc.hasRoom, Account.capture]
  all_goals
    refine .inr (.inr ⟨rfl, rfl, fun _ => trivial, 0, ?_⟩)
    simp_all [Account.capture]

/-- What it drops it says, sooner or later. -/
theorem CaptureStep.said (h : CaptureStep job s s') (a : Account α) :
    (a.capture s s').skipped = a.skipped ∧
      (a.capture s s').dropped.length + s.capture.pc.unsaid + a.warnings ≤
        a.dropped.length + (a.capture s s').warnings + s'.capture.pc.unsaid := by
  cases h
  case put caller at_ _ | warns caller at_ =>
    cases caller <;> simp [Account.capture, at_, Capture.back, CapturePc.unsaid] <;> omega
  case makeRoom at_ =>
    simp only [Account.capture, at_, State.captureAt_pc, CapturePc.unsaid, List.length_append,
      List.length_take, true_and]
    omega
  case fails message running =>
    have hle := s.capture.pc.unsaid_le
    have hsame : a.capture s (s.captureAt (.raised (.exception message))) = a := by
      cases hpc : s.capture.pc <;> simp [Account.capture, hpc]
    rw [hsame]
    refine ⟨rfl, ?_⟩
    show _ ≤ a.dropped.length + a.warnings + 1
    omega
  case selectSystem at_ _ | recordSystem at_ =>
    cases hmic : job.includeMic <;> simp [at_, CapturePc.unsaid, Account.capture]
  case setsStop failure at_ | exits failure at_ =>
    cases failure <;> simp [at_, CapturePc.unsaid, Account.capture]
    omega
  case putAgain at_ _ | caught at_ | uncaught at_ =>
    simp [at_, CapturePc.unsaid, Account.capture]
    omega
  all_goals simp_all [Account.capture, CapturePc.unsaid]

theorem Accounted.capture (h : Accounted job s a) (hstep : CaptureStep job s s') :
    Accounted job s' (a.capture s s') := by
  obtain ⟨hchunked, horder, hheard, hfates, hwarned, hcapacity, hroom, hinterrupted⟩ := h
  have hmain := hstep.frame.1
  obtain ⟨hskipped, hsaid⟩ := hstep.said a
  have hwarned' : (a.capture s s').skipped.length + (a.capture s s').dropped.length ≤
      (a.capture s s').warnings + s'.capture.pc.unsaid + s'.main.unsaid := by
    rw [hskipped, hmain]
    omega
  rcases hstep.backlog a with ⟨chunk, hput, hchunks, hqueued, hroom', haccount⟩ |
    ⟨hchunks, hqueued, haccount⟩ | ⟨hchunks, hqueued, hroom', n, haccount⟩ <;>
    rw [haccount] at hwarned' ⊢
  · refine ⟨hmain ▸ hchunked, ?_, hmain ▸ hheard, hmain ▸ hfates, hwarned', fun hlimit => ?_,
      hroom' _, hmain ▸ hinterrupted⟩
    · rw [hchunks, hqueued, ← List.append_assoc, horder]
    · have hfull : ¬(0 < job.maxsize ∧ job.maxsize ≤ s.chunks.length) := hput
      rw [hchunks, List.length_append, List.length_singleton]
      push_cast
      omega
  · have hsplit : s.chunks.take 1 ++ s.chunks.tail = s.chunks := by
      rw [← List.drop_one, List.take_append_drop]
    refine ⟨hmain ▸ hchunked, ?_, ?_, ?_, hwarned', fun hlimit => ?_, ?_, hmain ▸ hinterrupted⟩
    · rw [hchunks, hqueued, List.append_assoc, hsplit, horder]
    · rw [hmain]
      exact hheard.trans (List.sublist_append_left _ _)
    · rw [hmain]
      simp only
      refine (hfates.append_right (s.chunks.take 1)).trans ?_
      simp only [List.append_assoc]
      refine List.Perm.append_left _ (.append_left _ (.append_left _ (.append_left _ ?_)))
      exact List.perm_append_comm
    · have := hcapacity hlimit
      rw [hchunks, List.length_tail]
      omega
    · cases hpc : s'.capture.pc <;> simp only [CapturePc.hasRoom]
      rintro ⟨hlimit, hfull⟩
      have := hcapacity hlimit
      rw [hchunks, List.length_tail] at hfull
      omega
  · exact ⟨hmain ▸ hchunked, by rw [hchunks, hqueued, horder], hmain ▸ hheard, hmain ▸ hfates,
      hwarned', hchunks ▸ hcapacity, hroom' _, hmain ▸ hinterrupted⟩

/-- A step of the consumer takes a chunk from the queue, prints a warning, or ends what it
    does with the chunk in its hands. -/
theorem MainStep.backlog (h : MainStep job s s') (hs : ¬s.main.streamed) (a : Account α) :
    (∃ chunk rest, s.chunks = chunk :: rest ∧ s'.chunks = rest ∧
        ((s.main.latestHand = [] ∧ s'.main.latestHand = [] ∧
            a.main s s' = { a with
              removed := a.removed ++ [chunk], heard := a.heard ++ [chunk] }) ∨
          (s.main.latestHand = [] ∧ s'.main.latestHand = [chunk] ∧
            a.main s s' = { a with removed := a.removed ++ [chunk] }) ∨
          ∃ stale, s.main.latestHand = [stale] ∧ s'.main.latestHand = [chunk] ∧
            a.main s s' = { a with
              removed := a.removed ++ [chunk], skipped := a.skipped ++ [stale] })) ∨
      (s'.chunks = s.chunks ∧ s'.main.latestHand = s.main.latestHand ∧
        a.main s s' = { a with warnings := a.warnings + 1 }) ∨
      (s'.chunks = s.chunks ∧ s'.main.latestHand = [] ∧
        (a.main s s' = { a with heard := a.heard ++ s.main.latestHand } ∨
          ∃ chunk, s.main.latestHand = [chunk] ∧ ¬s.main.failed ∧ s'.main.failed ∧
            a.main s s' = { a with interrupted := a.interrupted ++ [chunk] })) := by
  cases h
  case nextGet chunk rest at_ queued =>
    refine .inl ⟨chunk, rest, queued, rfl, ?_⟩
    by_cases hserver : job.script = .cppServer
    · refine .inr (.inl ⟨?_, ?_, ?_⟩) <;>
        simp [at_, hserver, MainPc.latestHand, Account.main]
    · refine .inl ⟨?_, ?_, ?_⟩ <;> simp [at_, hserver, MainPc.latestHand, Account.main]
  case skipsStale stale chunk rest at_ queued =>
    refine .inl ⟨chunk, rest, queued, rfl, .inr (.inr ⟨stale, ?_, ?_, ?_⟩)⟩ <;>
      simp [at_, MainPc.latestHand, Account.main]
  case warnsStale chunk at_ =>
    refine .inr (.inl ⟨rfl, ?_, ?_⟩) <;> simp [at_, MainPc.latestHand, Account.main]
  case consumerFails failure consuming =>
    refine .inr (.inr ⟨rfl, rfl, ?_⟩)
    cases hmain : s.main
    case latest chunk | staleWarning chunk =>
      refine .inr ⟨chunk, rfl, ?_, ?_, ?_⟩ <;> simp [MainPc.failed, Account.main, hmain]
    all_goals
      refine .inl ?_
      simp [Account.main, hmain, MainPc.latestHand]
  case startCapture at_ =>
    refine .inr (.inr ⟨rfl, ?_, .inl ?_⟩) <;> cases hstreaming : job.streaming <;>
      simp [at_, Job.consumer, hstreaming, MainPc.latestHand, Account.main]
  case loadFails at_ | startFails at_ =>
    refine .inr (.inr ⟨rfl, ?_, .inl ?_⟩) <;> cases hscript : job.script <;>
      simp [at_, Script.outside, MainPc.latestHand, Account.main]
  case concludingFails failure concluding =>
    refine .inr (.inr ⟨rfl, rfl, .inl ?_⟩)
    cases hmain : s.main <;> simp_all [MainPc.concluding, MainPc.latestHand, Account.main]
  case get | drain | drained | feed => simp_all [MainPc.streamed]
  all_goals
    refine .inr (.inr ⟨rfl, rfl, .inl ?_⟩)
    simp_all [MainPc.latestHand, Account.main]

/-- What it skips it says, sooner or later. -/
theorem MainStep.said (h : MainStep job s s') (a : Account α) :
    (a.main s s').dropped = a.dropped ∧
      (a.main s s').skipped.length + s.main.unsaid + a.warnings ≤
        a.skipped.length + (a.main s s').warnings + s'.main.unsaid := by
  cases h
  case nextGet at_ _ =>
    by_cases hserver : job.script = .cppServer <;>
      simp [at_, hserver, MainPc.unsaid, Account.main]
  case skipsStale at_ _ | warnsStale at_ | raisesOn at_ _ =>
    simp [at_, MainPc.unsaid, Account.main]
    omega
  -- What was left to say may never be said now.
  case consumerFails failure consuming =>
    refine ⟨by cases hmain : s.main <;> simp [Account.main, hmain], ?_⟩
    have hle := s.main.unsaid_le
    have hsame : (a.main s (s.mainAt (.settingStop (some failure)))).skipped = a.skipped ∧
        (a.main s (s.mainAt (.settingStop (some failure)))).warnings = a.warnings := by
      cases hmain : s.main <;> simp [Account.main, hmain]
    rw [hsame.1, hsame.2]
    show _ ≤ a.skipped.length + a.warnings + 1
    omega
  case concludingFails failure concluding =>
    have hle := s.main.unsaid_le
    have hsame : a.main s (s.mainAt (.ended (some failure))) = a := by
      cases hmain : s.main <;> simp_all [Account.main, MainPc.concluding]
    rw [hsame]
    refine ⟨rfl, ?_⟩
    show _ ≤ a.skipped.length + a.warnings + 1
    omega
  case startCapture at_ =>
    cases hstreaming : job.streaming <;>
      simp [at_, Job.consumer, hstreaming, MainPc.unsaid, Account.main]
  case loadFails at_ | startFails at_ =>
    cases hscript : job.script <;> simp [at_, Script.outside, MainPc.unsaid, Account.main]
  case setsStop failure at_ | joined failure at_ | serverStopped failure at_ |
      stillAlive failure at_ _ | notAlive failure at_ _ | finalCaptureError failure _ _ at_ _ =>
    cases failure <;> simp [at_, MainPc.unsaid, Account.main]
    omega
  all_goals simp_all [MainPc.unsaid, Account.main]

theorem MainStep.streamed (h : MainStep job s s') (hchunked : job.streaming = false)
    (hs : ¬s.main.streamed) : ¬s'.main.streamed := by
  cases h
  case startCapture => simp [Job.consumer, hchunked, MainPc.streamed]
  case loadFails | startFails =>
    cases hscript : job.script <;> simp [Script.outside, MainPc.streamed]
  case nextGet => by_cases hserver : job.script = .cppServer <;> simp [hserver, MainPc.streamed]
  all_goals simp_all [MainPc.streamed]

omit [Casefold] in
/-- Two lists with the same members as often, from two that were. -/
theorem perm_of_count {σ : Type} {xs ys xs' ys' : List σ} (h : xs.Perm ys)
    (hcount : ∀ [DecidableEq σ] (x : σ), xs.count x = ys.count x → xs'.count x = ys'.count x) :
    xs'.Perm ys' := by
  classical
  rw [List.perm_iff_count] at h ⊢
  exact fun x => hcount x (h x)

omit [Casefold] in
theorem CapturePc.hasRoom_shrinks {pc : CapturePc α β} {queue queue' : List (List α)}
    (h : pc.hasRoom job queue) (hle : queue'.length ≤ queue.length) : pc.hasRoom job queue' := by
  cases pc <;> simp only [hasRoom]
  intro hfull
  exact h ⟨hfull.1, by have := hfull.2; omega⟩

/-- The main thread has no part in what the capture thread has left to say. -/
theorem MainStep.capture_unsaid (h : MainStep job s s')
    (hbefore : ¬s.main.started → s.capture.pc = .notStarted) {queue : List (List α)}
    (hroom : s.capture.pc.hasRoom job queue) :
    s'.capture.pc.unsaid = s.capture.pc.unsaid ∧ s'.capture.pc.hasRoom job queue := by
  obtain ⟨-, -, heq | ⟨hmain, heq⟩⟩ := h.frame
  · rw [heq]
    exact ⟨rfl, hroom⟩
  · have hpc := hbefore (by simp [hmain, MainPc.started])
    rw [heq, hpc]
    exact ⟨rfl, trivial⟩

theorem Accounted.main (h : Accounted job s a) (hchunked : job.streaming = false)
    (hbefore : ¬s.main.started → s.capture.pc = .notStarted) (hstep : MainStep job s s') :
    Accounted job s' (a.main s s') := by
  obtain ⟨hstream, horder, hheard, hfates, hwarned, hcapacity, hroom, hinterrupted⟩ := h
  have hqueued := hstep.recording.2.2.2
  have hstream' := hstep.streamed hchunked hstream
  obtain ⟨hcapture, hroom⟩ := hstep.capture_unsaid hbefore hroom
  obtain ⟨hdropped, hsaid⟩ := hstep.said a
  have hwarned' : (a.main s s').skipped.length + (a.main s s').dropped.length ≤
      (a.main s s').warnings + s'.capture.pc.unsaid + s'.main.unsaid := by
    rw [hdropped, hcapture]
    omega
  have hinterrupted' : a.interrupted ≠ [] → s'.main.failed ∧ a.interrupted.length = 1 := by
    intro hne
    obtain ⟨hmain, hone⟩ := hinterrupted hne
    exact ⟨hstep.failed hmain, hone⟩
  rcases hstep.backlog hstream a with ⟨chunk, rest, hs, hs', htaken⟩ |
    ⟨hs', hhand', haccount⟩ | ⟨hs', hhand', hended⟩
  · have horder' : a.removed ++ [chunk] ++ s'.chunks = s'.queued := by
      rw [hs', hqueued, ← horder, hs, List.append_assoc, List.singleton_append]
    have hcapacity' : 0 < job.maxsize → s'.chunks.length ≤ job.maxsize := by
      intro hlimit
      have := hcapacity hlimit
      rw [hs, List.length_cons] at this
      rw [hs']
      omega
    have hroom' : s'.capture.pc.hasRoom job s'.chunks :=
      CapturePc.hasRoom_shrinks hroom (by rw [hs, hs']; simp)
    rcases htaken with ⟨hhand, hhand', haccount⟩ | ⟨hhand, hhand', haccount⟩ |
      ⟨stale, hhand, hhand', haccount⟩ <;> rw [haccount] at hwarned' ⊢
    · refine ⟨hstream', horder', ?_, ?_, hwarned', hcapacity', hroom', hinterrupted'⟩
      · rw [hhand, List.append_nil] at hheard
        rw [hhand', List.append_nil]
        exact hheard.append (List.Sublist.refl _)
      · rw [hhand] at hfates
        rw [hhand']
        exact perm_of_count hfates (by simp only [List.count_append]; omega)
    · refine ⟨hstream', horder', ?_, ?_, hwarned', hcapacity', hroom', hinterrupted'⟩
      · rw [hhand, List.append_nil] at hheard
        rw [hhand']
        exact hheard.append (List.Sublist.refl _)
      · rw [hhand] at hfates
        rw [hhand']
        exact perm_of_count hfates (by simp only [List.count_append, List.count_nil]; omega)
    · refine ⟨hstream', horder', ?_, ?_, hwarned', hcapacity', hroom', hinterrupted'⟩
      · rw [hhand']
        have hheard : a.heard.Sublist a.removed := (List.sublist_append_left _ _).trans hheard
        exact hheard.append (List.Sublist.refl _)
      · rw [hhand] at hfates
        rw [hhand']
        exact perm_of_count hfates (by simp only [List.count_append]; omega)
  · rw [haccount] at hwarned' ⊢
    exact ⟨hstream', by rw [hs', hqueued, horder], hhand' ▸ hheard, hhand' ▸ hfates, hwarned',
      hs' ▸ hcapacity, hs' ▸ hroom, hinterrupted'⟩
  · have horder' : a.removed ++ s'.chunks = s'.queued := by rw [hs', hqueued, horder]
    have hcapacity' : 0 < job.maxsize → s'.chunks.length ≤ job.maxsize := by rwa [hs']
    have hroom' : s'.capture.pc.hasRoom job s'.chunks := by rwa [hs']
    rcases hended with haccount | ⟨chunk, hhand, hgood, hfails, haccount⟩ <;>
      rw [haccount] at hwarned' ⊢
    · refine ⟨hstream', horder', ?_, ?_, hwarned', hcapacity', hroom', hinterrupted'⟩
      · rw [hhand', List.append_nil]
        exact hheard
      · rw [hhand']
        exact perm_of_count hfates (by simp only [List.count_append, List.count_nil]; omega)
    · have hnone : a.interrupted = [] := by
        by_contra hne
        exact hgood (hinterrupted hne).1
      refine ⟨hstream', horder', ?_, ?_, hwarned', hcapacity', hroom', fun _ => ⟨hfails, ?_⟩⟩
      · rw [hhand', List.append_nil]
        exact (List.sublist_append_left _ _).trans hheard
      · rw [hhand] at hfates
        rw [hhand']
        exact perm_of_count hfates (by simp only [List.count_append, List.count_nil]; omega)
      · rw [hnone]
        rfl

theorem accounted_reachable (hchunked : job.streaming = false) {w : Backlog α β ρ}
    (hw : (Backlog.system job).Reachable w) : Accounted job w.state w.account := by
  refine Inductive.reachable (I := fun w => Accounted job w.state w.account) ⟨?_, ?_⟩ hw
  · rintro _ rfl
    exact ⟨id, rfl, List.Sublist.refl _, List.Perm.refl _, Nat.zero_le _,
      fun hlimit => Int.le_of_lt hlimit, trivial, fun hne => absurd rfl hne⟩
  · intro w w' hr h hstep
    cases hstep with
    | capture step => exact h.capture step
    | main step => exact h.main hchunked (explained_reachable (Backlog.reachable hr)).before step
    | stopRequested | watcherSees | watcherLeaves =>
      exact ⟨h.chunked, h.order, h.heard, h.fates, h.warned, h.capacity, h.room, h.interrupted⟩

/-- **Nothing is lost without a word when transcription is behind.** Every session without
    `--streaming` has an account, and whatever its threads do: the chunks given to the
    recognizer are some of those queued, in the order they were recorded and none twice;
    every other one was skipped or dropped, is (or was, when the session failed) in the
    consumer's hands, or is still queued; and a warning was printed for each one skipped or
    dropped, but for one that a thread is about to print, or would have if it had not failed.
    The queue never grows beyond its limit, and the second `put_nowait` of `enqueue_chunk`
    always finds room. -/
theorem backlog_accounted (job : Job α β ρ) (hchunked : job.streaming = false) :
    (∀ s, (system job).Reachable s → ∃ a, (Backlog.system job).Reachable ⟨s, a⟩) ∧
    ∀ w, (Backlog.system job).Reachable w →
      w.account.heard.Sublist w.state.queued ∧
      w.state.queued.Perm
        (w.account.heard ++ w.state.main.latestHand ++ w.account.skipped ++ w.account.dropped ++
          w.account.interrupted ++ w.state.chunks) ∧
      (w.account.interrupted ≠ [] → w.state.main.failed ∧ w.account.interrupted.length = 1) ∧
      w.account.skipped.length + w.account.dropped.length ≤
        w.account.warnings + w.state.capture.pc.unsaid + w.state.main.unsaid ∧
      (0 < job.maxsize → w.state.chunks.length ≤ job.maxsize) ∧
      ∀ chunk caller, w.state.capture.pc = .putAgain chunk caller →
        ¬job.full w.state.chunks := by
  refine ⟨fun s hs => Backlog.of_reachable hs, fun w hw => ?_⟩
  have h := accounted_reachable hchunked hw
  refine ⟨?_, ?_, h.interrupted, h.warned, h.capacity, fun chunk caller hpc => ?_⟩
  · have hheard : w.account.heard.Sublist w.account.removed :=
      (List.sublist_append_left _ _).trans h.heard
    rw [← h.order]
    exact hheard.trans (List.sublist_append_left _ _)
  · rw [← h.order]
    exact h.fates.append_right _
  · have hroom := h.room
    rw [hpc] at hroom
    exact hroom

end

/-- `live_cpp.py --server` with chunks of one sample and room for one of them. -/
def Job.behind : Job Nat (List Nat) Unit where
  script := .cppServer
  streaming := false
  includeMic := false
  systemDevice := none
  micDevice := none
  recordingOutput := false
  stopFileNamed := true
  captureRate := 16000
  sampleRate := 16000
  chunkSeconds := 1
  maxBacklog := 1
  mixAudio system _ := system
  resampleStream := ⟨(), fun _ samples => ((), samples), fun _ => []⟩
  soxrResample samples _ _ := samples
  streaming_server h := by cases h

/-- Two blocks are captured while the recognizer is busy with nothing yet: the first is
    dropped with a warning, the second is still queued. -/
theorem backlog_accounted_behind :
    let _ := asciiCasefold
    ∃ w : Backlog Nat (List Nat) Unit, (Backlog.system Job.behind).Reachable w ∧
      w.state.queued = [[7], [8]] ∧ w.account.dropped = [[7]] ∧ w.account.warnings = 1 ∧
      w.account.heard.Sublist w.state.queued := by
  intro _
  have found : selectSystemLoopback .plain none = .ok .speakers := rfl
  have room : ¬Job.behind.full [] := by simp [Job.full, Job.maxsize, Job.behind]
  have full : Job.behind.full [[7]] := by simp [Job.full, Job.maxsize, Job.behind]
  have h := Reachable.start (S := Backlog.system Job.behind) rfl
  have h := h.next (.main (.select rfl found (by simp [Job.behind])))
  have h := h.next (.main (.load rfl))
  have h := h.next (.main (.startCapture rfl))
  have h := h.next (.capture (.selectSystem rfl found))
  have h := h.next (.capture (.opened rfl))
  have h := h.next (.capture (.loopGoesOn rfl rfl))
  have h := h.next (.capture (.recordSystem [7] rfl))
  have h := h.next (.capture (.resample rfl))
  have h := h.next (.capture (.write rfl))
  have h := h.next (.capture (.batchFull rfl (by decide)))
  have h := h.next (.capture (.put rfl room))
  have h := h.next (.capture (.loopGoesOn rfl rfl))
  have h := h.next (.capture (.recordSystem [8] rfl))
  have h := h.next (.capture (.resample rfl))
  have h := h.next (.capture (.write rfl))
  have h := h.next (.capture (.batchFull rfl (by decide)))
  have h := h.next (.capture (.queueFull rfl full))
  have h := h.next (.capture (.makeRoom rfl))
  have h := h.next (.capture (.putAgain rfl room))
  have h := h.next (.capture (.warns rfl))
  exact ⟨_, h, rfl, rfl, rfl, ((backlog_accounted Job.behind rfl).2 _ h).1⟩

end Live
end LocalMeetingStt
