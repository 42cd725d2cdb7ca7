import LocalMeetingStt.Live.Devices
import LocalMeetingStt.Lib.Transition

/-!
# A live session (`live_transcribe.py`, `live_cpp.py`, `session_control.py`)

Three threads: the capture thread (`capture_worker` around `capture_audio`), the watcher
of the stop file, and the main thread, which is `run_live` with the caption consumer
inside it. They share one event, one queue and one list of errors, and a step is one
access to any of those, one call into the audio libraries, or one statement that may
fail. The two scripts run the same threads and differ in what stands inside the `try`,
so one transition system with a `Script` models both.

Four members of the state only remember: `recorded` is every mixed block that went into
the resampler, `resampled` all it has answered, `queued` every chunk ever put and `fed`
every array `run_streaming` has given to the segmenter. No step reads them.

Time is not in the model: a wait with a timeout may end at any moment, and a `get` on an
empty queue with an exception.
-/

namespace LocalMeetingStt
namespace Live

/-! ## What a session is started with -/

/-- A stateful resampler: one call for each block, and a last one for what it holds. -/
structure Resampler (ρ α : Type) where
  start : ρ
  chunk : ρ → List α → ρ × List α
  flush : ρ → List α

inductive Script where
  /-- `live_transcribe.py` -/
  | transcribe
  /-- `live_cpp.py --server` -/
  | cppServer
  /-- `live_cpp.py` with one `whisper-cli` run a chunk -/
  | cppFile
deriving DecidableEq, Repr

/-- The arguments of `run_live` that its threads use, and the libraries it calls. A block
    as the recorder answers it is a `β`, a sample an `α`. -/
structure Job (α β ρ : Type) where
  script : Script
  streaming : Bool
  includeMic : Bool
  systemDevice : Option Text
  micDevice : Option Text
  /-- `args.recording_output` is set. -/
  recordingOutput : Bool
  /-- `LOCAL_MEETING_STT_STOP_FILE` is set. -/
  stopFileNamed : Bool
  captureRate : Nat
  sampleRate : Nat
  /-- `int(args.sample_rate * args.chunk_seconds)` -/
  chunkSeconds : Nat
  maxBacklog : Int
  /-- `mix_audio`, and in `live_cpp.py` the gain after it. -/
  mixAudio : β → Option β → List α
  /-- `soxr.ResampleStream` -/
  resampleStream : Resampler ρ α
  /-- `soxr.resample` -/
  soxrResample : List α → Nat → Nat → List α
  /-- The other combination is refused with a `ValueError`. -/
  streaming_server : streaming = true → script ≠ .cppFile

namespace Job

variable {α β ρ : Type}

/-- `StreamResampler`, which passes the samples through between equal rates. -/
def resampler (job : Job α β ρ) : Resampler ρ α where
  start := job.resampleStream.start
  chunk r samples :=
    if job.captureRate = job.sampleRate then (r, samples) else job.resampleStream.chunk r samples
  flush r := if job.captureRate = job.sampleRate then [] else job.resampleStream.flush r

/-- `resample_audio`, of one chunk. -/
def resampleAudio (job : Job α β ρ) (samples : List α) (inputRate outputRate : Nat) : List α :=
  if inputRate = outputRate then samples else job.soxrResample samples inputRate outputRate

/-- The samples that are gathered before a chunk is queued. -/
def chunkSamples (job : Job α β ρ) : Nat :=
  if job.streaming then 1 else max 1 job.chunkSeconds

/-- `maxsize` of the queue, which has no limit at zero and below. -/
def maxsize (job : Job α β ρ) : Int :=
  if job.streaming then 0
  else if job.script = .cppServer then min job.maxBacklog 1
  else job.maxBacklog

def full (job : Job α β ρ) (queue : List (List α)) : Prop :=
  0 < job.maxsize ∧ job.maxsize ≤ queue.length

end Job

/-! ## The capture thread -/

/-- Where `enqueue_chunk` returns to. -/
inductive Caller where
  | loop
  | tail
deriving DecidableEq, Repr

/-- Where the capture thread stands. -/
inductive CapturePc (α β : Type) where
  | notStarted
  | selectSystem
  | selectMic
  /-- The recording is created and the recorders are opened. -/
  | opening
  /-- `while not stop_event.is_set()` -/
  | loopTest
  | recordSystem
  | recordMic (system : β)
  | resample (mixed : List α)
  | write (mono : List α)
  | batch (mono : List α)
  | flush
  | writeTail (tail : List α)
  /-- The recorders and the recording are closed. -/
  | closing
  | queueTail
  | enqueue (chunk : List α) (caller : Caller)
  /-- `enqueue_chunk` found the queue full. -/
  | makeRoom (chunk : List α) (caller : Caller)
  | putAgain (chunk : List α) (caller : Caller)
  /-- The second `put_nowait` is done, and the warning not printed yet. -/
  | warning (caller : Caller)
  /-- `capture_audio` is left by this failure; `except Exception` is next. -/
  | raised (failure : Failure)
  /-- `finally: stop.set()` -/
  | settingStop (failure : Option Failure)
  | exiting (failure : Option Failure)
  | dead (failure : Option Failure)
deriving DecidableEq, Repr

/-- The capture thread's own variables. -/
structure Capture (α β ρ : Type) where
  pc : CapturePc α β
  resampler : ρ
  pending : List (List α)
  pendingFrames : Nat
deriving DecidableEq, Repr

/-! ## The main thread -/

/-- Where the main thread stands. -/
inductive MainPc (α : Type) where
  /-- The devices are selected, before anything is started. -/
  | selecting
  /-- The model is loaded, or the server started. -/
  | loading
  /-- `capture_thread.start()` -/
  | starting
  /-- `run_streaming`: `if errors: raise` at the head of its loop. -/
  | errorsTest
  | get
  /-- The `get` timed out. -/
  | stopTest
  | drain (blocks : List (List α))
  | feed (blocks : List (List α))
  | process
  /-- Behind the loop. -/
  | lastErrorsTest
  | finish
  /-- `next_chunk`: `while not stop.is_set()` -/
  | nextStopTest
  | nextErrorsTest
  | nextGet
  /-- `get_latest_chunk` takes what else is queued. -/
  | latest (chunk : List α)
  /-- It has taken this one, and the warning about the one before is not printed yet. -/
  | staleWarning (chunk : List α)
  | transcribe (chunk : List α)
  | nextLastErrorsTest
  /-- `finally`, entered normally or with a failure. -/
  | settingStop (failure : Option Failure)
  | joining (failure : Option Failure)
  /-- Without a server there is nothing to stop. -/
  | stoppingServer (failure : Option Failure)
  | aliveTest (failure : Option Failure)
  | finalErrorsTest (failure : Option Failure)
  /-- The `Stopped:` line is printed. -/
  | printing
  /-- `run_live` has returned, or raised this. -/
  | ended (failure : Option Failure)
deriving DecidableEq, Repr

/-- `RuntimeError(f"Audio capture failed: {errors[0]}")` -/
def audioCaptureFailed (error : Failure) : Failure :=
  .exception ("Audio capture failed: ".toList ++ error.message)

def deviceDidNotStop : Failure :=
  .exception "Audio device did not stop; recording may be incomplete".toList

/-! ## The session -/

/-- What the two threads share, and where they stand. -/
structure State (α β ρ : Type) where
  /-- The stop file exists. -/
  stopFile : Bool
  /-- The watcher's loop runs. -/
  watching : Bool
  stopEvent : Bool
  errors : List Failure
  chunks : List (List α)
  capture : Capture α β ρ
  main : MainPc α
  /-- What was written to the recording. -/
  wav : List α
  recorded : List (List α)
  resampled : List α
  queued : List (List α)
  fed : List (List α)

variable {α β ρ : Type}

/-- Before either has taken a step. -/
def State.start (job : Job α β ρ) : State α β ρ where
  stopFile := false
  watching := false
  stopEvent := false
  errors := []
  chunks := []
  capture :=
    { pc := .notStarted, resampler := job.resampler.start, pending := [], pendingFrames := 0 }
  main := .selecting
  wav := []
  recorded := []
  resampled := []
  queued := []
  fed := []

namespace State

def captureAt (s : State α β ρ) (pc : CapturePc α β) : State α β ρ :=
  { s with capture := { s.capture with pc } }

def mainAt (s : State α β ρ) (main : MainPc α) : State α β ρ := { s with main }

/-- `recording_file.write`, if there is one. -/
def writes (s : State α β ρ) (job : Job α β ρ) (samples : List α) : State α β ρ :=
  { s with wav := if job.recordingOutput then s.wav ++ samples else s.wav }

def puts (s : State α β ρ) (chunk : List α) : State α β ρ :=
  { s with chunks := s.chunks ++ [chunk], queued := s.queued ++ [chunk] }

@[simp] theorem captureAt_pc (s : State α β ρ) (pc : CapturePc α β) :
    (s.captureAt pc).capture.pc = pc := rfl
@[simp] theorem captureAt_pending (s : State α β ρ) (pc : CapturePc α β) :
    (s.captureAt pc).capture.pending = s.capture.pending := rfl
@[simp] theorem captureAt_main (s : State α β ρ) (pc : CapturePc α β) :
    (s.captureAt pc).main = s.main := rfl
@[simp] theorem captureAt_stopFile (s : State α β ρ) (pc : CapturePc α β) :
    (s.captureAt pc).stopFile = s.stopFile := rfl
@[simp] theorem captureAt_stopEvent (s : State α β ρ) (pc : CapturePc α β) :
    (s.captureAt pc).stopEvent = s.stopEvent := rfl
@[simp] theorem captureAt_errors (s : State α β ρ) (pc : CapturePc α β) :
    (s.captureAt pc).errors = s.errors := rfl
@[simp] theorem captureAt_chunks (s : State α β ρ) (pc : CapturePc α β) :
    (s.captureAt pc).chunks = s.chunks := rfl
@[simp] theorem captureAt_fed (s : State α β ρ) (pc : CapturePc α β) :
    (s.captureAt pc).fed = s.fed := rfl
@[simp] theorem mainAt_main (s : State α β ρ) (main : MainPc α) : (s.mainAt main).main = main := rfl
@[simp] theorem mainAt_capture (s : State α β ρ) (main : MainPc α) :
    (s.mainAt main).capture = s.capture := rfl
@[simp] theorem mainAt_stopFile (s : State α β ρ) (main : MainPc α) :
    (s.mainAt main).stopFile = s.stopFile := rfl
@[simp] theorem mainAt_stopEvent (s : State α β ρ) (main : MainPc α) :
    (s.mainAt main).stopEvent = s.stopEvent := rfl
@[simp] theorem mainAt_errors (s : State α β ρ) (main : MainPc α) :
    (s.mainAt main).errors = s.errors := rfl
@[simp] theorem mainAt_chunks (s : State α β ρ) (main : MainPc α) :
    (s.mainAt main).chunks = s.chunks := rfl
@[simp] theorem mainAt_fed (s : State α β ρ) (main : MainPc α) :
    (s.mainAt main).fed = s.fed := rfl

end State

namespace Capture

/-- `enqueue_chunk` has returned: the loop starts a new batch. -/
def back (c : Capture α β ρ) : Caller → Capture α β ρ
  | .loop => { c with pc := .loopTest, pending := [], pendingFrames := 0 }
  | .tail => { c with pc := .settingStop none }

/-- `capture_audio` runs, so that anything it does may fail. -/
def inTarget (c : Capture α β ρ) : Prop :=
  match c.pc with
  | .notStarted | .raised _ | .settingStop _ | .exiting _ | .dead _ => False
  | _ => True

/-- `is_alive()` -/
def alive (c : Capture α β ρ) : Prop :=
  match c.pc with
  | .notStarted | .dead _ => False
  | _ => True

end Capture

namespace MainPc

/-- The caption consumer runs: what it raises goes through the `finally`. -/
def consuming : MainPc α → Prop
  | .errorsTest | .get | .stopTest | .drain _ | .feed _ | .process | .lastErrorsTest | .finish
  | .nextStopTest | .nextErrorsTest | .nextGet | .latest _ | .staleWarning _ | .transcribe _
  | .nextLastErrorsTest => True
  | _ => False

/-- The `finally` runs, or what stands behind it. -/
def concluding : MainPc α → Prop
  | .settingStop _ | .joining _ | .stoppingServer _ | .aliveTest _ | .finalErrorsTest _
  | .printing => True
  | _ => False

end MainPc

section

variable [Casefold]

/-! ## Steps of the capture thread -/

/-- `capture_worker(capture_audio, …)`. -/
inductive CaptureStep (job : Job α β ρ) (s : State α β ρ) : State α β ρ → Prop
  | selectSystem {sound : Sound} {device : Device} (at_ : s.capture.pc = .selectSystem)
      (found : selectSystemLoopback sound job.systemDevice = .ok device) :
      CaptureStep job s (s.captureAt (if job.includeMic then .selectMic else .opening))
  | systemMissing {sound : Sound} {failure : Failure} (at_ : s.capture.pc = .selectSystem)
      (missing : selectSystemLoopback sound job.systemDevice = .error failure) :
      CaptureStep job s (s.captureAt (.raised failure))
  | selectMic {sound : Sound} {device : Device} (at_ : s.capture.pc = .selectMic)
      (found : selectMicrophone sound job.micDevice = .ok device) :
      CaptureStep job s (s.captureAt .opening)
  | micMissing {sound : Sound} {failure : Failure} (at_ : s.capture.pc = .selectMic)
      (missing : selectMicrophone sound job.micDevice = .error failure) :
      CaptureStep job s (s.captureAt (.raised failure))
  | opened (at_ : s.capture.pc = .opening) : CaptureStep job s (s.captureAt .loopTest)
  | loopGoesOn (at_ : s.capture.pc = .loopTest) (goes_on : s.stopEvent = false) :
      CaptureStep job s (s.captureAt .recordSystem)
  | loopEnds (at_ : s.capture.pc = .loopTest) (stopped : s.stopEvent = true) :
      CaptureStep job s (s.captureAt .flush)
  | recordSystem (system : β) (at_ : s.capture.pc = .recordSystem) :
      CaptureStep job s (s.captureAt
        (if job.includeMic then .recordMic system else .resample (job.mixAudio system none)))
  | recordMic {system : β} (mic : β) (at_ : s.capture.pc = .recordMic system) :
      CaptureStep job s (s.captureAt (.resample (job.mixAudio system (some mic))))
  | resample {mixed : List α} (at_ : s.capture.pc = .resample mixed) :
      CaptureStep job s
        { s with
          capture :=
            { s.capture with
              pc := .write (job.resampler.chunk s.capture.resampler mixed).2
              resampler := (job.resampler.chunk s.capture.resampler mixed).1 }
          recorded := s.recorded ++ [mixed]
          resampled := s.resampled ++ (job.resampler.chunk s.capture.resampler mixed).2 }
  | write {mono : List α} (at_ : s.capture.pc = .write mono) :
      CaptureStep job s ((s.writes job mono).captureAt (.batch mono))
  | batchFull {mono : List α} (at_ : s.capture.pc = .batch mono)
      (enough : job.chunkSamples ≤ s.capture.pendingFrames + mono.length) :
      CaptureStep job s
        { s with
          capture :=
            { s.capture with
              pc := .enqueue (s.capture.pending ++ [mono]).flatten .loop
              pending := s.capture.pending ++ [mono]
              pendingFrames := s.capture.pendingFrames + mono.length } }
  | batchOpen {mono : List α} (at_ : s.capture.pc = .batch mono)
      (short : s.capture.pendingFrames + mono.length < job.chunkSamples) :
      CaptureStep job s
        { s with
          capture :=
            { s.capture with
              pc := .loopTest
              pending := s.capture.pending ++ [mono]
              pendingFrames := s.capture.pendingFrames + mono.length } }
  | flush (at_ : s.capture.pc = .flush) :
      CaptureStep job s
        { s.captureAt (.writeTail (job.resampler.flush s.capture.resampler)) with
          resampled := s.resampled ++ job.resampler.flush s.capture.resampler }
  | writeTail {tail : List α} (at_ : s.capture.pc = .writeTail tail) :
      CaptureStep job s
        { s.writes job tail with
          capture := { s.capture with pc := .closing, pending := s.capture.pending ++ [tail] } }
  | closed (at_ : s.capture.pc = .closing) : CaptureStep job s (s.captureAt .queueTail)
  | queueTail (at_ : s.capture.pc = .queueTail) (some_pending : s.capture.pending ≠ []) :
      CaptureStep job s (s.captureAt (.enqueue s.capture.pending.flatten .tail))
  | noTail (at_ : s.capture.pc = .queueTail) (none_pending : s.capture.pending = []) :
      CaptureStep job s (s.captureAt (.settingStop none))
  | put {chunk : List α} {caller : Caller} (at_ : s.capture.pc = .enqueue chunk caller)
      (room : ¬job.full s.chunks) :
      CaptureStep job s { s.puts chunk with capture := s.capture.back caller }
  | queueFull {chunk : List α} {caller : Caller} (at_ : s.capture.pc = .enqueue chunk caller)
      (full : job.full s.chunks) : CaptureStep job s (s.captureAt (.makeRoom chunk caller))
  | makeRoom {chunk : List α} {caller : Caller} (at_ : s.capture.pc = .makeRoom chunk caller) :
      CaptureStep job s { s.captureAt (.putAgain chunk caller) with chunks := s.chunks.tail }
  | putAgain {chunk : List α} {caller : Caller} (at_ : s.capture.pc = .putAgain chunk caller)
      (room : ¬job.full s.chunks) :
      CaptureStep job s ((s.puts chunk).captureAt (.warning caller))
  | warns {caller : Caller} (at_ : s.capture.pc = .warning caller) :
      CaptureStep job s { s with capture := s.capture.back caller }
  /-- Opening, recording, resampling, writing, closing, queueing and printing may all fail. -/
  | fails (message : Text) (running : s.capture.inTarget) :
      CaptureStep job s (s.captureAt (.raised (.exception message)))
  | caught {message : Text} (at_ : s.capture.pc = .raised (.exception message)) :
      CaptureStep job s
        { s.captureAt (.settingStop (some (.exception message))) with
          errors := s.errors ++ [.exception message] }
  | uncaught {message : Text} (at_ : s.capture.pc = .raised (.systemExit message)) :
      CaptureStep job s (s.captureAt (.settingStop (some (.systemExit message))))
  | setsStop {failure : Option Failure} (at_ : s.capture.pc = .settingStop failure) :
      CaptureStep job s { s.captureAt (.exiting failure) with stopEvent := true }
  | exits {failure : Option Failure} (at_ : s.capture.pc = .exiting failure) :
      CaptureStep job s (s.captureAt (.dead failure))

/-! ## Steps of the main thread -/

/-- Where a failure outside the consumer leads: out of `run_live`, or to its `finally`. -/
def Script.outside (script : Script) (failure : Failure) : MainPc α :=
  match script with
  | .transcribe => .ended (some failure)
  | .cppServer | .cppFile => .settingStop (some failure)

/-- The first statement of the consumer. -/
def Job.consumer (job : Job α β ρ) : MainPc α :=
  if job.streaming then .errorsTest else .nextStopTest

/-- What the main thread can do next. -/
inductive MainStep (job : Job α β ρ) (s : State α β ρ) : State α β ρ → Prop
  | select {sound : Sound} {device : Device} (at_ : s.main = .selecting)
      (found : selectSystemLoopback sound job.systemDevice = .ok device)
      (mic_found : job.includeMic = true →
        ∃ sound' mic, selectMicrophone sound' job.micDevice = .ok mic) :
      MainStep job s
        { s.mainAt .loading with
          watching := job.stopFileNamed && decide (job.script ≠ .transcribe) }
  | selectFails (failure : Failure) (at_ : s.main = .selecting) :
      MainStep job s (s.mainAt (.ended (some failure)))
  /-- `live_transcribe.py` starts the watcher when the model is loaded. -/
  | load (at_ : s.main = .loading) :
      MainStep job s
        { s.mainAt .starting with
          watching := s.watching || (job.stopFileNamed && decide (job.script = .transcribe)) }
  | loadFails (failure : Failure) (at_ : s.main = .loading) :
      MainStep job s (s.mainAt (job.script.outside failure))
  | startCapture (at_ : s.main = .starting) :
      MainStep job s ((s.captureAt .selectSystem).mainAt job.consumer)
  | startFails (failure : Failure) (at_ : s.main = .starting) :
      MainStep job s (s.mainAt (job.script.outside failure))
  -- `run_streaming`
  | captureError {error : Failure} {errors : List Failure} (at_ : s.main = .errorsTest)
      (some_error : s.errors = error :: errors) :
      MainStep job s (s.mainAt (.settingStop (some (audioCaptureFailed error))))
  | noError (at_ : s.main = .errorsTest) (no_error : s.errors = []) :
      MainStep job s (s.mainAt .get)
  | get {block : List α} {rest : List (List α)} (at_ : s.main = .get)
      (queued : s.chunks = block :: rest) :
      MainStep job s { s.mainAt (.drain [block]) with chunks := rest }
  | getTimesOut (at_ : s.main = .get) (empty : s.chunks = []) :
      MainStep job s (s.mainAt .stopTest)
  | stopped (at_ : s.main = .stopTest) (stopped : s.stopEvent = true) :
      MainStep job s (s.mainAt .lastErrorsTest)
  | notStopped (at_ : s.main = .stopTest) (goes_on : s.stopEvent = false) :
      MainStep job s (s.mainAt .errorsTest)
  | drain {blocks : List (List α)} {block : List α} {rest : List (List α)}
      (at_ : s.main = .drain blocks) (queued : s.chunks = block :: rest) :
      MainStep job s { s.mainAt (.drain (blocks ++ [block])) with chunks := rest }
  | drained {blocks : List (List α)} (at_ : s.main = .drain blocks) (empty : s.chunks = []) :
      MainStep job s (s.mainAt (.feed blocks))
  | feed {blocks : List (List α)} (at_ : s.main = .feed blocks) :
      MainStep job s
        { s.mainAt .process with
          fed := s.fed ++
            [(blocks.map fun item =>
              job.resampleAudio item job.sampleRate job.sampleRate).flatten] }
  | processed (at_ : s.main = .process) : MainStep job s (s.mainAt .errorsTest)
  | lastCaptureError {error : Failure} {errors : List Failure} (at_ : s.main = .lastErrorsTest)
      (some_error : s.errors = error :: errors) :
      MainStep job s (s.mainAt (.settingStop (some (audioCaptureFailed error))))
  | noLastError (at_ : s.main = .lastErrorsTest) (no_error : s.errors = []) :
      MainStep job s (s.mainAt .finish)
  | finished (at_ : s.main = .finish) : MainStep job s (s.mainAt (.settingStop none))
  -- `next_chunk`, and what its caller does with the chunk
  | nextStopped (at_ : s.main = .nextStopTest) (stopped : s.stopEvent = true) :
      MainStep job s (s.mainAt .nextLastErrorsTest)
  | nextNotStopped (at_ : s.main = .nextStopTest) (goes_on : s.stopEvent = false) :
      MainStep job s (s.mainAt .nextErrorsTest)
  | nextCaptureError {error : Failure} {errors : List Failure} (at_ : s.main = .nextErrorsTest)
      (some_error : s.errors = error :: errors) :
      MainStep job s (s.mainAt (.settingStop (some (audioCaptureFailed error))))
  | nextNoError (at_ : s.main = .nextErrorsTest) (no_error : s.errors = []) :
      MainStep job s (s.mainAt .nextGet)
  | nextGet {chunk : List α} {rest : List (List α)} (at_ : s.main = .nextGet)
      (queued : s.chunks = chunk :: rest) :
      MainStep job s
        { s.mainAt (if job.script = .cppServer then .latest chunk else .transcribe chunk) with
          chunks := rest }
  | nextTimesOut (at_ : s.main = .nextGet) (empty : s.chunks = []) :
      MainStep job s (s.mainAt .nextStopTest)
  | skipsStale {chunk block : List α} {rest : List (List α)} (at_ : s.main = .latest chunk)
      (queued : s.chunks = block :: rest) :
      MainStep job s { s.mainAt (.staleWarning block) with chunks := rest }
  | warnsStale {chunk : List α} (at_ : s.main = .staleWarning chunk) :
      MainStep job s (s.mainAt (.latest chunk))
  | takesLatest {chunk : List α} (at_ : s.main = .latest chunk) (empty : s.chunks = []) :
      MainStep job s (s.mainAt (.transcribe chunk))
  | transcribed {chunk : List α} (at_ : s.main = .transcribe chunk) :
      MainStep job s (s.mainAt .nextStopTest)
  | nextLastCaptureError {error : Failure} {errors : List Failure}
      (at_ : s.main = .nextLastErrorsTest) (some_error : s.errors = error :: errors) :
      MainStep job s (s.mainAt (.settingStop (some (audioCaptureFailed error))))
  | nextNoLastError (at_ : s.main = .nextLastErrorsTest) (no_error : s.errors = []) :
      MainStep job s (s.mainAt (.settingStop none))
  /-- A statement of the consumer fails, or Ctrl+C interrupts it before the next one. -/
  | consumerFails (failure : Failure) (consuming : s.main.consuming) :
      MainStep job s (s.mainAt (.settingStop (some failure)))
  -- `finally`
  | setsStop {failure : Option Failure} (at_ : s.main = .settingStop failure) :
      MainStep job s { s.mainAt (.joining failure) with stopEvent := true }
  | joined {failure : Option Failure} (at_ : s.main = .joining failure) :
      MainStep job s (s.mainAt (.stoppingServer failure))
  | serverStopped {failure : Option Failure} (at_ : s.main = .stoppingServer failure) :
      MainStep job s (s.mainAt (.aliveTest failure))
  | stillAlive {failure : Option Failure} (at_ : s.main = .aliveTest failure)
      (alive : s.capture.alive) : MainStep job s (s.mainAt (.ended (some deviceDidNotStop)))
  | notAlive {failure : Option Failure} (at_ : s.main = .aliveTest failure)
      (ended : ¬s.capture.alive) : MainStep job s (s.mainAt (.finalErrorsTest failure))
  | finalCaptureError {failure : Option Failure} {error : Failure} {errors : List Failure}
      (at_ : s.main = .finalErrorsTest failure) (some_error : s.errors = error :: errors) :
      MainStep job s (s.mainAt (.ended (some (audioCaptureFailed error))))
  | raisesOn {failure : Failure} (at_ : s.main = .finalErrorsTest (some failure))
      (no_error : s.errors = []) : MainStep job s (s.mainAt (.ended (some failure)))
  | goesOn (at_ : s.main = .finalErrorsTest none) (no_error : s.errors = []) :
      MainStep job s (s.mainAt .printing)
  | printed (at_ : s.main = .printing) : MainStep job s (s.mainAt (.ended none))
  | concludingFails (failure : Failure) (concluding : s.main.concluding) :
      MainStep job s (s.mainAt (.ended (some failure)))

/-! ## Every thread -/

/-- A step of either thread, of the user, or of the file that asks to stop. -/
inductive Step (job : Job α β ρ) (s : State α β ρ) : State α β ρ → Prop
  | capture {s' : State α β ρ} (step : CaptureStep job s s') : Step job s s'
  | main {s' : State α β ρ} (step : MainStep job s s') : Step job s s'
  /-- The host asks for a stop. -/
  | stopRequested : Step job s { s with stopFile := true }
  | watcherSees (running : s.watching = true) (there : s.stopFile = true) :
      Step job s { s with stopEvent := true, watching := false }
  | watcherLeaves (running : s.watching = true) (stopped : s.stopEvent = true) :
      Step job s { s with watching := false }

/-- A session, from its start. -/
def system (job : Job α β ρ) : Transition.System (State α β ρ) where
  init s := s = State.start job
  next := Step job

end

/-! ## A small session -/

/-- `live_transcribe.py --streaming` between equal rates, without a microphone. -/
def Job.plain : Job Nat (List Nat) Unit where
  script := .transcribe
  streaming := true
  includeMic := false
  systemDevice := none
  micDevice := none
  recordingOutput := true
  stopFileNamed := true
  captureRate := 16000
  sampleRate := 16000
  chunkSeconds := 48000
  maxBacklog := 4
  mixAudio system _ := system
  resampleStream := ⟨(), fun _ samples => ((), samples), fun _ => []⟩
  soxrResample samples _ _ := samples
  streaming_server := by decide

def Device.speakers : Device := ⟨"Speakers".toList, "0".toList, true⟩

/-- The default speaker can be recorded. -/
def Sound.plain : Sound where
  allMicrophones := .ok [.speakers]
  defaultSpeakerName := .ok "Speakers".toList
  defaultMicrophone := .error "no microphone".toList

/-- No device is there any more. -/
def Sound.gone : Sound where
  allMicrophones := .ok []
  defaultSpeakerName := .ok "Speakers".toList
  defaultMicrophone := .error "no microphone".toList

end Live
end LocalMeetingStt
