import LocalMeetingStt.Jobs.State
import LocalMeetingStt.Lib.Transition

/-!
# Every thread of the job runner (`jobs.rs`, `main.rs`)

The app's threads as one transition system. A job's own thread is the `run` that
accepted it up to `watch`, then its two readers and its waiter; `stop_blocking` calls
have program counters of their own, whoever makes them; so have the downloads and the
thread a close request starts. A step is one locked section, one event sent, one read,
or one answer of the operating system, so any interleaving of the real threads is a
run of this system.

Time is not in the model: a wait with a deadline may end at any moment. Nor is what a
child process does, except that it prints, exits and closes its streams when it likes.
-/

namespace LocalMeetingStt
namespace Jobs

open LittleEndian Wav

/-! ## One job's threads -/

/-- What `child.wait()` answers: the exit code, if the system reports one. -/
abbrev ExitStatus := Except Text (Option Int)

/-- The code, where there is one. -/
def ExitStatus.code : ExitStatus → Option Int
  | .ok code => code
  | .error _ => none

/-- The line the page is shown. -/
def ExitStatus.text : ExitStatus → Text
  | .ok (some code) => "Exited with code ".toList ++ (toString code).toList
  | .ok none => "Exited with code null".toList
  | .error error => "Exited: ".toList ++ error

/-- One child of a job, with what its readers have gathered. -/
structure Attempt where
  offline : Bool
  pid : Nat
  status : Option ExitStatus
  outOpen : Bool
  errOpen : Bool
  reading : Reading
deriving DecidableEq

/-- A child that has just been started, its two pipes open. -/
def Attempt.start (offline : Bool) (pid : Nat) (loopback : Bool) : Attempt :=
  { offline, pid, status := none, outOpen := true, errOpen := true, reading := .new loopback }

/-- The child has exited and both readers have been joined. -/
def Attempt.drained (a : Attempt) : Bool := a.status.isSome && !a.outOpen && !a.errOpen

/-- The test of the waiter before it retries: the attempt failed, and because uv was
    kept offline. -/
def Attempt.failedToResolve (a : Attempt) : Bool :=
  decide (a.status.bind ExitStatus.code ≠ some 0) && failedOffline a.reading.stderrTail

/-- Where the threads of a job stand. -/
inductive Phase where
  /-- `run` has dropped the lock. -/
  | spawned
  /-- The `start` event is out. -/
  | started
  /-- The readers and the waiter run. -/
  | watching
  /-- The waiter repairs the recordings it was told of. -/
  | reporting (recordings : List Text)
  /-- The job has left `jobs`. -/
  | removed (stopped : Bool)
  | exitLogged (stopped : Bool)
  | reported
deriving DecidableEq, Repr

/-- A job, from `run` to its last event. -/
structure Thread where
  kind : Text
  spec : CommandSpec
  phase : Phase
  /-- The argument of the current `watch`. -/
  retry : Option CommandSpec
  attempt : Attempt
  /-- The attempts before this one. -/
  previous : List Attempt
deriving DecidableEq

namespace Thread

def live (t : Thread) : Bool := startsWith t.kind "live-".toList

/-- The job that `run` has accepted. -/
def new (a : Accepted) : Thread where
  kind := a.kind
  spec := a.spec
  phase := .spawned
  retry := if a.offlineFirst then some a.spec else none
  attempt := .start a.offlineFirst a.pid (isLoopbackStream a.kind)
  previous := []

/-- The command line the page and the log are shown. -/
def command (t : Thread) : Text :=
  (if prefersOffline t.kind then "UV_OFFLINE=1 ".toList else []) ++ displayCommand t.spec

def at_ (t : Thread) (phase : Phase) : Thread := { t with phase }

def withAttempt (t : Thread) (attempt : Attempt) : Thread := { t with attempt }

def withReading (t : Thread) (reading : Reading) : Thread :=
  t.withAttempt { t.attempt with reading }

/-- The spec the waiter reruns online, if it comes to that. -/
def retryWith (t : Thread) : Option CommandSpec :=
  if t.attempt.failedToResolve then t.retry else none

/-- The second `watch`, over a new child. -/
def restarted (t : Thread) (pid : Nat) : Thread :=
  { t with
    retry := none
    attempt := .start false pid (isLoopbackStream t.kind)
    previous := t.previous ++ [t.attempt] }

/-- The job is in `jobs` as long as its waiter has not removed it. -/
def registered (t : Thread) : Bool :=
  match t.phase with
  | .spawned | .started | .watching | .reporting _ => true
  | .removed _ | .exitLogged _ | .reported => false

end Thread

/-! ## Stops, downloads and the close request -/

/-- Who calls `stop_blocking`: a `stop_command` of the page, or the closing thread for
    one of the ids it found. -/
inductive Caller where
  | command (n : Nat)
  | closing (processId : Nat)
deriving DecidableEq, Repr

/-- Where a `stop_blocking` call stands. -/
inductive StopPc where
  | idle
  /-- This call marked the job, and holds the pid and stop file it found. -/
  | marked (processId pid : Nat) (stopFile : Option Text)
  /-- Another call had marked it. -/
  | waitingOther (processId : Nat)
  /-- The stop file is written. -/
  | written (processId pid : Nat)
  | waitingCooperative (processId pid : Nat)
  /-- Before the test whether the job still runs. -/
  | checking (processId pid : Nat)
  /-- It does. -/
  | forcing (processId pid : Nat)
  /-- Inside `kill_tree`. -/
  | killing (processId pid : Nat)
  | killFailed (processId pid : Nat) (error : Text)
  /-- The job still runs after a failed `kill_tree`. -/
  | unmarking (processId pid : Nat) (error : Text)
  | returned (processId : Nat) (result : Except Text Bool)
deriving DecidableEq

/-- A download, from its start until it is waited for. -/
structure Download where
  assetId : Text
  pid : Nat
  ended : Bool
  /-- `kill_tree` was called on it. -/
  attempted : Bool
deriving DecidableEq, Repr

/-- Where a `stop_download` call stands. -/
inductive DownloadStopPc where
  | idle
  /-- Inside `kill_tree`. -/
  | killing (assetId : Text) (pid : Nat)
  | returned (assetId : Text) (result : Except Text Bool)
deriving DecidableEq

/-- The thread of a close request, up to `app.exit(0)`. -/
inductive ClosePc where
  | open_
  | begun
  /-- `stop_all_blocking` is through the downloads but for these pids. -/
  | killing (pids : List Nat)
  /-- It waits for one `stop_blocking` per id. -/
  | stopping (processIds : List Nat)
  /-- The wait for the waiters, at most five seconds. -/
  | draining
  | exited
deriving DecidableEq, Repr

/-! ## The world -/

/-- Everything that the threads of the app share, and where each of them stands. -/
structure World where
  state : State
  files : Files
  threads : Nat → Option Thread
  stops : Caller → StopPc
  downloads : List Download
  downloadStops : Nat → DownloadStopPc
  quitting : Bool
  close : ClosePc
  /-- Every event sent, in order. -/
  events : List Event
  /-- Every id `run` has answered, in order. -/
  handedOut : List Nat
  /-- The jobs whose stop file was written, or tried to be, or whose pid `kill_tree` was
      called with. -/
  attempted : Finset Nat

namespace World

def start (files : Files) : World where
  state := .new
  files := files
  threads _ := none
  stops _ := .idle
  downloads := []
  downloadStops _ := .idle
  quitting := false
  close := .open_
  events := []
  handedOut := []
  attempted := ∅

/-- Events sent to the page. -/
def emit (w : World) (events : List Event) : World := { w with events := w.events ++ events }

def setThread (w : World) (processId : Nat) (t : Thread) : World :=
  { w with threads := Function.update w.threads processId (some t) }

def setStop (w : World) (c : Caller) (pc : StopPc) : World :=
  { w with stops := Function.update w.stops c pc }

def setDownloadStop (w : World) (n : Nat) (pc : DownloadStopPc) : World :=
  { w with downloadStops := Function.update w.downloadStops n pc }

def setState (w : World) (state : State) : World := { w with state }

def setFiles (w : World) (files : Files) : World := { w with files }

def attempt (w : World) (processId : Nat) : World :=
  { w with attempted := insert processId w.attempted }

@[simp] theorem setStop_self (w : World) (c : Caller) (pc : StopPc) :
    (w.setStop c pc).stops c = pc :=
  Function.update_self ..

/-- The world after the locked section of a `run`. -/
def accept (w : World) (o : RunOutcome) : World :=
  let w := (w.setState o.state).setFiles o.files
  match o.result with
  | .error _ => w
  | .ok a => { w.setThread a.processId (.new a) with handedOut := w.handedOut ++ [a.processId] }

end World

variable [UnicodeTables]

/-- What the threads of job `id`, at `t`, can do next. -/
inductive ThreadStep (paths : AppPaths) (w : World) (id : Nat) (t : Thread) : World → Prop
  | emitStart (at_ : t.phase = .spawned) :
      ThreadStep paths w id t
        ((w.emit [.start id t.kind t.spec.label t.command]).setThread id (t.at_ .started))
  | watch (now : Text) (at_ : t.phase = .started) :
      ThreadStep paths w id t
        ((w.emit [logEvent now id .info ["Started ".toList ++ t.spec.label, t.command]]).setThread
          id (t.at_ .watching))
  | readOut (now : Text) (lines : List Text) (at_ : t.phase = .watching)
      (isOpen : t.attempt.outOpen = true) :
      ThreadStep paths w id t
        ((w.emit (onStdout paths t.live id now lines t.attempt.reading).2).setThread id
          (t.withReading (onStdout paths t.live id now lines t.attempt.reading).1))
  | readErr (now : Text) (lines : List Text) (at_ : t.phase = .watching)
      (isOpen : t.attempt.errOpen = true) :
      ThreadStep paths w id t
        ((w.emit (onStderr id now lines t.attempt.reading).2).setThread id
          (t.withReading (onStderr id now lines t.attempt.reading).1))
  | closeOut (at_ : t.phase = .watching) :
      ThreadStep paths w id t (w.setThread id (t.withAttempt { t.attempt with outOpen := false }))
  | closeErr (at_ : t.phase = .watching) :
      ThreadStep paths w id t (w.setThread id (t.withAttempt { t.attempt with errOpen := false }))
  | exit (status : ExitStatus) (at_ : t.phase = .watching) (running : t.attempt.status = none) :
      ThreadStep paths w id t
        (w.setThread id (t.withAttempt { t.attempt with status := some status }))
  /-- The locked section of `retry_online`, answered with a new child. -/
  | retry (now : Text) (online : CommandSpec) (child : Except Text Nat) (pid : Nat)
      (at_ : t.phase = .watching) (drained : t.attempt.drained = true)
      (failed : t.retryWith = some online)
      (spawned : (retryOnline w.state id now online child).child = some pid) :
      ThreadStep paths w id t
        (((w.setState (retryOnline w.state id now online child).state).emit
          (retryOnline w.state id now online child).events).setThread id (t.restarted pid))
  /-- The same, answered with none: the waiter goes on to report. -/
  | retryRefused (now : Text) (online : CommandSpec) (child : Except Text Nat)
      (at_ : t.phase = .watching) (drained : t.attempt.drained = true)
      (failed : t.retryWith = some online)
      (refused : (retryOnline w.state id now online child).child = none) :
      ThreadStep paths w id t
        (((w.setState (retryOnline w.state id now online child).state).emit
          (retryOnline w.state id now online child).events).setThread id
            (t.at_ (.reporting t.attempt.reading.recordings)))
  | report (at_ : t.phase = .watching) (drained : t.attempt.drained = true)
      (final : t.retryWith = none) :
      ThreadStep paths w id t
        (w.setThread id (t.at_ (.reporting t.attempt.reading.recordings)))
  | repair (now : Text) (path : Text) (rest : List Text)
      (at_ : t.phase = .reporting (path :: rest)) :
      ThreadStep paths w id t
        (((w.setFiles (repairAt w.files path)).emit
          (if repairVerdict w.files path then
            [logEvent now id .stdout ["Repaired WAV header: ".toList ++ path]]
          else [])).setThread id (t.at_ (.reporting rest)))
  /-- The repair stops with an error, whatever it has written by then. -/
  | repairFails (now : Text) (path : Text) (rest : List Text) (error : Text)
      (bytes : Option Bytes) (at_ : t.phase = .reporting (path :: rest)) :
      ThreadStep paths w id t
        (((w.setFiles (Function.update w.files path bytes)).emit
          [logEvent now id .stderr
            ["Could not repair WAV header: ".toList ++ path, error]]).setThread id
              (t.at_ (.reporting rest)))
  | forget (at_ : t.phase = .reporting []) :
      ThreadStep paths w id t
        (((w.setState (Jobs.forget w.state w.files id).1).setFiles
          (Jobs.forget w.state w.files id).2.1).setThread id
            (t.at_ (.removed (Jobs.forget w.state w.files id).2.2)))
  | logExit (now : Text) (stopped : Bool) (status : ExitStatus) (at_ : t.phase = .removed stopped)
      (exited : t.attempt.status = some status) :
      ThreadStep paths w id t
        ((w.emit [logEvent now id .exit [status.text]]).setThread id (t.at_ (.exitLogged stopped)))
  | emitExit (stopped : Bool) (status : ExitStatus) (at_ : t.phase = .exitLogged stopped)
      (exited : t.attempt.status = some status) :
      ThreadStep paths w id t
        ((w.emit [.exit id status.code stopped t.attempt.reading.lastError]).setThread id
          (t.at_ .reported))

/-- The closing thread stops the ids of its snapshot and no others. -/
def Caller.mayStop (w : World) (processId : Nat) : Caller → Prop
  | .command _ => True
  | .closing id => id = processId ∧ ∃ ids, w.close = .stopping ids ∧ id ∈ ids

/-- Where the first locked section of `stop_blocking` leads. -/
def StopPc.entered (processId : Nat) : Option (Nat × Option Text × Bool) → StopPc
  | none => .returned processId (.ok false)
  | some (pid, stopFile, true) => .marked processId pid stopFile
  | some (_, _, false) => .waitingOther processId

/-- The log line of a stop that waits for the script. -/
def stoppingText : Text := "Stopping: closing recording and releasing model...".toList

/-- The log line of a stop that does not. -/
def forcedText : Text :=
  "Stopping process tree (forced); unfinished transcription may be lost.".toList

/-- What a stop writes for the script to find. -/
def stopFileText : Bytes := tag "stop\n"

/-- What the `stop_blocking` call of `c` can do next. -/
inductive StopStep (w : World) (c : Caller) : World → Prop
  | enter (id : Nat) (at_ : w.stops c = .idle) (may : c.mayStop w id) :
      StopStep w c
        ((w.setState (enterStop w.state id).1).setStop c (.entered id (enterStop w.state id).2))
  /-- The job has gone, or fifteen seconds have. -/
  | waited (id : Nat) (at_ : w.stops c = .waitingOther id) :
      StopStep w c (w.setStop c (.returned id (.ok true)))
  | write (id pid : Nat) (path : Text) (at_ : w.stops c = .marked id pid (some path)) :
      StopStep w c
        (((w.setFiles (Function.update w.files path (some stopFileText))).attempt id).setStop c
          (.written id pid))
  /-- `fs::write` fails and `?` returns. -/
  | writeFails (id pid : Nat) (path error : Text)
      (at_ : w.stops c = .marked id pid (some path)) :
      StopStep w c ((w.attempt id).setStop c (.returned id (.error error)))
  | noStopFile (id pid : Nat) (at_ : w.stops c = .marked id pid none) :
      StopStep w c (w.setStop c (.checking id pid))
  | logStopping (now : Text) (id pid : Nat) (at_ : w.stops c = .written id pid) :
      StopStep w c
        ((w.emit [logEvent now id .info [stoppingText]]).setStop c (.waitingCooperative id pid))
  /-- The job has gone, or ten seconds have. -/
  | waitedCooperative (id pid : Nat) (at_ : w.stops c = .waitingCooperative id pid) :
      StopStep w c (w.setStop c (.checking id pid))
  | gone (id pid : Nat) (at_ : w.stops c = .checking id pid)
      (left : w.state.isRunning id = false) :
      StopStep w c (w.setStop c (.returned id (.ok true)))
  | force (id pid : Nat) (at_ : w.stops c = .checking id pid)
      (running : w.state.isRunning id = true) :
      StopStep w c (w.setStop c (.forcing id pid))
  | logForced (now : Text) (id pid : Nat) (at_ : w.stops c = .forcing id pid) :
      StopStep w c ((w.emit [logEvent now id .info [forcedText]]).setStop c (.killing id pid))
  | killed (id pid : Nat) (at_ : w.stops c = .killing id pid) :
      StopStep w c ((w.attempt id).setStop c (.returned id (.ok true)))
  | killFails (id pid : Nat) (error : Text) (at_ : w.stops c = .killing id pid) :
      StopStep w c ((w.attempt id).setStop c (.killFailed id pid error))
  | goneAfter (id pid : Nat) (error : Text) (at_ : w.stops c = .killFailed id pid error)
      (left : w.state.isRunning id = false) :
      StopStep w c (w.setStop c (.returned id (.ok true)))
  | stillRunning (id pid : Nat) (error : Text) (at_ : w.stops c = .killFailed id pid error)
      (running : w.state.isRunning id = true) :
      StopStep w c (w.setStop c (.unmarking id pid error))
  | unmark (id pid : Nat) (error : Text) (at_ : w.stops c = .unmarking id pid error) :
      StopStep w c
        ((w.setState (Jobs.unmark w.state id)).setStop c (.returned id (.error error)))

/-- `kill_tree` on a pid, as far as the downloads are concerned. -/
def killDownloads (pid : Nat) (downloads : List Download) : List Download :=
  downloads.map fun d => if d.pid = pid then { d with attempted := true } else d

/-- What the download commands and the threads they start can do. -/
inductive DownloadStep (w : World) : World → Prop
  | refuse (assetId executable : Text) (child : Except Text Nat)
      (refused : (startDownload w.state assetId executable child).2 ≠ .ok true) :
      DownloadStep w (w.setState (startDownload w.state assetId executable child).1)
  | accept (assetId executable : Text) (pid : Nat)
      (accepted : (startDownload w.state assetId executable (.ok pid)).2 = .ok true) :
      DownloadStep w
        { w.setState (startDownload w.state assetId executable (.ok pid)).1 with
          downloads := w.downloads ++ [⟨assetId, pid, false, false⟩] }
  | log (now : Text) (stream : Stream) (lines : List Text) (d : Download) (found : d ∈ w.downloads)
      (running : d.ended = false) :
      DownloadStep w (w.emit [logEvent now 0 stream lines])
  | finish (i : Nat) (d : Download) (found : w.downloads[i]? = some d) (running : d.ended = false) :
      DownloadStep w
        { w.setState (endDownload w.state d.assetId) with
          downloads := w.downloads.set i { d with ended := true } }
  | lookAbsent (n : Nat) (assetId : Text) (at_ : w.downloadStops n = .idle)
      (absent : w.state.downloads.lookup assetId = none) :
      DownloadStep w (w.setDownloadStop n (.returned assetId (.ok false)))
  | look (n : Nat) (assetId : Text) (pid : Nat) (at_ : w.downloadStops n = .idle)
      (found : w.state.downloads.lookup assetId = some pid) :
      DownloadStep w (w.setDownloadStop n (.killing assetId pid))
  | kill (n : Nat) (assetId : Text) (pid : Nat) (result : Except Text Bool)
      (at_ : w.downloadStops n = .killing assetId pid) (answer : result ≠ .ok false) :
      DownloadStep w
        { w.setDownloadStop n (.returned assetId result) with
          downloads := killDownloads pid w.downloads }

/-- What a close request and its thread can do. -/
inductive CloseStep (w : World) : World → Prop
  /-- Nothing runs: the window closes and the app with it. -/
  | idle (quiet : w.state.busy = false) : CloseStep w { w with close := .exited }
  | request (busy : w.state.busy = true) (first : w.quitting = false) :
      CloseStep w { w with quitting := true, close := .begun }
  | snapshotDownloads (pids : List Nat) (at_ : w.close = .begun)
      (snapshot : pids.Perm (w.state.downloads.entries.map fun e => e.2)) :
      CloseStep w { w with close := .killing pids }
  | kill (pid : Nat) (pids : List Nat) (at_ : w.close = .killing (pid :: pids)) :
      CloseStep w
        { w with close := .killing pids, downloads := killDownloads pid w.downloads }
  | snapshotJobs (ids : List Nat) (at_ : w.close = .killing [])
      (snapshot : ids.Perm w.state.jobs.keys) :
      CloseStep w { w with close := .stopping ids }
  | joined (ids : List Nat) (at_ : w.close = .stopping ids)
      (returned : ∀ id ∈ ids, ∃ result, w.stops (.closing id) = .returned id result) :
      CloseStep w { w with close := .draining }
  /-- Nothing runs any more, or five seconds have passed. -/
  | exit (at_ : w.close = .draining) : CloseStep w { w with close := .exited }

/-- One step of any thread, or of the programs that share the file system. -/
inductive Step (paths : AppPaths) (w : World) : World → Prop
  | run (r : RunRequest) : Step paths w (w.accept (runLocked paths w.state w.files r))
  | thread (id : Nat) (t : Thread) {w' : World} (found : w.threads id = some t)
      (step : ThreadStep paths w id t w') : Step paths w w'
  | stop (c : Caller) {w' : World} (step : StopStep w c w') : Step paths w w'
  | download {w' : World} (step : DownloadStep w w') : Step paths w w'
  | close {w' : World} (step : CloseStep w w') : Step paths w w'
  | others (files : Files) : Step paths w (w.setFiles files)

/-- The app, from its start to its exit. -/
def app (paths : AppPaths) : Transition.System World where
  init w := ∃ files, w = World.start files
  next w w' := w.close ≠ .exited ∧ Step paths w w'

/-! ## One capture job

A concrete start of a run, for the theorems that need a state to speak of. -/

/-- A machine on which the app is process 7. -/
def somePaths : AppPaths := ⟨id, id, 7⟩

/-- Recording until Enter is pressed. -/
def recordRequest : RunRequest where
  kind := "record-enter".toList
  audioPath := none
  spec := .ok ⟨"Record".toList, "uv".toList, []⟩
  createDir := .ok ()
  child := .ok 4242

/-- The app has just accepted a recording, as job 1. -/
def recordingWorld : World :=
  (World.start fun _ => none).accept
    (runLocked somePaths (World.start fun _ => none).state (fun _ => none) recordRequest)

theorem recordingWorld_reachable : (app somePaths).Reachable recordingWorld :=
  .next (.start ⟨_, rfl⟩) ⟨by decide, .run recordRequest⟩

end Jobs
end LocalMeetingStt
