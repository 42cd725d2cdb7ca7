import Mathlib.Data.List.AList
import Mathlib.Data.Finset.Basic
import LocalMeetingStt.Jobs.Commands
import LocalMeetingStt.Wav.Repair

/-!
# The state behind the lock (`jobs.rs`, `State`)

Every decision `Jobs` takes about a process is taken inside a locked section: accepting
a job, retrying it online, marking it as being stopped, forgetting it. Each section is
a function here, from the state and the answers the operating system gives it to the
state it leaves and what it tells its caller. `World` makes one step of each, which is
what the lock guarantees: between the two ends of a section no other section runs.

What a section does besides, it does to the file system: `run` repairs the file the
user picked and removes a stale stop file, and forgetting a job removes its stop file.
The last theorem of this file is about the first of these.
-/

namespace LocalMeetingStt
namespace Jobs

open LittleEndian Wav

/-- The content of each file that exists. -/
abbrev Files := Text → Option Bytes

/-- `wav::repair_pcm_header` on a path. -/
def repairAt (files : Files) (path : Text) : Files :=
  match files path with
  | some bytes => Function.update files path (some (repairPcmHeader bytes).2)
  | none => files

/-- What the repair of a path answers; a path that is no file needs none. -/
def repairVerdict (files : Files) (path : Text) : Bool :=
  match files path with
  | some bytes => (repairPcmHeader bytes).1
  | none => false

/-- `fs::remove_file`, whose failure is ignored. -/
def removeFile (files : Files) (path : Text) : Files := Function.update files path none

structure Job where
  pid : Nat
  stopFile : Option Text
deriving DecidableEq, Repr

structure State where
  nextId : Nat
  jobs : AList fun _ : Nat => Job
  stopping : Finset Nat
  downloads : AList fun _ : Text => Nat

/-- `Jobs::new` -/
def State.new : State := { nextId := 1, jobs := ∅, stopping := ∅, downloads := ∅ }

def State.busy (s : State) : Bool := !s.jobs.entries.isEmpty || !s.downloads.entries.isEmpty

def State.isRunning (s : State) (processId : Nat) : Bool := (s.jobs.lookup processId).isSome

/-! ## Accepting a job (`Jobs::run` up to `drop(state)`) -/

/-- What a call of `run` is given, and what the build of its command line, the creation
    of the runtime folder and the operating system's spawn answer it. -/
structure RunRequest where
  kind : Text
  /-- `args.get("audioPath").and_then(Value::as_str)` -/
  audioPath : Option Text
  /-- `commands::build` -/
  spec : Except Text CommandSpec
  createDir : Except Text Unit
  /-- `spawn`: the child's pid. -/
  child : Except Text Nat

/-- A job that was accepted. -/
structure Accepted where
  processId : Nat
  pid : Nat
  kind : Text
  spec : CommandSpec
  offlineFirst : Bool

structure RunOutcome where
  state : State
  files : Files
  /-- The process the call spawned, whether it is kept or not. -/
  spawned : Option Nat
  result : Except Text Accepted

def busyError : Text := "已有工作執行中，請先停止目前工作。".toList

/-- The decimal digits of an id in a file name. -/
def digits (n : Nat) : Text := Nat.toDigits 10 n

/-- `stop-{app pid}-{process id}.request` in the runtime folder. -/
def AppPaths.stopFile (paths : AppPaths) (processId : Nat) : Text :=
  paths.inRuntimeDir ("stop-".toList ++ digits paths.appPid ++ '-' :: digits processId ++
    ".request".toList)

/-- The files after `run` has looked at the user's audio file. -/
def repairPicked (files : Files) (r : RunRequest) : Files :=
  if readsInputAudio r.kind then
    match r.audioPath with
    | some audio => repairAt files audio
    | none => files
  else files

def runLocked (paths : AppPaths) (s : State) (files : Files) (r : RunRequest) : RunOutcome :=
  if !s.jobs.entries.isEmpty then ⟨s, files, none, .error busyError⟩
  else
    let files := repairPicked files r
    match r.spec with
    | .error error => ⟨s, files, none, .error error⟩
    | .ok spec =>
      let processId := s.nextId
      let s := { s with nextId := s.nextId + 1 }
      let stopFile := if isCooperative r.kind then some (paths.stopFile processId) else none
      match r.createDir with
      | .error error => ⟨s, files, none, .error error⟩
      | .ok () =>
        let files := match stopFile with
          | some path => removeFile files path
          | none => files
        match r.child with
        | .error error => ⟨s, files, none, .error (spec.executable ++ ": ".toList ++ error)⟩
        | .ok pid =>
          { state := { s with jobs := s.jobs.insert processId { pid, stopFile } }
            files
            spawned := some pid
            result := .ok
              { processId, pid, kind := r.kind, spec, offlineFirst := prefersOffline r.kind } }

/-- **Everything an accepting section can do**: refuse, leaving the jobs, the marks and
    the downloads alone and no process behind; or enter one job under the next id. -/
inductive RunEffect (paths : AppPaths) (s : State) : RunOutcome → Prop
  | refused {state : State} {files : Files} {error : Text} (jobs : state.jobs = s.jobs)
      (stopping : state.stopping = s.stopping) (downloads : state.downloads = s.downloads)
      (ids : s.nextId ≤ state.nextId) :
      RunEffect paths s ⟨state, files, none, .error error⟩
  | accepted {files : Files} {a : Accepted} {stopFile : Option Text} (idle : s.jobs = ∅)
      (id : a.processId = s.nextId) (offline : a.offlineFirst = prefersOffline a.kind) :
      RunEffect paths s
        { state := { s with
            nextId := s.nextId + 1
            jobs := s.jobs.insert s.nextId { pid := a.pid, stopFile } }
          files, spawned := some a.pid, result := .ok a }

theorem entries_isEmpty_iff {jobs : AList fun _ : Nat => Job} :
    jobs.entries.isEmpty = true ↔ jobs = ∅ := by
  rw [List.isEmpty_iff, AList.ext_iff]
  rfl

theorem runLocked_effect (paths : AppPaths) (s : State) (files : Files) (r : RunRequest) :
    RunEffect paths s (runLocked paths s files r) := by
  unfold runLocked
  by_cases hbusy : (!s.jobs.entries.isEmpty) = true
  · rw [if_pos hbusy]
    exact .refused rfl rfl rfl le_rfl
  · rw [if_neg hbusy]
    have hidle : s.jobs = ∅ := by
      rw [← entries_isEmpty_iff]
      simpa using hbusy
    dsimp only
    split
    · exact .refused rfl rfl rfl le_rfl
    · split
      · exact .refused rfl rfl rfl (Nat.le_succ _)
      · split
        · exact .refused rfl rfl rfl (Nat.le_succ _)
        · next pid _ =>
          exact .accepted (a := ⟨s.nextId, pid, r.kind, _, prefersOffline r.kind⟩) hidle rfl rfl

/-! ## Retrying online (`Jobs::retry_online`) -/

structure RetryOutcome where
  state : State
  events : List Event
  /-- The new child. -/
  child : Option Nat

def retryOnline [UnicodeTables] (s : State) (processId : Nat) (now : Text) (online : CommandSpec)
    (child : Except Text Nat) : RetryOutcome :=
  if processId ∈ s.stopping then ⟨s, [], none⟩
  else
    match s.jobs.lookup processId with
    | none => ⟨s, [], none⟩
    | some job =>
      let announced := logEvent now processId .info
        ["Python environment is not cached yet; retrying online to install it.".toList,
          displayCommand online]
      match child with
      | .ok pid =>
        ⟨{ s with jobs := s.jobs.insert processId { job with pid } }, [announced], some pid⟩
      | .error error =>
        ⟨s, [announced, logEvent now processId .stderr
          [online.executable ++ ": ".toList ++ error]], none⟩

/-! ## Stopping and forgetting -/

/-- The locked section that opens `stop_blocking`: the job's pid and stop file, and
    whether this call is the one that marked it. -/
def enterStop (s : State) (processId : Nat) : State × Option (Nat × Option Text × Bool) :=
  match s.jobs.lookup processId with
  | none => (s, none)
  | some job =>
    ({ s with stopping := insert processId s.stopping },
      some (job.pid, job.stopFile, decide (processId ∉ s.stopping)))

/-- `state.stopping.remove(&process_id)` -/
def unmark (s : State) (processId : Nat) : State :=
  { s with stopping := s.stopping.erase processId }

/-- The waiter's last locked section: the job leaves `jobs`, its stop file goes, and the
    answer is whether the job was being stopped. -/
def forget (s : State) (files : Files) (processId : Nat) : State × Files × Bool :=
  let files := match (s.jobs.lookup processId).bind Job.stopFile with
    | some path => removeFile files path
    | none => files
  (unmark { s with jobs := s.jobs.erase processId } processId, files,
    decide (processId ∈ s.stopping))

/-! ## Downloads -/

/-- The locked section of `start_download`. -/
def startDownload (s : State) (assetId executable : Text) (child : Except Text Nat) :
    State × Except Text Bool :=
  if (s.downloads.lookup assetId).isSome then (s, .ok false)
  else
    match child with
    | .error error => (s, .error (executable ++ ": ".toList ++ error))
    | .ok pid => ({ s with downloads := s.downloads.insert assetId pid }, .ok true)

def endDownload (s : State) (assetId : Text) : State :=
  { s with downloads := s.downloads.erase assetId }

/-! ## The file the user picked -/

/-- A job that reads a file has no stop file: it is not a capture job. -/
theorem isCooperative_of_readsInputAudio {kind : Text} (h : readsInputAudio kind = true) :
    isCooperative kind = false := by
  have hall : ∀ kind ∈ ["cpp-gpu", "cpp-turbo-gpu", "sensevoice-cpu", "sensevoice-gpu", "cpp-cpu",
      "cpp-vulkan", "cpp-npu", "cpp-openvino-gpu", "qwen-gpu", "qwen-cpu", "qwen17-gpu",
      "qwen17-cpu"].map String.toList, isCooperative kind = false := by
    decide
  exact hall kind (by simpa [readsInputAudio] using h)

/-- All a transcription job's `run` does to the files is the repair, and only when no
    other job is running. -/
theorem runLocked_files {paths : AppPaths} {s : State} {files : Files} {r : RunRequest}
    {audio : Text} (hkind : readsInputAudio r.kind = true) (haudio : r.audioPath = some audio) :
    (runLocked paths s files r).files =
      if s.jobs = ∅ then repairAt files audio else files := by
  have hpicked : repairPicked files r = repairAt files audio := by
    rw [repairPicked, if_pos hkind, haudio]
  unfold runLocked
  by_cases hbusy : (!s.jobs.entries.isEmpty) = true
  · rw [if_pos hbusy, if_neg fun hidle => by simp [hidle] at hbusy]
  · rw [if_neg hbusy, if_pos (by rw [← entries_isEmpty_iff]; simpa using hbusy), ← hpicked]
    simp only [isCooperative_of_readsInputAudio hkind, Bool.false_eq_true, if_false]
    split
    · rfl
    · split
      · rfl
      · split <;> rfl

/-- **Which valid files keep their bytes.** The repair says `false` and leaves a
    well-formed PCM file alone exactly when it is `Spared`; `run` leaves the file the
    user picked alone exactly when it is `Spared` or another job is running; and of
    the files recorders write, those with a chunk or a pad byte after the data are
    not. -/
theorem valid_wav_kept_iff (paths : AppPaths) (s : State) (files : Files) (r : RunRequest)
    (w : RiffWave) (audio : Text) (hkind : readsInputAudio r.kind = true)
    (haudio : r.audioPath = some audio) (hfile : files audio = some w.encode) :
    (repairPcmHeader w.encode = (false, w.encode) ↔ Spared w.encode) ∧
      ((runLocked paths s files r).files audio = some w.encode ↔
        s.jobs ≠ ∅ ∨ Spared w.encode) ∧
      ∀ data rest, w.Recorded data rest → (Spared w.encode ↔
        u32Max < w.encode.length ∨ (rest = [] ∧ data.data.length % 2 = 0)) := by
  obtain ⟨hverdict, hbytes⟩ := repairPcmHeader_keeps_iff w
  refine ⟨hverdict, ?_, fun data rest h => h.spared_iff⟩
  rw [runLocked_files hkind haudio]
  split_ifs with hidle
  · simp [repairAt, hfile, hidle, hbytes]
  · simp [hfile, hidle]

/-- A valid 16 kHz mono file with one sample and a tag chunk after it, as editors write
    them. -/
def taggedWave : RiffWave where
  chunks :=
    [⟨tag "fmt ", field 2 1 ++ field 2 1 ++ field 4 16000 ++ field 4 32000 ++ field 2 2 ++
        field 2 16, 0, by decide, by decide⟩,
      ⟨tag "data", field 2 7, 0, by decide, by decide⟩,
      ⟨tag "LIST", tag "INFO", 0, by decide, by decide⟩]
  fits := by decide
  pcm := ⟨_, List.mem_cons_self, by decide⟩
  hasData := ⟨_, List.mem_cons_of_mem _ List.mem_cons_self, rfl⟩

/-- Transcribing `audio` on the CPU. -/
def transcribeRequest (audio : Text) : RunRequest where
  kind := "cpp-cpu".toList
  audioPath := some audio
  spec := .ok ⟨"whisper.cpp".toList, "uv".toList, []⟩
  createDir := .ok ()
  child := .ok 4242

theorem valid_wav_kept_iff_tagged :
    (runLocked ⟨id, id, 7⟩ State.new (fun _ => some taggedWave.encode)
      (transcribeRequest "meeting.wav".toList)).files "meeting.wav".toList ≠
        some taggedWave.encode := by
  rw [Ne, (valid_wav_kept_iff ⟨id, id, 7⟩ State.new (fun _ => some taggedWave.encode)
    (transcribeRequest "meeting.wav".toList) taggedWave "meeting.wav".toList
    (by decide) rfl rfl).2.1]
  rintro (hbusy | hspared)
  · exact hbusy rfl
  · exact absurd hspared (by decide)

theorem tagged_wave_rewritten :
    ¬ ∀ w : RiffWave, repairPcmHeader w.encode = (false, w.encode) := by
  intro h
  exact absurd (h taggedWave) (by decide)

end Jobs
end LocalMeetingStt
