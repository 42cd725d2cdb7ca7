import LocalMeetingStt.Captions.State

/-!
# Commands, events and the readers (`commands.rs`, `jobs.rs`)

What the job runner knows about a kind of job, what it sends the page, and what its
two reader threads do with one read of a stream. None of this is concurrent: a reader
call is a function of the reader's own data, and the transition system of `World`
calls it as one step.
-/

namespace LocalMeetingStt
namespace Jobs

/-! ## Kinds of job (`commands.rs`) -/

structure CommandSpec where
  label : Text
  executable : Text
  args : List Text
deriving DecidableEq, Repr

def startsWith (t pre : Text) : Bool := decide (pre <+: t)

/-- File transcription jobs read an existing audio file. -/
def readsInputAudio (kind : Text) : Bool :=
  (["cpp-gpu", "cpp-turbo-gpu", "sensevoice-cpu", "sensevoice-gpu", "cpp-cpu", "cpp-vulkan",
    "cpp-npu", "cpp-openvino-gpu", "qwen-gpu", "qwen-cpu", "qwen17-gpu",
    "qwen17-cpu"].map String.toList).contains kind

def isLoopbackStream (kind : Text) : Bool := startsWith kind "live-cpp-stream-loopback".toList

/-- Python capture jobs stop on the stop file; everything else is terminated. -/
def isCooperative (kind : Text) : Bool :=
  (startsWith kind "live-".toList && !isLoopbackStream kind) || startsWith kind "record-".toList

/-- Jobs whose cached uv environment is tried first, with `UV_OFFLINE=1`. -/
def prefersOffline (kind : Text) : Bool :=
  startsWith kind "qwen".toList || contains kind "sensevoice".toList ||
    startsWith kind "cpp-".toList

/-- Whether uv itself failed because `--offline` kept it from resolving. -/
def failedOffline (stderr : Text) : Bool :=
  contains stderr "because the network was disabled".toList ||
    contains stderr "uv is set to offline mode".toList

def displayCommand (spec : CommandSpec) : Text :=
  let quote (part : Text) : Text := if part.contains ' ' then '"' :: part ++ ['"'] else part
  [' '].intercalate ((spec.executable :: spec.args).map quote)

/-! ## Events -/

/-- The streams of a `log` event. -/
inductive Stream where
  | info
  | stdout
  | stderr
  | exit
deriving DecidableEq, Repr

/-- The `process-event` payloads. -/
inductive Event where
  | start (processId : Nat) (kind label command : Text)
  | log (processId : Nat) (stream : Stream) (lines : List Text)
  | captions (processId : Nat) (update : Update)
  | audioPath (processId : Nat) (path : Text)
  | transcriptPath (processId : Nat) (path : Text)
  | exit (processId : Nat) (code : Option Int) (stopped : Bool) (lastError : Text)
deriving DecidableEq, Repr

section

variable [UnicodeTables]

def stampLogLine (line now : Text) : Text :=
  if (stampPrefix line).isSome then line else '[' :: now ++ "] ".toList ++ line

/-- `Self::log`. -/
def logEvent (now : Text) (processId : Nat) (stream : Stream) (lines : List Text) : Event :=
  .log processId stream (lines.map fun line => stampLogLine (line.rdropWhile isWhitespace) now)

/-! ## Paths a capture job announces -/

/-- Where the app runs: how a path is resolved against the repository root and joined
    to the runtime folder. -/
structure AppPaths where
  inRepoRoot : Text → Text
  inRuntimeDir : Text → Text
  /-- `std::process::id()` -/
  appPid : Nat

/-- `(?i)^LABEL\s*(.+\.wav)\s*$` on a trimmed line: the captured path, trimmed. A name
    that is only the extension needs a character of the whitespace before it. -/
def wavPathAfter (label line : Text) : Option Text :=
  if prefixFolded label line then
    let rest := (line.drop label.length).rdropWhile isWhitespace
    let name := rest.dropWhile isWhitespace
    if prefixFolded ".wav".toList.reverse name.reverse && !name.contains '\n' then
      if 4 < name.length then some name
      else
        match (rest.takeWhile isWhitespace).getLast? with
        | some c => if c == '\n' then none else some name
        | none => none
    else none
  else none

def recordingPath (paths : AppPaths) (line : Text) : Option Text :=
  (wavPathAfter "Recording:".toList line).map paths.inRepoRoot

/-- The WAV a capture job announces it is writing. -/
def savedAudioPath (paths : AppPaths) (line : Text) : Option Text :=
  ((wavPathAfter "Recording:".toList line).or (wavPathAfter "Writing:".toList line)).map
    paths.inRepoRoot

/-! ## The stdout reader -/

/-- What the two readers of one attempt share with its waiter. -/
structure Reading where
  captions : Captions
  recordings : List Text
  lastError : Text
  stderrTail : Text
deriving DecidableEq, Repr

def Reading.new (loopback : Bool) : Reading := ⟨.new loopback, [], [], []⟩

/-- One line of stdout: the reading after it, the events emitted at once, and the lines
    the log gets. -/
def onStdoutLine (paths : AppPaths) (live : Bool) (processId : Nat) (now line : Text)
    (r : Reading) : Reading × List Event × List Text :=
  let r := match recordingPath paths (trim line) with
    | some path => { r with recordings := r.recordings ++ [path] }
    | none => r
  let audio := ((savedAudioPath paths (trim line)).map fun path =>
    Event.audioPath processId path).toList
  if !live then (r, audio, [line])
  else
    let (captions, handled) := r.captions.ingestLine line now
    let r := { r with captions }
    match handled with
    | .caption => (r, audio, [])
    | .captionLogged text => (r, audio, [text])
    | .transcriptPath path => (r, audio ++ [.transcriptPath processId path], [line])
    | .log => (r, audio, [line])

/-- The lines of one read, in order. -/
def onStdoutLines (paths : AppPaths) (live : Bool) (processId : Nat) (now : Text) :
    List Text → Reading → Reading × List Event × List Text
  | [], r => (r, [], [])
  | line :: lines, r =>
    let (r, events, log) := onStdoutLine paths live processId now line r
    let (r, events', log') := onStdoutLines paths live processId now lines r
    (r, events ++ events', log ++ log')

/-- One read of stdout: the lines, then the caption update they add up to, then the log. -/
def onStdout (paths : AppPaths) (live : Bool) (processId : Nat) (now : Text)
    (lines : List Text) (r : Reading) : Reading × List Event :=
  let (r, events, log) := onStdoutLines paths live processId now lines r
  let (captions, update) := r.captions.takeUpdate
  let r := { r with captions }
  let updates := (update.map fun u => Event.captions processId u).toList
  let logged := if log.isEmpty then [] else [logEvent now processId .stdout log]
  (r, events ++ updates ++ logged)

end

/-! ## The stderr reader -/

/-- `LAST_ERROR_CHARS` -/
def lastErrorChars : Nat := 1200
/-- `STDERR_TAIL_BYTES` -/
def stderrTailBytes : Nat := 8192

/-- The bytes of a text in UTF-8. -/
def utf8Length : Text → Nat
  | [] => 0
  | c :: t => c.utf8Size + utf8Length t

/-- `drain(..cut)` with `cut` moved up to a character boundary. -/
def dropBytes : Nat → Text → Text
  | _, [] => []
  | cut, c :: t => if cut = 0 then c :: t else dropBytes (cut - c.utf8Size) t

def pushStderrTail (tail joined : Text) : Text :=
  let all := tail ++ joined ++ ['\n']
  dropBytes (utf8Length all - stderrTailBytes) all

/-- One read of stderr. -/
def onStderr [UnicodeTables] (processId : Nat) (now : Text) (lines : List Text) (r : Reading) :
    Reading × List Event :=
  let joined := ['\n'].intercalate lines
  let trimmed := trim joined
  ({ r with
    lastError := trimmed.drop (trimmed.length - lastErrorChars)
    stderrTail := pushStderrTail r.stderrTail joined },
    [logEvent now processId .stderr lines])

end Jobs
end LocalMeetingStt
