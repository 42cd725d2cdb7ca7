import LocalMeetingStt.Launch.Commands
import LocalMeetingStt.Lib.Argparse

/-!
# The scripts at the other end (`parse_args` of each, the `.cmd` launchers)

The options of the Python scripts that the jobs run, as their `parse_args` declare them, and
the way from a `CommandSpec` to a script and its arguments: through a launcher, which puts
its own options in front, or through `uv run` alone.

What `cmd.exe` makes of a command line on its way to the `%*` of a launcher, and which of its
words `uv` takes for its own, is not in the repository (`HandOver`). Rust puts no quotes around
a word for `&`, `^` or `%`, so `cmd.exe` reads these for itself: a folder called `R&D` is cut
in two. What is relied on is that it hands on words without them (`PassesWords`), and that
`uv run` takes off the options it documents (`TakesOptions`).
-/

namespace LocalMeetingStt
namespace Launch

open Argparse WinPath
open Jobs (CommandSpec)

/-! ## Options -/

/-- The attributes of the namespaces. -/
inductive Dest where
  | help | audio | output | outputDir | duration | untilEnter | listDevices | saveRecording
  | recordingOutput | recordingDir | sessionPrefix | engine | model | sensevoiceModel | provider
  | threads | language | chineseScript | device | computeType | chunkSeconds | streaming
  | previewSeconds | firstPreviewSeconds | captureBlockSeconds | maxBacklog | sampleRate
  | captureRate | includeMic | systemDevice | micDevice | showAudioWarnings | gain | whisperCli
  | whisperServer | server | serverHost | serverPort | serverTimeout | silenceRms | noGpu
  | openvinoDevice | beamSize | bestOf | noFallback | maxSegmentSeconds | maxNewTokens
  | batchSize | context
deriving DecidableEq, Repr

/-- A `Path` is kept as the text it was made from. -/
inductive Value (F : Type) where
  | none
  | flag (b : Bool)
  | text (t : Text)
  | int (n : Int)
  | float (x : F)

section

variable {F : Type} [Doubles F]

/-- An option of a script. -/
abbrev ScriptOpt (F : Type) := Opt Dest (Value F)

/-- `str`, and `Path` too. -/
def toText (word : Word) : Option (Value F) := some (.text word)

/-- `type=int` -/
def toInt (word : Word) : Option (Value F) := (Doubles.int F word).map .int

/-- `type=float` -/
def toFloat (word : Word) : Option (Value F) := (Doubles.float word).map .float

/-- `choices` -/
def oneOf (choices : List String) (word : Word) : Option (Value F) :=
  if (choices.map String.toList).contains word then some (.text word) else none

/-- An option that stores its word. -/
def opt (flags : List String) (dest : Dest) (convert : Word → Option (Value F)) : ScriptOpt F :=
  ⟨flags.map String.toList, dest, .store convert⟩

/-- `action="store_true"` -/
def storeTrue (flag : String) (dest : Dest) : ScriptOpt F :=
  ⟨[flag.toList], dest, .const (.flag true)⟩

/-- `-h`, which every parser has. -/
def helpOpt : ScriptOpt F := ⟨["-h".toList, "--help".toList], .help, .help⟩

/-- `SCRIPTS` of `text_script.py` -/
def scripts : List String := ["as-is", "traditional", "simplified"]

/-- `LANGUAGES` of `post_transcribe_sensevoice.py` -/
def sensevoiceLanguages : List String := ["auto", "zh", "yue", "en", "ja"]

def path (t : String) : Value F := .text t.toList

/-- `parse_args` of `record_audio.py` -/
def recordAudio : Parser Dest (Value F) where
  options := [
    helpOpt,
    opt ["--duration"] .duration toFloat,
    storeTrue "--until-enter" .untilEnter,
    opt ["--output"] .output toText,
    opt ["--output-dir"] .outputDir toText,
    opt ["--sample-rate"] .sampleRate toInt,
    opt ["--capture-rate"] .captureRate toInt,
    opt ["--chunk-seconds"] .chunkSeconds toFloat,
    storeTrue "--include-mic" .includeMic,
    opt ["--system-device"] .systemDevice toText,
    opt ["--mic-device"] .micDevice toText,
    storeTrue "--list-devices" .listDevices]
  positionals := []
  required := []
  defaults
    | .duration => .float (Doubles.literal 3600)
    | .outputDir => path "recordings"
    | .sampleRate => .int 16000
    | .captureRate => .int 48000
    | .chunkSeconds => .float (Doubles.literal 1)
    | .untilEnter | .includeMic | .listDevices => .flag false
    | _ => .none
  digit := Doubles.isDecimal F

/-- `parse_args` of `live_transcribe.py` -/
def liveTranscribe : Parser Dest (Value F) where
  options := [
    helpOpt,
    opt ["--output"] .output toText,
    storeTrue "--save-recording" .saveRecording,
    opt ["--recording-output"] .recordingOutput toText,
    opt ["--recording-dir"] .recordingDir toText,
    opt ["--engine"] .engine (oneOf ["faster-whisper", "sensevoice"]),
    opt ["--model"] .model toText,
    opt ["--sensevoice-model"] .sensevoiceModel toText,
    opt ["--provider"] .provider (oneOf ["cpu", "cuda"]),
    opt ["--threads"] .threads toInt,
    opt ["--language"] .language toText,
    opt ["--chinese-script"] .chineseScript (oneOf scripts),
    opt ["--session-prefix"] .sessionPrefix toText,
    opt ["--device"] .device toText,
    opt ["--compute-type"] .computeType toText,
    opt ["--chunk-seconds"] .chunkSeconds toFloat,
    storeTrue "--streaming" .streaming,
    opt ["--preview-seconds"] .previewSeconds toFloat,
    opt ["--first-preview-seconds"] .firstPreviewSeconds toFloat,
    opt ["--capture-block-seconds"] .captureBlockSeconds toFloat,
    opt ["--max-backlog"] .maxBacklog toInt,
    opt ["--sample-rate"] .sampleRate toInt,
    opt ["--capture-rate"] .captureRate toInt,
    storeTrue "--include-mic" .includeMic,
    opt ["--system-device"] .systemDevice toText,
    opt ["--mic-device"] .micDevice toText,
    storeTrue "--show-audio-warnings" .showAudioWarnings]
  positionals := []
  required := []
  defaults
    | .recordingDir => path "recordings"
    | .engine => path "faster-whisper"
    | .model => path "small"
    | .sensevoiceModel => path "models\\SenseVoiceSmall"
    | .provider | .device => path "cpu"
    | .threads => .int 4
    | .language => path "ja"
    | .chineseScript => path "as-is"
    | .sessionPrefix => path "live_meeting"
    | .computeType => path "int8"
    | .chunkSeconds => .float (Doubles.literal 3)
    | .previewSeconds => .float (Doubles.literal 1)
    | .firstPreviewSeconds => .float (Doubles.literal (6 / 10))
    | .captureBlockSeconds => .float (Doubles.literal (1 / 10))
    | .maxBacklog => .int 1
    | .sampleRate => .int 16000
    | .captureRate => .int 48000
    | .saveRecording | .streaming | .includeMic | .showAudioWarnings => .flag false
    | _ => .none
  digit := Doubles.isDecimal F

/-- `parse_args` of `live_cpp.py` -/
def liveCpp : Parser Dest (Value F) where
  options := [
    helpOpt,
    opt ["--output"] .output toText,
    storeTrue "--save-recording" .saveRecording,
    opt ["--recording-output"] .recordingOutput toText,
    opt ["--recording-dir"] .recordingDir toText,
    opt ["--session-prefix"] .sessionPrefix toText,
    opt ["--model"] .model toText,
    opt ["--language"] .language toText,
    opt ["--chinese-script"] .chineseScript (oneOf scripts),
    opt ["--chunk-seconds"] .chunkSeconds toFloat,
    storeTrue "--streaming" .streaming,
    opt ["--preview-seconds"] .previewSeconds toFloat,
    opt ["--first-preview-seconds"] .firstPreviewSeconds toFloat,
    opt ["--capture-block-seconds"] .captureBlockSeconds toFloat,
    opt ["--max-backlog"] .maxBacklog toInt,
    opt ["--sample-rate"] .sampleRate toInt,
    opt ["--capture-rate"] .captureRate toInt,
    storeTrue "--include-mic" .includeMic,
    opt ["--system-device"] .systemDevice toText,
    opt ["--mic-device"] .micDevice toText,
    opt ["--gain"] .gain toFloat,
    opt ["--whisper-cli"] .whisperCli toText,
    opt ["--whisper-server"] .whisperServer toText,
    storeTrue "--server" .server,
    opt ["--server-host"] .serverHost toText,
    opt ["--server-port"] .serverPort toInt,
    opt ["--server-timeout"] .serverTimeout toFloat,
    opt ["--silence-rms"] .silenceRms toFloat,
    storeTrue "--no-gpu" .noGpu,
    opt ["--threads"] .threads toInt,
    opt ["--openvino-device"] .openvinoDevice toText,
    opt ["--beam-size"] .beamSize toInt,
    opt ["--best-of"] .bestOf toInt,
    storeTrue "--no-fallback" .noFallback,
    storeTrue "--show-audio-warnings" .showAudioWarnings]
  positionals := []
  required := []
  defaults
    | .recordingDir => path "output"
    | .sessionPrefix => path "cpp_live"
    | .model => path "models\\ggml-small.bin"
    | .language => path "ja"
    | .chineseScript => path "as-is"
    | .chunkSeconds => .float (Doubles.literal 3)
    | .previewSeconds | .gain => .float (Doubles.literal 1)
    | .firstPreviewSeconds => .float (Doubles.literal (8 / 10))
    | .captureBlockSeconds => .float (Doubles.literal (1 / 10))
    | .maxBacklog => .int 1
    | .sampleRate => .int 16000
    | .captureRate => .int 48000
    | .serverHost => path "127.0.0.1"
    | .serverTimeout => .float (Doubles.literal 60)
    | .silenceRms => .float (Doubles.literal (3 / 1000))
    | .saveRecording | .streaming | .includeMic | .server | .noGpu | .noFallback
    | .showAudioWarnings => .flag false
    | _ => .none
  digit := Doubles.isDecimal F

/-- `parse_args` of `post_transcribe_sensevoice.py` -/
def postTranscribeSensevoice : Parser Dest (Value F) where
  options := [
    helpOpt,
    opt ["-o", "--output"] .output toText,
    opt ["--model"] .model toText,
    opt ["--provider"] .provider (oneOf ["cpu", "cuda"]),
    opt ["--threads"] .threads toInt,
    opt ["--language"] .language (oneOf sensevoiceLanguages),
    opt ["--chinese-script"] .chineseScript (oneOf scripts),
    opt ["--max-segment-seconds"] .maxSegmentSeconds toFloat]
  positionals := [(.audio, toText)]
  required := [.output]
  defaults
    | .model => path "models\\SenseVoiceSmall"
    | .provider => path "cpu"
    | .threads => .int 4
    | .language => path "auto"
    | .chineseScript => path "as-is"
    | .maxSegmentSeconds => .float (Doubles.literal 25)
    | _ => .none
  digit := Doubles.isDecimal F

/-- `parse_args` of `post_transcribe_qwen.py` -/
def postTranscribeQwen : Parser Dest (Value F) where
  options := [
    helpOpt,
    opt ["-o", "--output"] .output toText,
    opt ["--model"] .model toText,
    opt ["--language"] .language toText,
    opt ["--device"] .device toText,
    opt ["--max-new-tokens"] .maxNewTokens toInt,
    opt ["--chunk-seconds"] .chunkSeconds toFloat,
    opt ["--batch-size"] .batchSize toInt,
    opt ["--chinese-script"] .chineseScript (oneOf scripts),
    opt ["--context"] .context toText]
  positionals := [(.audio, toText)]
  required := []
  defaults
    | .language => path "Japanese"
    | .device => path "auto"
    | .maxNewTokens => .int 4096
    | .chunkSeconds => .float (Doubles.literal 60)
    | .batchSize => .int 16
    | .chineseScript => path "as-is"
    | .context => path ""
    | _ => .none
  digit := Doubles.isDecimal F

/-- The options of `post_whisper_cpp.py`, which stand before its `--`. -/
def postWhisperCpp : Parser Dest (Value F) where
  options := [
    helpOpt,
    opt ["--chinese-script"] .chineseScript (oneOf scripts),
    opt ["--language"] .language toText]
  positionals := []
  required := []
  defaults
    | .chineseScript => path "as-is"
    | .language => path "auto"
    | _ => .none
  digit := Doubles.isDecimal F

/-! ## From a command to a script -/

/-- The Python scripts that the jobs run. -/
inductive Script where
  | recordAudio
  | liveTranscribe
  | liveCpp
  | postTranscribeSensevoice
  | postTranscribeQwen
  | postWhisperCpp
deriving DecidableEq, Repr

variable (F) in
/-- How each reads its command line. -/
def Script.parser : Script → Parser Dest (Value F)
  | .recordAudio => Launch.recordAudio
  | .liveTranscribe => Launch.liveTranscribe
  | .liveCpp => Launch.liveCpp
  | .postTranscribeSensevoice => Launch.postTranscribeSensevoice
  | .postTranscribeQwen => Launch.postTranscribeQwen
  | .postWhisperCpp => Launch.postWhisperCpp

end

/-! ### What is handed over -/

/-- The options of `uv run` that take a value, of those that are used here. -/
def uvValued : List Text :=
  ["--python", "--index-strategy", "--index-url", "--extra-index-url", "--find-links",
    "--with-requirements", "--with"].map String.toList

/-- Options of `uv run`, and no command yet. -/
def uvOptions : List Text → Bool
  | [] => true
  | [flag] => decide (flag = "--no-project".toList)
  | flag :: value :: words =>
    if flag = "--no-project".toList then uvOptions (value :: words)
    else uvValued.contains flag && uvOptions words

/-- A word in which `cmd.exe` reads nothing for itself. -/
def cmdPlain (word : Text) : Bool :=
  word.all fun c => !("&|<>^%\"\r\n".toList.contains c)

/-- The programs between the shell and a script. -/
structure HandOver where
  /-- `%*` in a launcher, from the words behind its name on the command line of `cmd.exe /c`. -/
  rest : List Text → List Text
  /-- The command among the words behind `uv run`. -/
  uvRun : List Text → List Text

/-- `cmd.exe` hands on the words in which it reads nothing for itself. -/
def HandOver.PassesWords (h : HandOver) : Prop :=
  ∀ words, words.all cmdPlain = true → h.rest words = words

/-- `uv run` takes its options off, and runs the rest. -/
def HandOver.TakesOptions (h : HandOver) : Prop :=
  ∀ options command, uvOptions options = true →
    h.uvRun (options ++ "python".toList :: command) = "python".toList :: command

/-! ### The launchers -/

/-- A launcher's last line: `uv run`, these options, `python`, these words and `%*`. -/
structure Launcher where
  options : List Text
  python : List Text

/-- `--with` for each of the packages. -/
def withPackages (packages : List String) : List Text :=
  packages.flatMap fun package => ["--with".toList, package.toList]

/-- What the scripts on a graphics card need besides. -/
def cudaOptions : List Text :=
  ["--find-links".toList, "https://k2-fsa.github.io/sherpa/onnx/cuda.html".toList] ++
    withPackages ["sherpa-onnx==1.13.8+cuda12.cudnn9", "nvidia-cuda-runtime-cu12",
      "nvidia-cublas-cu12", "nvidia-cufft-cu12", "nvidia-curand-cu12", "nvidia-cudnn-cu12",
      "soundcard", "soundfile", "numpy", "soxr", "faster-whisper", "opencc-python-reimplemented"]

/-- What the scripts on the processor need. -/
def cpuOptions : List Text :=
  withPackages ["soundcard", "soundfile", "numpy", "soxr", "faster-whisper",
    "opencc-python-reimplemented", "sherpa-onnx==1.13.8"]

/-- The last line of each launcher. -/
def launchers : List (Text × Launcher) :=
  [("python_backend\\live_sensevoice.cmd".toList, ⟨cpuOptions,
      ["-u", "python_backend\\live_transcribe.py", "--engine", "sensevoice",
        "--streaming"].map String.toList⟩),
    ("python_backend\\live_sensevoice_gpu.cmd".toList, ⟨cudaOptions,
      ["-u", "python_backend\\live_transcribe.py", "--engine", "sensevoice", "--provider", "cuda",
        "--streaming"].map String.toList⟩),
    ("whisper_cpp\\live_cpp.cmd".toList, ⟨withPackages ["soundcard", "soundfile", "numpy", "soxr",
        "requests", "faster-whisper", "opencc-python-reimplemented"],
      ["-u", "live_cpp.py", "--server", "--streaming", "--save-recording", "--beam-size", "1",
        "--best-of", "1"].map String.toList⟩),
    ("python_backend\\record_meeting.cmd".toList,
      ⟨withPackages ["soundcard", "soundfile", "numpy", "soxr"],
        ["python_backend\\record_audio.py"].map String.toList⟩),
    ("python_backend\\post_sensevoice.cmd".toList, ⟨cpuOptions,
      ["-u", "python_backend\\post_transcribe_sensevoice.py"].map String.toList⟩),
    ("python_backend\\post_sensevoice_gpu.cmd".toList, ⟨cudaOptions,
      ["-u", "python_backend\\post_transcribe_sensevoice.py", "--provider", "cuda"].map
        String.toList⟩)]

/-- The script of a name in a launcher, from the folder that it has changed to. -/
def launcherScript (name : Text) : Option Script :=
  List.lookup name
    [("python_backend\\live_transcribe.py".toList, .liveTranscribe),
      ("live_cpp.py".toList, .liveCpp), ("python_backend\\record_audio.py".toList, .recordAudio),
      ("python_backend\\post_transcribe_sensevoice.py".toList, .postTranscribeSensevoice)]

/-- The script at a path, of those that are run through `uv` alone. -/
def scriptAt (paths : AppPaths) (path : Path) : Option Script :=
  if path = joined paths.repoRoot ["python_backend", "post_transcribe_qwen.py"] then
    some .postTranscribeQwen
  else if path = joined paths.repoRoot ["python_backend", "post_whisper_cpp.py"] then
    some .postWhisperCpp
  else none

/-- The script that a command runs, with its arguments. -/
def pythonScript (find : Text → Option Script) : List Text → Option (Script × List Text)
  | [] => none
  | python :: words =>
    if python = "python".toList then
      match if words.head? = some "-u".toList then words.tail else words with
      | [] => none
      | path :: args => (find path).map fun script => (script, args)
    else none

/-- The script a command ends up in, with its arguments. -/
def started (handOver : HandOver) (paths : AppPaths) (spec : CommandSpec) :
    Option (Script × List Text) :=
  if spec.executable = "cmd.exe".toList then
    match spec.args with
    | _ :: path :: args => do
      let launcher ← launchers.lookup path
      pythonScript launcherScript (handOver.uvRun
        (launcher.options ++ "python".toList :: (launcher.python ++ handOver.rest args)))
    | _ => none
  else if spec.executable = "uv".toList then
    pythonScript (scriptAt paths) (handOver.uvRun (spec.args.drop 1))
  else none

/-- What goes through a launcher is plain to `cmd.exe`. -/
def PlainWords (spec : CommandSpec) : Prop :=
  spec.executable = "cmd.exe".toList → (spec.args.drop 2).all cmdPlain = true

section

variable {handOver : HandOver} (paths : AppPaths)

/-- A launcher runs its script, with its own options and then the shell's. -/
theorem started_script (hcmd : handOver.PassesWords) (huv : handOver.TakesOptions)
    {label path : String} {args : List Text} {launcher : Launcher}
    (hlauncher : launchers.lookup path.toList = some launcher)
    (hoptions : uvOptions launcher.options = true)
    (hplain : PlainWords (script label path args)) :
    started handOver paths (script label path args) =
      pythonScript launcherScript ("python".toList :: (launcher.python ++ args)) := by
  have hrest : handOver.rest args = args := hcmd args (hplain rfl)
  have hcommand : handOver.uvRun (launcher.options ++ "python".toList ::
      (launcher.python ++ handOver.rest args)) =
        "python".toList :: (launcher.python ++ args) := by
    rw [hrest]
    exact huv _ _ hoptions
  unfold started script
  rw [if_pos rfl]
  simp only [hlauncher, Option.bind_eq_bind, Option.bind_some, hcommand]

/-- A command that `uv` runs. -/
theorem started_uv (huv : handOver.TakesOptions) {label run : Text} {options command : List Text}
    (hoptions : uvOptions options = true) :
    started handOver paths
        ⟨label, "uv".toList, run :: (options ++ "python".toList :: command)⟩ =
      pythonScript (scriptAt paths) ("python".toList :: command) := by
  have hne : "uv".toList ≠ "cmd.exe".toList := by decide
  unfold started
  rw [if_neg hne, if_pos rfl, List.drop_one, List.tail_cons, huv options command hoptions]

end

end Launch
end LocalMeetingStt
