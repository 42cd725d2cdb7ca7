import LocalMeetingStt.Jobs.Commands
import LocalMeetingStt.Post.Output
import Mathlib.Data.Rat.Defs

/-!
# What each job runs (`commands.rs`)

`build` turns a kind of job and the arguments the page sends into an executable and its
arguments. A job's arguments are a JSON object; whatever is missing there, or of another
type, has its default here. Numbers are the ones of JSON, with the texts the shell gives
them; how Rust writes a fraction is not spelled out.
-/

namespace LocalMeetingStt
namespace Launch

open WinPath
open Jobs (CommandSpec)

/-! ## Numbers and arguments -/

/-- The numbers of a JSON text, in the shell and in the scripts. -/
class Doubles (F : Type) where
  isFinite : F → Bool
  /-- `value as i64`, where `value.fract() == 0.0`. -/
  whole : F → Option Int
  /-- `f64::to_string` -/
  display : F → Text
  /-- `float(text)`, if it is no `ValueError`. -/
  float : Text → Option F
  /-- `int(text)`, if it is no `ValueError`. -/
  int : Text → Option Int
  /-- A literal of a script. -/
  literal : ℚ → F
  /-- What `\d` matches. -/
  isDecimal : Char → Bool

/-- A JSON value, as far as `build` looks into one. -/
inductive Json (F : Type) where
  | null
  | bool (b : Bool)
  | number (x : F)
  | string (t : Text)
  | composite

/-- The arguments the page sends, by their names. -/
abbrev Args (F : Type) := List (Text × Json F)

section

variable {F : Type} [Doubles F] (args : Args F)

/-- `args.get(key)` -/
def get (key : String) : Option (Json F) := List.lookup key.toList args

/-- A string that is not empty. -/
def text (key : String) : Option Text :=
  match get args key with
  | some (.string value) => if value.isEmpty then none else some value
  | _ => none

/-- A number as a word of a command line: no fraction where there is none. -/
def numberText (value : F) : Text :=
  match Doubles.whole value with
  | some n => (toString n).toList
  | none => Doubles.display value

/-- A finite number, as the word for it. -/
def number (key : String) : Option Text :=
  match get args key with
  | some (.number value) => if Doubles.isFinite value then some (numberText value) else none
  | _ => none

/-- A member that is true or false. -/
def boolean (key : String) : Option Bool :=
  match get args key with
  | some (.bool value) => some value
  | _ => none

/-! ## The parts of a command line -/

/-- `capture_args` -/
def captureArgs : List Text :=
  (match number args "previewSeconds" with
    | some seconds => ["--preview-seconds".toList, seconds]
    | none => []) ++
  (match text args "systemDevice" with
    | some device => ["--system-device".toList, device]
    | none => []) ++
  if boolean args "includeMic" = some true then
    "--include-mic".toList ::
      match text args "micDevice" with
      | some device => ["--mic-device".toList, device]
      | none => []
  else []

/-- Settings saved before languages existed have none, and keep Japanese. -/
def language : Text :=
  match get args "language" with
  | some (.string value) =>
    if value ∈ ["auto", "zh", "yue", "en"].map String.toList then value else "ja".toList
  | _ => "ja".toList

/-- Qwen3-ASR takes language names; an empty one lets it detect the language. -/
def qwenLanguage (language : Text) : Text :=
  if language = "zh".toList then "Chinese".toList
  else if language = "yue".toList then "Cantonese".toList
  else if language = "en".toList then "English".toList
  else if language = "ja".toList then "Japanese".toList
  else []

/-- Traditional (HK) unless Simplified is chosen. -/
def chineseScript : Text :=
  match get args "chineseScript" with
  | some (.string value) =>
    if value = "simplified".toList then "simplified".toList else "traditional".toList
  | _ => "traditional".toList

/-- `recognition_args` -/
def recognitionArgs : List Text :=
  ["--language".toList, language args, "--chinese-script".toList, chineseScript args]

end

/-- `script`: a launcher, run by `cmd.exe`. -/
def script (label path : String) (args : List Text) : CommandSpec where
  label := label.toList
  executable := "cmd.exe".toList
  args := "/c".toList :: path.toList :: args

/-! ## The jobs -/

/-- The jobs that `build` knows. -/
inductive Job where
  | liveSensevoice (gpu : Bool)
  | liveCppTurboGpu
  | recordEnter
  | recordTimed
  | post (kind : Output.Kind)
deriving DecidableEq, Repr

/-- The kind of a transcription, as the page sends it. -/
def kindName : Output.Kind → Text
  | .cppGpu => "cpp-gpu".toList
  | .cppTurboGpu => "cpp-turbo-gpu".toList
  | .sensevoiceCpu => "sensevoice-cpu".toList
  | .sensevoiceGpu => "sensevoice-gpu".toList
  | .cppCpu => "cpp-cpu".toList
  | .cppVulkan => "cpp-vulkan".toList
  | .cppNpu => "cpp-npu".toList
  | .cppOpenvinoGpu => "cpp-openvino-gpu".toList
  | .qwenGpu => "qwen-gpu".toList
  | .qwenCpu => "qwen-cpu".toList
  | .qwen17Gpu => "qwen17-gpu".toList
  | .qwen17Cpu => "qwen17-cpu".toList

/-- The kinds that `build` matches on. -/
def Job.name : Job → Text
  | .liveSensevoice false => "live-sensevoice-cpu".toList
  | .liveSensevoice true => "live-sensevoice-gpu".toList
  | .liveCppTurboGpu => "live-cpp-turbo-gpu".toList
  | .recordEnter => "record-enter".toList
  | .recordTimed => "record-timed".toList
  | .post kind => kindName kind

/-- Every job, in the order of the branches of `build`. -/
def Job.all : List Job :=
  [.liveSensevoice false, .liveSensevoice true, .liveCppTurboGpu, .recordEnter, .recordTimed] ++
    [.cppGpu, .cppTurboGpu, .cppCpu, .cppVulkan, .cppNpu, .cppOpenvinoGpu, .sensevoiceCpu,
      .sensevoiceGpu, .qwenGpu, .qwenCpu, .qwen17Gpu, .qwen17Cpu].map Job.post

/-- Where the app runs. -/
structure AppPaths extends Output.AppPaths where
  repoRoot : Path

/-- What the system answers while a command is built. -/
structure Host where
  /-- `create_dir_all`, with the error if there is one. -/
  createDirAll : Path → Option Text
  /-- The local time as `%Y%m%d_%H%M%S`. -/
  stamp : Text
  /-- `available_parallelism`, if it is known. -/
  parallelism : Option Nat

/-- `logical_threads` -/
def Host.logicalThreads (host : Host) : Nat := max (host.parallelism.getD 1) 1

/-- `post_threads` -/
def Host.postThreads (host : Host) : Text :=
  let threads := host.logicalThreads
  if threads ≤ 4 then (toString threads).toList
  else if threads ≤ 8 then "6".toList
  else if threads ≤ 16 then "10".toList
  else "16".toList

/-- A folder that is made if it is not there. -/
def Host.makeDir (host : Host) (dir : Path) : Except Text Path :=
  match host.createDirAll dir with
  | some error => .error (dir ++ ": ".toList ++ error)
  | none => .ok dir

/-- `<prefix>_YYYYMMDD_HHMMSS` in local time. -/
def Host.timestampedDir (host : Host) (outputDir : Path) (pre : String) : Except Text Path :=
  host.makeDir (push outputDir (pre.toList ++ '_' :: host.stamp))

/-- `root.join(…)`, name after name. -/
def joined (root : Path) (names : List String) : Path :=
  names.foldl (fun path name => push path name.toList) root

section

variable {F : Type} [Doubles F] (host : Host) (paths : AppPaths) (args : Args F)

/-- The program of a runtime. -/
def whisperCli (runtime : String) : Path :=
  joined paths.dataRoot ["whisper_cpp", runtime, "Release", "whisper-cli.exe"]

/-- The model of most whisper.cpp jobs. -/
def smallModel : Path := joined paths.dataRoot ["whisper_cpp", "models", "ggml-small.bin"]

/-- The model of the Turbo jobs. -/
def turboModel : Path :=
  joined paths.dataRoot ["whisper_cpp", "models", "ggml-large-v3-turbo.bin"]

/-- The model of the SenseVoice jobs. -/
def sensevoiceModel (gpu : Bool) : Path :=
  joined paths.dataRoot ["models", if gpu then "SenseVoiceSmall-fp32" else "SenseVoiceSmall"]

/-- The words of an OpenVINO job. -/
def openvino (audio output : Text) (device : String) (language : Text) : List Text :=
  ["-m".toList, smallModel paths, "-f".toList, audio, "-l".toList, language, "-oved".toList,
    device.toList, "-t".toList, "8".toList, "-bs".toList, "1".toList, "-bo".toList, "1".toList,
    "-nf".toList, "-nt".toList, "-np".toList, "-otxt".toList, "-of".toList, output]

/-- `need_audio`: the file, which a transcription cannot do without. -/
def needAudio : Except Text Text :=
  match text args "audioPath" with
  | some audio => .ok audio
  | none => .error "Choose an audio file first.".toList

/-- `recording` of `build`: the live jobs that record into a session folder. -/
def recording (outputDir : Path) (extra : List Text) : List Text :=
  ["--recording-dir".toList, outputDir] ++ extra ++ captureArgs args ++ recognitionArgs args

/-- `live-sensevoice-cpu` and `live-sensevoice-gpu` -/
def liveSensevoice (outputDir : Path) (gpu : Bool) : Except Text CommandSpec := do
  let extra ←
    if (boolean args "saveWav").getD true then
      pure ["--save-recording".toList, "--recording-dir".toList, outputDir,
        "--session-prefix".toList, "sensevoice_live".toList]
    else do
      let dir ← host.timestampedDir outputDir "sensevoice_text"
      pure ["--output".toList, push dir "live_transcript.txt".toList]
  let extra := extra ++ ["--sensevoice-model".toList, sensevoiceModel paths gpu] ++
    captureArgs args ++ recognitionArgs args
  pure <|
    if gpu then script "Live SenseVoice GPU" "python_backend\\live_sensevoice_gpu.cmd" extra
    else script "Live SenseVoice CPU" "python_backend\\live_sensevoice.cmd" extra

/-- `live-cpp-turbo-gpu` -/
def liveCppTurboGpu (outputDir : Path) : CommandSpec :=
  script "Live whisper.cpp Turbo GPU" "whisper_cpp\\live_cpp.cmd" (recording args outputDir
    ["--model".toList, "models/ggml-large-v3-turbo.bin".toList, "--session-prefix".toList,
      "cpp_turbo_live".toList])

/-- `record-enter` -/
def recordEnter (outputDir : Path) : Except Text CommandSpec := do
  let dir ← host.timestampedDir outputDir "meeting"
  pure (script "Record until Enter" "python_backend\\record_meeting.cmd"
    (["--until-enter".toList, "--output".toList, push dir "audio.wav".toList] ++ captureArgs args))

/-- `record-timed` -/
def recordTimed (outputDir : Path) : Except Text CommandSpec := do
  let dir ← host.timestampedDir outputDir "meeting"
  pure (script "Timed recording" "python_backend\\record_meeting.cmd"
    (["--duration".toList, (number args "durationSeconds").getD "3600".toList, "--output".toList,
      push dir "audio.wav".toList] ++ captureArgs args))

/-- `post_output` of `build`. -/
def postOutput (outputDir : Path) (kind : Output.Kind) : Except Text Text := do
  let audio ← needAudio args
  pure (Output.withoutTxt (Output.transcriptOutputPath audio outputDir (Output.suffix kind)))

/-- The jobs that run `whisper-cli.exe` with a model and the language. -/
def whisper (outputDir : Path) (kind : Output.Kind) (label runtime : String) (model : Path)
    (threads : List Text) : Except Text CommandSpec := do
  let audio ← needAudio args
  let output ← postOutput args outputDir kind
  pure {
    label := label.toList
    executable := whisperCli paths runtime
    args := ["-m".toList, model, "-f".toList, audio, "-l".toList, language args, "-otxt".toList,
      "-of".toList, output] ++ threads }

/-- The jobs that run `whisper-cli.exe` on an OpenVINO device. -/
def whisperOpenvino (outputDir : Path) (kind : Output.Kind) (label device : String) :
    Except Text CommandSpec := do
  let audio ← needAudio args
  let output ← postOutput args outputDir kind
  pure {
    label := label.toList
    executable := whisperCli paths "bin_openvino"
    args := openvino paths audio output device (language args) }

/-- `sensevoice-cpu` and `sensevoice-gpu` -/
def postSensevoice (outputDir : Path) (kind : Output.Kind) (gpu : Bool) :
    Except Text CommandSpec := do
  let audio ← needAudio args
  let output := Output.transcriptOutputPath audio outputDir (Output.suffix kind)
  let extra := [audio, "-o".toList, output, "--model".toList, sensevoiceModel paths gpu,
    "--language".toList, language args, "--chinese-script".toList, chineseScript args]
  pure <|
    if gpu then script "SenseVoice GPU" "python_backend\\post_sensevoice_gpu.cmd" extra
    else script "SenseVoice CPU" "python_backend\\post_sensevoice.cmd" extra

/-- The model of the Qwen jobs. -/
def qwenModel (large : Bool) : Path :=
  joined paths.dataRoot ["models", if large then "Qwen3-ASR-1.7B" else "Qwen3-ASR-0.6B"]

/-- The glossary, if it is not blank. -/
def qwenContext : Option Text :=
  match text args "qwenContext" with
  | some value => if (trim value).isEmpty then none else some (trim value)
  | none => none

/-- The environment `uv` runs Qwen in. -/
def qwenEnvironment : List Text :=
  ["run", "--no-project", "--python", "3.11", "--index-strategy", "unsafe-best-match",
    "--index-url", "https://download.pytorch.org/whl/cu128", "--extra-index-url",
    "https://pypi.org/simple", "--with-requirements"].map String.toList

/-- The four Qwen jobs. -/
def postQwen (outputDir : Path) (kind : Output.Kind) (large gpu : Bool) :
    Except Text CommandSpec := do
  let audio ← needAudio args
  let output := Output.transcriptOutputPath audio outputDir (Output.suffix kind)
  let label :=
    match large, gpu with
    | false, true => "Qwen GPU"
    | false, false => "Qwen CPU"
    | true, true => "Qwen 1.7B GPU"
    | true, false => "Qwen 1.7B CPU"
  pure {
    label := label.toList
    executable := "uv".toList
    args := qwenEnvironment ++
      [joined paths.repoRoot ["python_backend", "qwen-requirements.txt"], "python".toList,
        "-u".toList, joined paths.repoRoot ["python_backend", "post_transcribe_qwen.py"]] ++
      [audio, "-o".toList, output, "--device".toList,
        (if gpu then "cuda:0" else "cpu").toList, "--language".toList,
        qwenLanguage (language args), "--model".toList, qwenModel paths large,
        "--max-new-tokens".toList, (number args "qwenTokens").getD "4096".toList,
        "--chunk-seconds".toList, (number args "chunkSeconds").getD "60".toList,
        "--batch-size".toList, (number args "qwenBatch").getD "16".toList,
        "--chinese-script".toList, chineseScript args] ++
      (match qwenContext args with
        | some context => ["--context".toList, context]
        | none => []) }

/-- The command of a job, before a conversion is put around it. -/
def direct (outputDir : Path) : Job → Except Text CommandSpec
  | .liveSensevoice gpu => liveSensevoice host paths args outputDir gpu
  | .liveCppTurboGpu => .ok (liveCppTurboGpu args outputDir)
  | .recordEnter => recordEnter host args outputDir
  | .recordTimed => recordTimed host args outputDir
  | .post kind =>
    match kind with
    | .cppGpu =>
      whisper paths args outputDir kind "whisper.cpp GPU" "bin_cuda" (smallModel paths) []
    | .cppTurboGpu =>
      whisper paths args outputDir kind "whisper.cpp Turbo GPU" "bin_cuda" (turboModel paths) []
    | .cppCpu =>
      whisper paths args outputDir kind "whisper.cpp CPU" "bin_cpu" (smallModel paths)
        ["-t".toList, host.postThreads]
    | .cppVulkan => do
      let audio ← needAudio args
      let output ← postOutput args outputDir kind
      pure (script "whisper.cpp Vulkan" "whisper_cpp\\post_cpp_vulkan.cmd"
        [audio, output, "8".toList])
    | .cppNpu => whisperOpenvino paths args outputDir kind "whisper.cpp NPU" "NPU"
    | .cppOpenvinoGpu =>
      whisperOpenvino paths args outputDir kind "whisper.cpp OpenVINO GPU" "GPU"
    | .sensevoiceCpu => postSensevoice paths args outputDir kind false
    | .sensevoiceGpu => postSensevoice paths args outputDir kind true
    | .qwenGpu => postQwen paths args outputDir kind false true
    | .qwenCpu => postQwen paths args outputDir kind false false
    | .qwen17Gpu => postQwen paths args outputDir kind true true
    | .qwen17Cpu => postQwen paths args outputDir kind true false

/-- whisper-cli jobs whose text may be Chinese. Vulkan is a wrapper and recognizes Japanese
    only. -/
def convertsCppScript (job : Job) (language : Text) : Bool :=
  decide (job ∈ [Job.post .cppGpu, .post .cppTurboGpu, .post .cppCpu, .post .cppNpu,
      .post .cppOpenvinoGpu]) &&
    decide (language ∈ ["zh", "yue", "auto"].map String.toList)

/-- Runs a whisper-cli job through `post_whisper_cpp.py`. -/
def withScriptConversion (spec : CommandSpec) (script language : Text) : CommandSpec where
  label := spec.label
  executable := "uv".toList
  args := ["run", "--no-project", "--with", "opencc-python-reimplemented==0.1.7", "python",
      "-u"].map String.toList ++
    [joined paths.repoRoot ["python_backend", "post_whisper_cpp.py"], "--chinese-script".toList,
      script, "--language".toList, language, "--".toList] ++ spec.executable :: spec.args

/-- `build` -/
def build (kind : Text) : Except Text CommandSpec := do
  let outputDir ← host.makeDir
    (Output.resolveOutputDir paths.toAppPaths ((text args "outputDir").getD []))
  match Job.all.find? fun job => job.name = kind with
  | none => .error ("Unknown command: ".toList ++ kind)
  | some job =>
    let spec ← direct host paths args outputDir job
    pure <|
      if convertsCppScript job (language args) then
        withScriptConversion paths spec (chineseScript args) (language args)
      else spec

end

end Launch
end LocalMeetingStt
