import LocalMeetingStt.Assets.Download

/-!
# The asset downloads (`download_assets.py`)

A run of the downloader is a script over the data folder. What the libraries and the
network answer in one run comes from outside (`Env`).

Every download of the app is one branch of `download_assets`, and of one of three kinds
(`Plan`): a snapshot of a repository, a file, an archive that is unpacked.
-/

namespace LocalMeetingStt
namespace Assets

open LittleEndian

/-! ## What there is to download -/

/-- The assets of the list, and the two that only the script knows. -/
inductive AssetId where
  | fasterWhisper
  | qwen
  | qwen17b
  | sensevoiceSmall
  | sensevoiceSmallGpu
  | whisperCppCpu
  | whisperCppCuda
  | whisperCppVulkan
  | whisperCppOpenvino
  | whisperCppOpenvinoModelXml
  | whisperCppOpenvinoModelBin
  | whisperCppModel
  | whisperCppBaseModel
  | whisperCppTurboModel
deriving DecidableEq, Repr

namespace AssetId

/-- The text of `--only`. -/
def name : AssetId → Text
  | fasterWhisper => "faster-whisper".toList
  | qwen => "qwen".toList
  | qwen17b => "qwen-1.7b".toList
  | sensevoiceSmall => "sensevoice-small".toList
  | sensevoiceSmallGpu => "sensevoice-small-gpu".toList
  | whisperCppCpu => "whisper-cpp-cpu".toList
  | whisperCppCuda => "whisper-cpp-cuda".toList
  | whisperCppVulkan => "whisper-cpp-vulkan".toList
  | whisperCppOpenvino => "whisper-cpp-openvino".toList
  | whisperCppOpenvinoModelXml => "whisper-cpp-openvino-model-xml".toList
  | whisperCppOpenvinoModelBin => "whisper-cpp-openvino-model-bin".toList
  | whisperCppModel => "whisper-cpp-model".toList
  | whisperCppBaseModel => "whisper-cpp-base-model".toList
  | whisperCppTurboModel => "whisper-cpp-turbo-model".toList

end AssetId

/-- `ASSET_CHOICES` -/
def assetChoices : List AssetId :=
  [.fasterWhisper, .qwen, .qwen17b, .sensevoiceSmall, .sensevoiceSmallGpu, .whisperCppCpu,
    .whisperCppCuda, .whisperCppModel, .whisperCppBaseModel, .whisperCppTurboModel]

/-- The arguments of `snapshot_download` but for the folder. -/
structure Snapshot where
  repoId : Text
  revision : Option Text
  allowPatterns : Option (List Text)

/-- What the libraries and the network answer in one run. -/
structure Env where
  urlopen : Request → Except Text Response
  /-- The assets of a release, by name, with their URLs. -/
  release : Text → Except Text (List (Text × Text))
  /-- The files that are moved into place, one after the other, and the exception after. -/
  snapshotDownload : Snapshot → List (Path × Bytes) × Option Text
  /-- The members of an archive, each in the pieces in which it is written. -/
  members : Bytes → Except Text (List (Path × List Bytes))
  sha256 : Bytes → Text

/-! ## The downloads -/

/-- The files of a snapshot, each moved in when it is complete. -/
def moveIntoPlace (destination : Path) : List (Path × Bytes) → Download Unit
  | [] => pure ()
  | (name, bytes) :: files => do
    mkdir (destination ++ name).dropLast
    put (destination ++ name) bytes
    moveIntoPlace destination files

/-- `snapshot_download` of `huggingface_hub` -/
def snapshotDownload (env : Env) (snapshot : Snapshot) (localDir : Path) : Download Unit := do
  mkdir localDir
  moveIntoPlace localDir (env.snapshotDownload snapshot).1
  match (env.snapshotDownload snapshot).2 with
  | none => pure ()
  | some error => .raise error

/-- `download_hf_snapshot` -/
def downloadHfSnapshot (env : Env) (snapshot : Snapshot) (destination : Path) (force : Bool) :
    Download Unit := do
  resetPath destination force
  mkdir destination.dropLast
  snapshotDownload env snapshot destination

/-- The repositories and the file names have no character that `quote` would change. -/
def hfUrl (repoId revision filename : Text) : Text :=
  "https://huggingface.co/".toList ++ repoId ++ "/resolve/".toList ++ revision ++ ['/'] ++ filename

/-- `download_hf_file` -/
def downloadHfFile (env : Env) (assetId : AssetId) (repoId filename : Text) (destination : Path)
    (force : Bool) (revision : Text) (expectedSha256 : Option Text) : Download Unit := do
  let exists_ ← pathExists destination
  let existedBeforeDownload := exists_ && !force
  downloadUrl env.urlopen (hfUrl repoId revision filename) destination force
  match expectedSha256 with
  | none => pure ()
  | some expected =>
    let bytes ← readFile destination
    if env.sha256 bytes ≠ expected then
      if !existedBeforeDownload then
        unlink destination
      .raise (assetId.name ++ " checksum mismatch; use --force to download it again".toList)

/-- `github_release_asset_url` -/
def githubReleaseAssetUrl (env : Env) (tag assetName : Text) : Download Text :=
  match env.release tag with
  | .error error => .raise error
  | .ok assets =>
    match assets.find? fun asset => asset.1 = assetName with
    | some asset => pure asset.2
    | none =>
      .raise ("Asset not found in whisper.cpp ".toList ++ tag ++ ": ".toList ++ assetName)

/-- A member of an archive is written piece by piece. -/
def writePieces (path : Path) : List Bytes → Download Unit
  | [] => pure ()
  | piece :: pieces => do
    append path piece
    writePieces path pieces

/-- `archive.extractall(destination)` -/
def extractall (destination : Path) : List (Path × List Bytes) → Download Unit
  | [] => pure ()
  | (name, pieces) :: members => do
    mkdir (destination ++ name).dropLast
    create (destination ++ name)
    writePieces (destination ++ name) pieces
    extractall destination members

/-- `extract_zip` -/
def extractZip (env : Env) (zipPath destination : Path) (force : Bool) : Download Unit := do
  resetPath destination force
  let exists_ ← pathExists destination
  let any ← anyIn destination
  if exists_ && any then
    return
  mkdir destination
  let bytes ← readFile zipPath
  match env.members bytes with
  | .error error => .raise error
  | .ok members => extractall destination members

/-- `WHISPER_CPP_RELEASE` -/
def whisperCppRelease : Text := "v1.8.4".toList

/-- `WHISPER_CPP_CUDA_ASSET` -/
def whisperCppCudaAsset : Text := "whisper-cublas-12.4.0-bin-x64.zip".toList

/-- `WHISPER_CPP_CPU_ASSET` -/
def whisperCppCpuAsset : Text := "whisper-bin-x64.zip".toList

/-- A folder for a model of its own. -/
def modelFolder (name : String) : Path := ["models".toList, name.toList]

/-- Where an archive is downloaded to. -/
def whisperCppZip (assetName : Text) : Path :=
  ["whisper_cpp".toList, "downloads".toList, assetName]

/-- Where it is unpacked. -/
def whisperCppBin (name : String) : Path := ["whisper_cpp".toList, name.toList]

/-- Where the models of whisper.cpp are. -/
def whisperCppModelFile (name : String) : Path :=
  ["whisper_cpp".toList, "models".toList, name.toList]

/-- The SenseVoice repository, at its revision. -/
def sensevoice (allowPatterns : List String) : Snapshot :=
  ⟨"csukuangfj/sherpa-onnx-sense-voice-zh-en-ja-ko-yue-2024-07-17".toList,
    some "2365baeacb507f821a0c8120fcee3d484dba7a07".toList,
    some (allowPatterns.map String.toList)⟩

/-- The arguments of `download_assets.py`. -/
structure Args where
  only : Option AssetId
  skipFasterWhisper : Bool
  skipQwen : Bool
  skipWhisperCpp : Bool
  force : Bool

/-- An archive of the release, downloaded and unpacked. -/
def downloadArchive (env : Env) (assetName : Text) (bin : String) (force : Bool) :
    Download Unit := do
  let url ← githubReleaseAssetUrl env whisperCppRelease assetName
  downloadUrl env.urlopen url (whisperCppZip assetName) force
  extractZip env (whisperCppZip assetName) (whisperCppBin bin) force

/-- A model file of whisper.cpp. -/
def ggml (env : Env) (assetId : AssetId) (filename : String) (force : Bool) (revision : String)
    (expectedSha256 : Option Text) : Download Unit :=
  downloadHfFile env assetId "ggerganov/whisper.cpp".toList filename.toList
    (whisperCppModelFile filename) force revision.toList expectedSha256

/-- The checksum of the turbo model. -/
def turboSha256 : Text :=
  "1fc70f774d38eb169993ac391eea357ef47c88757ef72ee5943879b7e8e2bc69".toList

/-- `download_assets` -/
def downloadAssets (env : Env) (args : Args) : Download Unit := do
  let only := args.only
  if (only = none ∨ only = some .fasterWhisper) ∧ !args.skipFasterWhisper then
    downloadHfSnapshot env ⟨"Systran/faster-whisper-small".toList, none, none⟩
      (modelFolder "faster-whisper-small") args.force
  if (only = none ∨ only = some .qwen) ∧ !args.skipQwen then
    downloadHfSnapshot env ⟨"Qwen/Qwen3-ASR-0.6B".toList, none, none⟩
      (modelFolder "Qwen3-ASR-0.6B") args.force
  if only = none ∨ only = some .sensevoiceSmall then
    downloadHfSnapshot env (sensevoice ["model.int8.onnx", "tokens.txt", "LICENSE", "README.md"])
      (modelFolder "SenseVoiceSmall") args.force
  if only = some .sensevoiceSmallGpu then
    downloadHfSnapshot env (sensevoice ["model.onnx", "tokens.txt", "LICENSE", "README.md"])
      (modelFolder "SenseVoiceSmall-fp32") args.force
  if only = some .qwen17b then
    downloadHfSnapshot env
      ⟨"Qwen/Qwen3-ASR-1.7B".toList, some "7278e1e70fe206f11671096ffdd38061171dd6e5".toList, none⟩
      (modelFolder "Qwen3-ASR-1.7B") args.force
  if (only.all fun id => decide ("whisper-cpp-".toList <+: id.name)) ∧ !args.skipWhisperCpp then
    if only = none ∨ only = some .whisperCppCuda then
      downloadArchive env whisperCppCudaAsset "bin_cuda" args.force
    if only = none ∨ only = some .whisperCppCpu then
      downloadArchive env whisperCppCpuAsset "bin_cpu" args.force
    if only = none ∨ only = some .whisperCppModel then
      ggml env .whisperCppModel "ggml-small.bin" args.force "main" none
    if only = none ∨ only = some .whisperCppBaseModel then
      ggml env .whisperCppBaseModel "ggml-base.bin" args.force "main" none
    if only = some .whisperCppTurboModel then
      ggml env .whisperCppTurboModel "ggml-large-v3-turbo.bin" args.force
        "98aa99a0a9db05ae2342309f5096248665f7cba3" (some turboSha256)

/-! ## The three kinds of download -/

/-- What one asset's download does. -/
inductive Plan where
  | snapshot (request : Snapshot) (destination : Path)
  | file (assetId : AssetId) (filename revision : String) (expectedSha256 : Option Text)
  | archive (assetName : Text) (bin : String)

/-- The download of a plan, as the app starts it. -/
def Plan.script (env : Env) : Plan → Download Unit
  | .snapshot request destination => downloadHfSnapshot env request destination false
  | .file assetId filename revision expectedSha256 =>
    ggml env assetId filename false revision expectedSha256
  | .archive assetName bin => downloadArchive env assetName bin false

/-- Which of the three each asset is; a local build is none of them. -/
def plan : AssetId → Option Plan
  | .fasterWhisper =>
    some (.snapshot ⟨"Systran/faster-whisper-small".toList, none, none⟩
      (modelFolder "faster-whisper-small"))
  | .qwen =>
    some (.snapshot ⟨"Qwen/Qwen3-ASR-0.6B".toList, none, none⟩ (modelFolder "Qwen3-ASR-0.6B"))
  | .qwen17b =>
    some (.snapshot
      ⟨"Qwen/Qwen3-ASR-1.7B".toList, some "7278e1e70fe206f11671096ffdd38061171dd6e5".toList, none⟩
      (modelFolder "Qwen3-ASR-1.7B"))
  | .sensevoiceSmall =>
    some (.snapshot (sensevoice ["model.int8.onnx", "tokens.txt", "LICENSE", "README.md"])
      (modelFolder "SenseVoiceSmall"))
  | .sensevoiceSmallGpu =>
    some (.snapshot (sensevoice ["model.onnx", "tokens.txt", "LICENSE", "README.md"])
      (modelFolder "SenseVoiceSmall-fp32"))
  | .whisperCppCpu => some (.archive whisperCppCpuAsset "bin_cpu")
  | .whisperCppCuda => some (.archive whisperCppCudaAsset "bin_cuda")
  | .whisperCppModel => some (.file .whisperCppModel "ggml-small.bin" "main" none)
  | .whisperCppBaseModel => some (.file .whisperCppBaseModel "ggml-base.bin" "main" none)
  | .whisperCppTurboModel =>
    some (.file .whisperCppTurboModel "ggml-large-v3-turbo.bin"
      "98aa99a0a9db05ae2342309f5096248665f7cba3" (some turboSha256))
  | .whisperCppVulkan | .whisperCppOpenvino | .whisperCppOpenvinoModelXml
  | .whisperCppOpenvinoModelBin => none

/-- The arguments of the app's downloads, `--only <id>`. -/
def onlyArgs (id : AssetId) : Args := ⟨some id, false, false, false, false⟩

/-- The ids that start with `whisper-cpp-`. -/
def AssetId.isWhisperCpp : AssetId → Bool
  | .fasterWhisper | .qwen | .qwen17b | .sensevoiceSmall | .sensevoiceSmallGpu => false
  | _ => true

theorem whisperCpp_prefix (id : AssetId) :
    decide ("whisper-cpp-".toList <+: id.name) = id.isWhisperCpp := by
  cases id <;> decide

/-- A download of the app is the one branch of `download_assets` its id selects. -/
theorem downloadAssets_only (env : Env) {id : AssetId} {p : Plan} (hplan : plan id = some p) :
    downloadAssets env (onlyArgs id) = p.script env := by
  unfold downloadAssets onlyArgs
  simp only [Option.all_some, whisperCpp_prefix]
  cases id <;> cases hplan <;> simp [AssetId.isWhisperCpp, Plan.script]

end Assets
end LocalMeetingStt
