import LocalMeetingStt.Assets.Killed

/-!
# The asset check (`assets.rs`)

The Settings page offers a download where `check` does not find the asset. What it looks
for are paths: the asset's own, a second program beside the first, and the files of
`required_files`. Whether that is enough after a killed download is a question of what the
kill can leave, and `check_complete_iff` answers it for each asset.

It is enough for the single files, which are moved into place when they are complete. A
snapshot is moved into place file by file, so it is enough exactly where `required_files`
names every file of it. It names none of `qwen`, whose folder alone passes. An archive is
unpacked in place, so that a program passes as soon as it is created: that is never enough.
-/

namespace LocalMeetingStt
namespace Assets

open LittleEndian

/-! ## The table -/

structure Asset where
  id : AssetId
  label : Text
  relativePath : Text
  downloadable : Bool
  note : Option Text

structure AssetStatus where
  id : AssetId
  label : Text
  relativePath : Text
  exists_ : Bool
  downloadable : Bool
  optional : Bool
  note : Option Text

/-- `ASSETS` -/
def assets : List Asset := [
  { id := .qwen
    label := "Qwen3-ASR 0.6B".toList
    relativePath := "models/Qwen3-ASR-0.6B".toList
    downloadable := true
    note := none },
  { id := .qwen17b
    label := "Qwen3-ASR 1.7B".toList
    relativePath := "models/Qwen3-ASR-1.7B".toList
    downloadable := true
    note := some "Optional, about 4.4 GB. More accurate, needs more GPU memory.".toList },
  { id := .sensevoiceSmall
    label := "SenseVoice-Small (CPU)".toList
    relativePath := "models/SenseVoiceSmall".toList
    downloadable := true
    note := some
      "Chinese, Cantonese, English, Japanese live captions on CPU; about 230 MB.".toList },
  { id := .sensevoiceSmallGpu
    label := "SenseVoice-Small (GPU)".toList
    relativePath := "models/SenseVoiceSmall-fp32".toList
    downloadable := true
    note := some ("Optional, about 900 MB. The first GPU run also downloads ".toList ++
      "NVIDIA CUDA libraries (about 1.5 GB).".toList) },
  { id := .whisperCppCpu
    label := "whisper.cpp CPU".toList
    relativePath := "whisper_cpp/bin_cpu/Release/whisper-cli.exe".toList
    downloadable := true
    note := none },
  { id := .whisperCppCuda
    label := "whisper.cpp CUDA".toList
    relativePath := "whisper_cpp/bin_cuda/Release/whisper-cli.exe".toList
    downloadable := true
    note := none },
  { id := .whisperCppVulkan
    label := "whisper.cpp Vulkan".toList
    relativePath := "whisper_cpp/bin_vulkan/Release/whisper-server.exe".toList
    downloadable := false
    note := some "Build locally; not available from the asset downloader.".toList },
  { id := .whisperCppOpenvino
    label := "whisper.cpp OpenVINO".toList
    relativePath := "whisper_cpp/bin_openvino/Release/whisper-server.exe".toList
    downloadable := false
    note := some "Separate local build; requires the OpenVINO encoder model.".toList },
  { id := .whisperCppOpenvinoModelXml
    label := "whisper.cpp OpenVINO small encoder XML".toList
    relativePath := "whisper_cpp/models/ggml-small-encoder-openvino.xml".toList
    downloadable := false
    note := some "Generated locally from the small model for OpenVINO.".toList },
  { id := .whisperCppOpenvinoModelBin
    label := "whisper.cpp OpenVINO small encoder BIN".toList
    relativePath := "whisper_cpp/models/ggml-small-encoder-openvino.bin".toList
    downloadable := false
    note := some "Generated locally from the small model for OpenVINO.".toList },
  { id := .whisperCppTurboModel
    label := "whisper.cpp large-v3-turbo model".toList
    relativePath := "whisper_cpp/models/ggml-large-v3-turbo.bin".toList
    downloadable := true
    note := none },
  { id := .whisperCppModel
    label := "whisper.cpp small model".toList
    relativePath := "whisper_cpp/models/ggml-small.bin".toList
    downloadable := true
    note := none }]

/-- `OPTIONAL` -/
def optional : List AssetId := [.qwen17b, .sensevoiceSmallGpu]

def requiredFiles : AssetId → List Text
  | .qwen17b =>
    ["config.json".toList, "preprocessor_config.json".toList,
      "model-00001-of-00002.safetensors".toList, "model-00002-of-00002.safetensors".toList]
  | .sensevoiceSmall => ["model.int8.onnx".toList, "tokens.txt".toList]
  | .sensevoiceSmallGpu => ["model.onnx".toList, "tokens.txt".toList]
  | _ => []

/-- `data_root.join(relative_path)` -/
def joined (relativePath : Text) : Path := relativePath.splitOn '/'

def Asset.check (f : Folder) (asset : Asset) : AssetStatus :=
  let path := joined asset.relativePath
  let needsServer := asset.id = .whisperCppCpu ∨ asset.id = .whisperCppCuda
  { id := asset.id
    label := asset.label
    relativePath := asset.relativePath
    exists_ := (f.lookup path).isSome &&
      (!needsServer || (f.lookup (path.dropLast ++ ["whisper-server.exe".toList])).isSome) &&
      (requiredFiles asset.id).all fun file => (f.fileAt (path ++ [file])).isSome
    downloadable := asset.downloadable
    optional := decide (asset.id ∈ optional)
    note := asset.note }

def check (f : Folder) : List AssetStatus := assets.map (·.check f)

/-! ## What the check finds and what there should be -/

def release (name : String) : Path := ["Release".toList, name.toList]

/-- The check of an asset, by the kind of its download. -/
def Plan.Exists (required : List Text) (f : Folder) : Plan → Prop
  | .snapshot _ destination => (f.lookup destination).isSome = true ∧
      ∀ file ∈ required, (f.fileAt (destination ++ [file])).isSome = true
  | .file _ filename _ _ => (f.lookup (whisperCppModelFile filename)).isSome = true
  | .archive _ bin =>
      (f.lookup (whisperCppBin bin ++ release "whisper-cli.exe")).isSome = true ∧
        (f.lookup (whisperCppBin bin ++ release "whisper-server.exe")).isSome = true

theorem Asset.exists_iff (f : Folder) (asset : Asset) :
    (asset.check f).exists_ = true ↔ (f.lookup (joined asset.relativePath)).isSome = true ∧
      (asset.id = .whisperCppCpu ∨ asset.id = .whisperCppCuda →
        (f.lookup ((joined asset.relativePath).dropLast ++
          ["whisper-server.exe".toList])).isSome = true) ∧
      ∀ file ∈ requiredFiles asset.id,
        (f.fileAt (joined asset.relativePath ++ [file])).isSome = true := by
  simp only [Asset.check, Bool.and_eq_true, Bool.or_eq_true, Bool.not_eq_true', List.all_eq_true,
    decide_eq_false_iff_not, and_assoc, or_iff_not_imp_left, not_not]

section

variable (f : Folder) (asset : Asset)

theorem snapshot_exists_iff {destination : Path} (request : Snapshot)
    (hid : ¬ (asset.id = .whisperCppCpu ∨ asset.id = .whisperCppCuda))
    (hpath : joined asset.relativePath = destination) : (asset.check f).exists_ = true ↔
      Plan.Exists (requiredFiles asset.id) f (.snapshot request destination) := by
  rw [Asset.exists_iff, hpath]
  exact and_congr_right fun _ => and_iff_right fun h => absurd h hid

theorem file_exists_iff {filename : String} (assetId : AssetId) (revision : String)
    (sha256 : Option Text) (hid : ¬ (asset.id = .whisperCppCpu ∨ asset.id = .whisperCppCuda))
    (hrequired : requiredFiles asset.id = [])
    (hpath : joined asset.relativePath = whisperCppModelFile filename) :
    (asset.check f).exists_ = true ↔
      Plan.Exists (requiredFiles asset.id) f (.file assetId filename revision sha256) := by
  rw [Asset.exists_iff, hpath, hrequired]
  refine and_iff_left ⟨fun h => absurd h hid, fun file hfile => ?_⟩
  exact absurd hfile List.not_mem_nil

theorem archive_exists_iff {bin : String} (assetName : Text)
    (hid : asset.id = .whisperCppCpu ∨ asset.id = .whisperCppCuda)
    (hrequired : requiredFiles asset.id = [])
    (hpath : joined asset.relativePath = whisperCppBin bin ++ release "whisper-cli.exe") :
    (asset.check f).exists_ = true ↔
      Plan.Exists (requiredFiles asset.id) f (.archive assetName bin) := by
  rw [Asset.exists_iff, hpath, hrequired]
  refine and_congr_right fun _ => ⟨fun h => h.1 hid, fun h => ⟨fun _ => h, fun file hfile => ?_⟩⟩
  exact absurd hfile List.not_mem_nil

end

/-- The check looks where the download writes. -/
theorem check_exists_iff {asset : Asset} (h : asset ∈ assets) (hdown : asset.downloadable = true) :
    ∃ p, plan asset.id = some p ∧
      ∀ f, (asset.check f).exists_ = true ↔ p.Exists (requiredFiles asset.id) f := by
  simp only [assets, List.mem_cons, List.not_mem_nil, or_false] at h
  rcases h with rfl | rfl | rfl | rfl | rfl | rfl | rfl | rfl | rfl | rfl | rfl | rfl
  · exact ⟨_, rfl, fun f => snapshot_exists_iff f _ _ (by decide) (by decide)⟩
  · exact ⟨_, rfl, fun f => snapshot_exists_iff f _ _ (by decide) (by decide)⟩
  · exact ⟨_, rfl, fun f => snapshot_exists_iff f _ _ (by decide) (by decide)⟩
  · exact ⟨_, rfl, fun f => snapshot_exists_iff f _ _ (by decide) (by decide)⟩
  · exact ⟨_, rfl, fun f => archive_exists_iff f _ _ (by decide) rfl (by decide)⟩
  · exact ⟨_, rfl, fun f => archive_exists_iff f _ _ (by decide) rfl (by decide)⟩
  · cases hdown
  · cases hdown
  · cases hdown
  · cases hdown
  · exact ⟨_, rfl, fun f => file_exists_iff f _ _ _ _ (by decide) rfl (by decide)⟩
  · exact ⟨_, rfl, fun f => file_exists_iff f _ _ _ _ (by decide) rfl (by decide)⟩

/-! ## When the check is right -/

/-- All the files the download writes are there in full. -/
def Plan.Full (remote : Remote) (f : Folder) : Plan → Prop
  | .snapshot request destination =>
    ∀ file ∈ remote.snapshot request, f.fileAt (destination ++ file.1) = some file.2
  | .file _ filename revision _ =>
    f.fileAt (whisperCppModelFile filename) = some (remote.content
      (hfUrl "ggerganov/whisper.cpp".toList revision.toList filename.toList))
  | .archive assetName bin =>
    f.fileAt (whisperCppZip assetName) =
        some (remote.content (remote.releaseUrl whisperCppRelease assetName)) ∧
      ∀ file ∈ (remote.members (remote.content
          (remote.releaseUrl whisperCppRelease assetName))).getD [],
        f.fileAt (whisperCppBin bin ++ file.1) = some file.2

/-- The programs the check looks for in an unpacked archive. -/
def executables : List Path := [release "whisper-cli.exe", release "whisper-server.exe"]

/-- What an archive has at the place of a program is the program, and it is not empty. -/
def Remote.HasPrograms (remote : Remote) : Prop :=
  ∀ zip members, remote.members zip = some members → ∀ program ∈ executables,
    ∀ file ∈ members, program <+: file.1 → file.1 = program ∧ file.2 ≠ []

/-- The files of the check are all the files there are. For a single file: what ends is
    whole. For an archive: it does not have both programs, and is never reported. -/
def Plan.Covered (remote : Remote) (required : List Text) : Plan → Prop
  | .snapshot request _ =>
    (∀ file ∈ required, [file] ∈ (remote.snapshot request).map Prod.fst) →
      ∀ name ∈ (remote.snapshot request).map Prod.fst, ∃ file ∈ required, name = [file]
  | .file _ filename revision _ =>
    ∀ bytes, remote.Delivers
        (hfUrl "ggerganov/whisper.cpp".toList revision.toList filename.toList) bytes →
      bytes = remote.content (hfUrl "ggerganov/whisper.cpp".toList revision.toList filename.toList)
  | .archive assetName _ =>
    ∀ zip members, remote.Delivers (remote.releaseUrl whisperCppRelease assetName) zip →
      remote.members zip = some members → ¬∀ program ∈ executables, program ∈ members.map Prod.fst

/-- In a list of distinct names a name has one content. -/
theorem snd_eq_of_nodup {files : List (Path × Bytes)} (h : (files.map Prod.fst).Nodup)
    {name : Path} {bytes bytes' : Bytes} (hin : (name, bytes) ∈ files)
    (hin' : (name, bytes') ∈ files) : bytes = bytes' :=
  congrArg Prod.snd (List.inj_on_of_nodup_map h hin hin' rfl)

theorem release_ne (name : String) : release name ≠ [] := List.cons_ne_nil _ _

/-- What is there while an archive is unpacked is a member, or a folder above one. -/
def Brought (members : List Path) (f : Folder) : Prop :=
  ∀ p, p ≠ [] → (f.lookup p).isSome = true → ∃ name ∈ members, p <+: name

theorem Brought.mkdir {members : List Path} {f : Folder} (h : Brought members f) {q : Path}
    {name : Path} (hname : name ∈ members) (hq : q <+: name) : Brought members (f.mkdir q) := by
  intro p hne hp
  rw [Folder.lookup_mkdir] at hp
  split_ifs at hp with hpre
  · exact ⟨name, hname, hpre.trans hq⟩
  · exact h p hne hp

theorem Brought.insert {members : List Path} {f : Folder} (h : Brought members f) {name : Path}
    (hname : name ∈ members) (node : Node) : Brought members (f.insert name node) := by
  intro p hne hp
  rw [Folder.lookup_insert] at hp
  split_ifs at hp with heq
  · exact ⟨name, hname, heq ▸ List.prefix_refl name⟩
  · exact h p hne hp

theorem writePieces_brought {members : List Path} {name : Path} (hname : name ∈ members)
    (pieces : List Bytes) {f : Folder} (h : Brought members f) :
    (writePieces name pieces).wp (Brought members) (fun _ => Brought members) f := by
  induction pieces generalizing f with
  | nil => exact ⟨h, h⟩
  | cons piece pieces ih => exact Script.wp_change_bind.mpr ⟨h, ih (h.insert hname _)⟩

theorem extractall_brought {members : List Path} (files : List (Path × List Bytes))
    (hfiles : files.map Prod.fst ⊆ members) {f : Folder} (h : Brought members f) :
    (extractall [] files).wp (Brought members) (fun _ => Brought members) f := by
  induction files generalizing f with
  | nil => exact ⟨h, h⟩
  | cons file files ih =>
    obtain ⟨name, pieces⟩ := file
    obtain ⟨hname, hfiles⟩ := List.cons_subset.mp hfiles
    have hmade : Brought members (f.mkdir name.dropLast) :=
      h.mkdir hname (List.dropLast_prefix name)
    refine Script.wp_change_bind.mpr ⟨h, Script.wp_change_bind.mpr ⟨hmade, ?_⟩⟩
    rw [Script.wp_bind]
    refine Script.wp_mono (writePieces_brought hname pieces (hmade.insert hname _)) ?_
    exact fun _ g _ hg => ih hfiles hg

/-- Where the files of the check are all there are, what passes is complete. -/
theorem Plan.Covered.full {remote : Remote} (hprograms : remote.HasPrograms)
    {required : List Text} {p : Plan} {f : Folder} (h : p.Covered remote required)
    (hinv : p.Inv remote f) (hexists : p.Exists required f) : p.Full remote f := by
  cases p with
  | snapshot request destination =>
    obtain ⟨-, hfiles⟩ := hexists
    have hnames : ∀ file ∈ required, [file] ∈ (remote.snapshot request).map Prod.fst := by
      intro file hfile
      obtain ⟨bytes, hbytes⟩ := Option.isSome_iff_exists.mp (hfiles file hfile)
      exact List.mem_map_of_mem (f := Prod.fst) (hinv [file] bytes hbytes)
    rintro ⟨name, bytes⟩ hin
    obtain ⟨file, hfile, rfl⟩ := h hnames name (List.mem_map_of_mem (f := Prod.fst) hin)
    obtain ⟨bytes', hbytes'⟩ := Option.isSome_iff_exists.mp (hfiles file hfile)
    rw [hbytes', snd_eq_of_nodup (remote.distinct request) (hinv [file] bytes' hbytes') hin]
  | file assetId filename revision sha256 =>
    obtain ⟨node, hnode⟩ := Option.isSome_iff_exists.mp hexists
    obtain ⟨bytes, rfl, hdelivers⟩ := hinv.finished node hnode
    have hbytes := h bytes hdelivers
    show f.fileAt (whisperCppModelFile filename) = _
    rw [← hbytes]
    exact Folder.fileAt_eq_some.mpr hnode
  | archive assetName bin =>
    obtain ⟨hcli, hserver⟩ := hexists
    rcases hinv.unpacked with hempty | ⟨zip, hzip, hdelivers, -, files, g, hmembers, hg, hbelow⟩
    · rw [hempty _ (release_ne _)] at hcli
      cases hcli
    · rw [hbelow _ (release_ne _)] at hcli hserver
      have hbrought : Brought (files.map Prod.fst) g := by
        refine Script.wp_trail (extractall_brought files (List.Subset.refl _) ?_) g hg
        exact fun _ _ hp => nomatch hp
      refine absurd (fun program hprogram => ?_) (h zip _ hdelivers hmembers)
      have hthere : program ≠ [] ∧ (g.lookup program).isSome = true := by
        rcases List.mem_pair.mp hprogram with rfl | rfl
        · exact ⟨release_ne _, hcli⟩
        · exact ⟨release_ne _, hserver⟩
      obtain ⟨name, hname, hpre⟩ := hbrought program hthere.1 hthere.2
      obtain ⟨file, hfile, rfl⟩ := List.mem_map.mp hname
      have hmember : (file.1, file.2.flatten) ∈
          files.map fun file => (file.1, file.2.flatten) := List.mem_map_of_mem hfile
      have hsame := (hprograms zip _ hmembers program hprogram _ hmember hpre).1
      exact List.mem_map.mpr ⟨_, hmember, hsame⟩

/-! ## Runs that are killed at the wrong moment -/

/-- A run in which nothing can be reached. -/
def Env.unreachable : Env where
  urlopen _ := .error "unreachable".toList
  release _ := .error "unreachable".toList
  snapshotDownload _ := ([], some "unreachable".toList)
  members _ := .error "File is not a zip file".toList
  sha256 _ := []

theorem Env.unreachable_honours (remote : Remote) : Env.unreachable.Honours remote where
  serves _ _ _ _ h := by cases h
  whole _ _ _ h := by cases h
  release _ _ h := by cases h
  snapshot _ := List.nil_subset _
  members _ _ h := by cases h

theorem reachable_of_trail {remote : Remote} {id : AssetId} {p : Plan} (hplan : plan id = some p)
    (hchoice : id ∈ assetChoices) {env : Env} (henv : env.Honours remote) {f : Folder}
    (hf : f ∈ (p.script env).trail ∅) :
    (downloads remote).Reachable ⟨f, fun _ => none⟩ := by
  refine Farm.reachable_trail (i := id) (x := p.script env) (w := ⟨∅, fun _ => none⟩)
    (.start rfl) rfl ⟨hchoice, env, henv, ?_⟩ hf
  exact (downloadAssets_only env hplan).symm

/-! A snapshot of which one file is missing. -/

section

variable {d : Path}

/-- The folder once the files have been moved into place. -/
def placed (d : Path) (files : List (Path × Bytes)) (f : Folder) : Folder :=
  files.foldl (fun f file =>
    (Folder.mkdir f (d ++ file.1).dropLast).insert (d ++ file.1) (.file file.2)) f

theorem placed_mem_trail (files later : List (Path × Bytes)) (f : Folder) :
    placed d files f ∈ (moveIntoPlace d (files ++ later)).trail f := by
  induction files generalizing f with
  | nil => exact Script.mem_trail_self _ f
  | cons file files ih => exact List.mem_cons_of_mem _ (List.mem_cons_of_mem _ (ih _))

theorem placed_fileAt_isSome (files : List (Path × Bytes)) (f : Folder) (name : Path) :
    ((placed d files f).fileAt (d ++ name)).isSome = true ↔
      name ∈ files.map Prod.fst ∨ (f.fileAt (d ++ name)).isSome = true := by
  induction files generalizing f with
  | nil => simp [placed]
  | cons file files ih =>
    rw [placed, List.foldl_cons, ← placed, ih, Folder.fileAt_insert, Folder.fileAt_mkdir,
      List.map_cons, List.mem_cons]
    by_cases hname : name = file.1 <;> simp [hname]

theorem placed_lookup_isSome (files : List (Path × Bytes)) {f : Folder} {q : Path}
    (h : (f.lookup q).isSome = true) : ((placed d files f).lookup q).isSome = true := by
  induction files generalizing f with
  | nil => exact h
  | cons file files ih =>
    refine ih ?_
    rw [Folder.lookup_insert, Folder.lookup_mkdir]
    split_ifs
    · rfl
    · rfl
    · exact h

/-- The hub fetches one file last. -/
def Env.lastly (remote : Remote) (name : Path) : Env :=
  { Env.unreachable with
    snapshotDownload := fun request =>
      ((remote.snapshot request).filter (fun file => file.1 ≠ name) ++
        (remote.snapshot request).filter (fun file => file.1 = name), none) }

theorem Env.lastly_honours (remote : Remote) (name : Path) :
    (Env.lastly remote name).Honours remote :=
  { Env.unreachable_honours remote with
    snapshot := fun _ =>
      List.append_subset.mpr ⟨List.filter_subset_self _, List.filter_subset_self _⟩ }

/-- Everything but one file of a snapshot is there. -/
theorem snapshot_killed (remote : Remote) (request : Snapshot) (destination name : Path) :
    ∃ f ∈ (Plan.script (Env.lastly remote name) (.snapshot request destination)).trail ∅,
      (f.lookup destination).isSome = true ∧ (f.fileAt (destination ++ name)) = none ∧
      ∀ other ∈ (remote.snapshot request).map Prod.fst, other ≠ name →
        (f.fileAt (destination ++ other)).isSome = true := by
  let files := (remote.snapshot request).filter (fun file => file.1 ≠ name)
  let f₀ : Folder := Folder.mkdir (Folder.mkdir ∅ destination.dropLast) destination
  have hnone : ∀ p, f₀.fileAt p = none := fun p => by
    rw [Folder.fileAt_mkdir, Folder.fileAt_mkdir]
    rfl
  refine ⟨placed destination files f₀, ?_, ?_, ?_, ?_⟩
  · refine Script.mem_trail_bind_ok (resetPath_keep destination ∅)
      (List.mem_cons_of_mem _ (List.mem_cons_of_mem _ ?_))
    show placed destination files f₀ ∈ Script.trail (moveIntoPlace destination (files ++
      (remote.snapshot request).filter (fun file => file.1 = name)) >>= _) f₀
    exact Script.mem_trail_bind (placed_mem_trail files _ f₀)
  · refine placed_lookup_isSome files ?_
    rw [Folder.lookup_mkdir, if_pos (List.prefix_refl destination)]
    rfl
  · refine Option.not_isSome_iff_eq_none.mp fun hsome => ?_
    rcases (placed_fileAt_isSome files f₀ name).mp hsome with hin | hthere
    · obtain ⟨file, hfile, rfl⟩ := List.mem_map.mp hin
      simpa using List.of_mem_filter hfile
    · rw [hnone] at hthere
      cases hthere
  · intro other hother hne
    refine (placed_fileAt_isSome files f₀ other).mpr (Or.inl ?_)
    obtain ⟨file, hfile, rfl⟩ := List.mem_map.mp hother
    exact List.mem_map_of_mem (List.mem_filter.mpr ⟨hfile, by simpa using hne⟩)

end

/-! A response that delivers so much and no more. -/

/-- The one URL answers with `bytes`. -/
def Env.serving (url : Text) (bytes : Bytes) : Env :=
  { Env.unreachable with
    urlopen := fun request =>
      if request.url = url then .ok ⟨200, some bytes.length, [bytes], none⟩
      else .error "unreachable".toList }

theorem serving_delivered (bytes : Bytes) :
    (Response.mk 200 (some bytes.length) [bytes] none).delivered = bytes := by
  cases bytes <;> simp [Response.delivered]

theorem bodyOf_full (content : Bytes) (request : Request) :
    bodyOf content request 200 = content := by
  unfold bodyOf
  split <;> rfl

theorem Env.serving_honours {remote : Remote} {url : Text} {bytes : Bytes}
    (h : remote.Delivers url bytes) : (Env.serving url bytes).Honours remote :=
  { Env.unreachable_honours remote with
    serves := by
      intro url' request response hurl hresponse
      unfold Env.serving at hresponse
      dsimp only at hresponse
      split_ifs at hresponse with hsame
      obtain rfl := Except.ok.inj hresponse
      refine ⟨Or.inl rfl, ?_⟩
      rw [bodyOf_full, serving_delivered, ← hurl, hsame]
      rcases h with rfl | ⟨-, hpre⟩
      · exact List.prefix_refl _
      · exact hpre
    whole := by
      intro hshort request response hresponse _
      unfold Env.serving at hresponse
      dsimp only at hresponse
      split_ifs at hresponse with hsame
      obtain rfl := Except.ok.inj hresponse
      rw [bodyOf_full, serving_delivered, hsame]
      rcases h with rfl | ⟨hcuts, -⟩
      · rfl
      · rw [hshort] at hcuts
        cases hcuts }

theorem serving_run (url : Text) (bytes : Bytes) {d : Path} (hd : d ≠ []) (env : Env)
    (hopen : env.urlopen = (Env.serving url bytes).urlopen) :
    ∃ g, (downloadUrl env.urlopen url d false).run ∅ = (.ok (), g) ∧
      g.lookup d = some (.file bytes) := by
  obtain ⟨result, g, hrun, hresult, -, hfile⟩ :=
    downloadUrl_run env.urlopen url false (f := ∅) hd (Or.inr rfl)
  have hresponse : env.urlopen (requestFor url d false ∅) =
      .ok ⟨200, some bytes.length, [bytes], none⟩ := by
    rw [hopen]
    exact if_pos rfl
  obtain rfl : result = .ok () := hresult.mpr ⟨_, hresponse, by simp [Response.ended]⟩
  refine ⟨g, hrun, ?_⟩
  rw [hfile _ hresponse (by simp [Response.ended]), serving_delivered]
  rfl

theorem file_served (assetId : AssetId) (filename revision : String)
    (sha256 : Option Text) (bytes : Bytes) :
    ∃ f ∈ (Plan.script (Env.serving (hfUrl "ggerganov/whisper.cpp".toList revision.toList
        filename.toList) bytes) (.file assetId filename revision sha256)).trail ∅,
      f.lookup (whisperCppModelFile filename) = some (.file bytes) := by
  have hd : whisperCppModelFile filename ≠ [] := List.cons_ne_nil _ _
  obtain ⟨g, hrun, hfile⟩ := serving_run (hfUrl "ggerganov/whisper.cpp".toList revision.toList
    filename.toList) bytes hd _ rfl
  refine ⟨g, ?_, hfile⟩
  exact Script.mem_trail_bind_ok (show _ = (Except.ok false, (∅ : Folder)) from rfl)
    (Script.mem_trail_bind (Script.mem_trail_of_run hrun))

/-! An archive that is being unpacked. -/

/-- The release has the archive, and it unpacks to `files`. -/
def Env.unpacking (remote : Remote) (assetName : Text) (zip : Bytes)
    (files : List (Path × List Bytes)) : Env :=
  { Env.serving (remote.releaseUrl whisperCppRelease assetName) zip with
    release := fun tag => .ok [(assetName, remote.releaseUrl tag assetName)]
    members := fun bytes => if bytes = zip then .ok files
      else .error "File is not a zip file".toList }

theorem Env.unpacking_honours {remote : Remote} {assetName : Text} {zip : Bytes}
    {files : List (Path × List Bytes)}
    (h : remote.Delivers (remote.releaseUrl whisperCppRelease assetName) zip)
    (hfiles : remote.members zip = some (files.map fun file => (file.1, file.2.flatten))) :
    (Env.unpacking remote assetName zip files).Honours remote :=
  { Env.serving_honours h with
    release := by
      intro tag assets hassets asset hasset
      obtain rfl := Except.ok.inj hassets
      rw [List.mem_singleton.mp hasset]
    members := by
      intro bytes files' hmembers
      unfold Env.unpacking at hmembers
      dsimp only at hmembers
      split_ifs at hmembers with hsame
      obtain rfl := Except.ok.inj hmembers
      rw [hsame, hfiles] }

/-- The unpacking can be killed whenever it could be in an empty folder. -/
theorem archive_killed {remote : Remote} {assetName : Text} {zip : Bytes} {bin : String}
    {files : List (Path × List Bytes)} {g : Folder}
    (hapart : Apart [whisperCppBin bin] [whisperCppZip assetName, partOf (whisperCppZip assetName)])
    (hfiles : remote.members zip = some (files.map fun file => (file.1, file.2.flatten)))
    (hg : g ∈ (extractall [] files).trail ∅) :
    ∃ f ∈ (Plan.script (Env.unpacking remote assetName zip files)
        (.archive assetName bin)).trail ∅,
      f.lookup (whisperCppZip assetName) = some (.file zip) ∧
        UnpackedAlike (whisperCppBin bin) f g := by
  have hd : whisperCppZip assetName ≠ [] := List.cons_ne_nil _ _
  obtain ⟨f₁, hrun, hzip⟩ := serving_run (remote.releaseUrl whisperCppRelease assetName) zip hd
    (Env.unpacking remote assetName zip files) rfl
  have hrelease : (githubReleaseAssetUrl (Env.unpacking remote assetName zip files)
      whisperCppRelease assetName).run ∅ =
        (.ok (remote.releaseUrl whisperCppRelease assetName), ∅) :=
    githubReleaseAssetUrl_run rfl
  -- The download leaves the folder to unpack into as it is: not there.
  have hsame : SameUnder [whisperCppBin bin] ∅ f₁ :=
    sameUnder_trail (downloadUrl_leaves _ (hapart.not_under (under_of_mem (by simp)))
      (hapart.not_under (under_of_mem (by simp)))) ∅ f₁ (Script.mem_trail_of_run hrun)
  have hunder : Under [whisperCppBin bin] (whisperCppBin bin) :=
    under_of_mem (List.mem_singleton_self _)
  have habsent : f₁.lookup (whisperCppBin bin) = none := (hsame _ hunder).symm
  have halike : UnpackedAlike (whisperCppBin bin) (f₁.mkdir (whisperCppBin bin)) ∅ :=
    Below.mkdir fun name _ => (hsame _ (hunder.append name)).symm
  have hnamed : ∀ file ∈ files, file.1 ≠ [] := fun file hfile =>
    remote.membersNamed zip _ hfiles _ (List.mem_map_of_mem hfile)
  obtain ⟨f, hf, halike'⟩ :=
    Script.wp_trail ((extractall_sim files hnamed).symm.wp halike) g hg
  have hread : (Folder.fileAt (f₁.mkdir (whisperCppBin bin)) (whisperCppZip assetName)).getD [] =
      zip := by
    rw [Folder.fileAt_mkdir, Folder.fileAt_eq_some.mpr hzip]
    rfl
  have hmembers : (Env.unpacking remote assetName zip files).members zip = .ok files :=
    if_pos rfl
  have hreset := resetPath_keep (whisperCppBin bin) f₁
  have hthere : (pathExists (whisperCppBin bin)).run f₁ = (.ok false, f₁) := by
    rw [pathExists, Script.run_get, habsent]
    rfl
  refine ⟨f, ?_, ?_, halike'⟩
  · refine Script.mem_trail_bind_ok hrelease (Script.mem_trail_bind_ok hrun ?_)
    refine Script.mem_trail_bind_ok hreset (Script.mem_trail_bind_ok hthere ?_)
    refine Script.mem_trail_bind_ok (Script.run_get _ f₁) ?_
    rw [if_neg (by simp)]
    refine List.mem_cons_of_mem _ ?_
    show f ∈ Script.trail (readFile (whisperCppZip assetName) >>= _)
      (Folder.mkdir f₁ (whisperCppBin bin))
    refine Script.mem_trail_bind_ok (Script.run_get _ _) ?_
    rw [hread, hmembers]
    exact hf
  · have hkept := sameUnder_trail (extractall_leaves hapart.symm hunder files) _ f hf
    rw [← hkept _ (under_of_mem (by simp))]
    refine Folder.fileAt_eq_some.mp ?_
    rw [Folder.fileAt_mkdir]
    exact Folder.fileAt_eq_some.mpr hzip

theorem insert_isSome {f : Folder} {q : Path} (p : Path) (node : Node)
    (h : (f.lookup q).isSome = true) : (AList.lookup q (f.insert p node)).isSome = true := by
  rw [Folder.lookup_insert]
  split_ifs
  · rfl
  · exact h

theorem mkdir_isSome {f : Folder} {q : Path} (p : Path) (h : (f.lookup q).isSome = true) :
    ((f.mkdir p).lookup q).isSome = true := by
  rw [Folder.lookup_mkdir]
  split_ifs
  · rfl
  · exact h

theorem writePieces_stays (name : Path) (pieces : List Bytes) (f : Folder) :
    ∃ g, (writePieces name pieces).run f = (.ok (), g) ∧
      ∀ q, (f.lookup q).isSome = true → (g.lookup q).isSome = true := by
  induction pieces generalizing f with
  | nil => exact ⟨f, rfl, fun _ hq => hq⟩
  | cons piece pieces ih =>
    obtain ⟨g, hrun, hstays⟩ := ih (f.insert name (.file ((f.fileAt name).getD [] ++ piece)))
    exact ⟨g, hrun, fun q hq => hstays q (insert_isSome _ _ hq)⟩

/-- At some moment of the unpacking a member is there and still empty, with every member
    before it. -/
theorem extractall_at (before after : List (Path × List Bytes)) (name : Path)
    (pieces : List Bytes) (f : Folder) :
    ∃ g ∈ (extractall [] (before ++ (name, pieces) :: after)).trail f,
      g.fileAt name = some [] ∧ (∀ file ∈ before, (g.lookup file.1).isSome = true) ∧
        ∀ q, (f.lookup q).isSome = true → (g.lookup q).isSome = true := by
  induction before generalizing f with
  | nil =>
    refine ⟨(f.mkdir name.dropLast).insert name (.file []), ?_, ?_, nofun, fun q hq => ?_⟩
    · exact List.mem_cons_of_mem _ (List.mem_cons_of_mem _ (Script.mem_trail_self _ _))
    · rw [Folder.fileAt_insert, if_pos rfl]
    · exact insert_isSome _ _ (mkdir_isSome _ hq)
  | cons file before ih =>
    obtain ⟨name', pieces'⟩ := file
    let made : Folder := (f.mkdir name'.dropLast).insert name' (.file [])
    obtain ⟨f₁, hrun, hstays⟩ := writePieces_stays name' pieces' made
    obtain ⟨g, hg, hempty, hbefore, hkept⟩ := ih f₁
    refine ⟨g, ?_, hempty, fun other hother => ?_, fun q hq => ?_⟩
    · refine List.mem_cons_of_mem _ (List.mem_cons_of_mem _ ?_)
      show g ∈ Script.trail (writePieces name' pieces' >>= fun _ =>
        extractall [] (before ++ (name, pieces) :: after)) made
      exact Script.mem_trail_bind_ok hrun hg
    · rcases List.mem_cons.mp hother with rfl | hother
      · refine hkept _ (hstays _ ?_)
        rw [Folder.lookup_insert, if_pos rfl]
        rfl
      · exact hbefore other hother
    · exact hkept q (hstays q (insert_isSome _ _ (mkdir_isSome _ hq)))

/-- Of two names in a list one comes after the other. -/
theorem exists_later {files : List (Path × Bytes)} {x y : Path} (hne : x ≠ y)
    (hx : x ∈ files.map Prod.fst) (hy : y ∈ files.map Prod.fst) :
    ∃ before file after, files = before ++ file :: after ∧
      (file.1 = x ∧ y ∈ before.map Prod.fst ∨ file.1 = y ∧ x ∈ before.map Prod.fst) := by
  obtain ⟨file, hfile, rfl⟩ := List.mem_map.mp hx
  obtain ⟨before, after, rfl⟩ := List.append_of_mem hfile
  rw [List.map_append, List.map_cons, List.mem_append, List.mem_cons] at hy
  rcases hy with hy | rfl | hy
  · exact ⟨before, file, after, rfl, .inl ⟨rfl, hy⟩⟩
  · exact absurd rfl hne
  · obtain ⟨other, hother, rfl⟩ := List.mem_map.mp hy
    obtain ⟨between, rest, rfl⟩ := List.append_of_mem hother
    refine ⟨before ++ file :: between, other, rest, by simp, .inr ⟨rfl, ?_⟩⟩
    exact List.mem_map_of_mem (List.mem_append_right _ List.mem_cons_self)

/-! ## The check and the files -/

theorem mem_assetChoices {asset : Asset} (h : asset ∈ assets) (hdown : asset.downloadable = true) :
    asset.id ∈ assetChoices := by
  have hall : ∀ asset ∈ assets, asset.downloadable = true → asset.id ∈ assetChoices := by decide
  exact hall asset h hdown

/-- Where some file is not among those of the check, a kill at the wrong moment leaves a
    folder that passes without it. -/
theorem Plan.covered_of_full {remote : Remote} (hprograms : remote.HasPrograms)
    {required : List Text} {id : AssetId} {p : Plan} (hplan : plan id = some p)
    (hchoice : id ∈ assetChoices)
    (h : ∀ w, (downloads remote).Reachable w → p.Exists required w.store → p.Full remote w.store) :
    p.Covered remote required := by
  cases p with
  | snapshot request destination =>
    intro hnames name hname
    by_contra hnone
    obtain ⟨f, hf, hthere, hmissing, hothers⟩ :=
      snapshot_killed remote request destination name
    have hreach := reachable_of_trail hplan hchoice (Env.lastly_honours remote name) hf
    have hfull := h _ hreach ⟨hthere, fun file hfile =>
      hothers [file] (hnames file hfile) fun heq => hnone ⟨file, hfile, heq.symm⟩⟩
    obtain ⟨file, hfile, rfl⟩ := List.mem_map.mp hname
    have hthere' := hfull file hfile
    rw [hmissing] at hthere'
    cases hthere'
  | file assetId filename revision sha256 =>
    intro bytes hdelivers
    obtain ⟨f, hf, hfile⟩ := file_served assetId filename revision sha256 bytes
    have hreach := reachable_of_trail hplan hchoice (Env.serving_honours hdelivers) hf
    have hfull := h _ hreach (by show (f.lookup _).isSome = true; rw [hfile]; rfl)
    exact Option.some.inj ((Folder.fileAt_eq_some.mpr hfile).symm.trans hfull)
  | archive assetName bin =>
    intro zip members hdelivers hmembers hboth
    -- the moment at which the second of the two programs is there, and empty
    have hcli : release "whisper-cli.exe" ∈ executables := List.mem_cons_self
    have hserver : release "whisper-server.exe" ∈ executables :=
      List.mem_cons_of_mem _ List.mem_cons_self
    obtain ⟨before, file, after, rfl, hlater⟩ :=
      exists_later (by decide) (hboth _ hcli) (hboth _ hserver)
    let pieces : List (Path × Bytes) → List (Path × List Bytes) := List.map fun file =>
      (file.1, [file.2])
    obtain ⟨g, hg, hempty, hbefore, -⟩ :=
      extractall_at (pieces before) (pieces after) file.1 [file.2] ∅
    have hall : pieces (before ++ file :: after) =
        pieces before ++ (file.1, [file.2]) :: pieces after := by
      simp [pieces]
    have hfiles : remote.members zip =
        some ((pieces (before ++ file :: after)).map fun file => (file.1, file.2.flatten)) := by
      rw [hmembers]
      simp [pieces, Function.comp_def]
    have hthere : ∀ name ∈ before.map Prod.fst, (g.lookup name).isSome = true := by
      intro name hname
      obtain ⟨other, hother, rfl⟩ := List.mem_map.mp hname
      exact hbefore _ (List.mem_map_of_mem (f := fun file => (file.1, [file.2])) hother)
    have hfile : (g.lookup file.1).isSome = true := by
      rw [Folder.fileAt_eq_some.mp hempty]
      rfl
    obtain ⟨f, hf, hzip, halike⟩ := archive_killed (archive_apart hplan) hfiles (hall ▸ hg)
    have hreach := reachable_of_trail hplan hchoice (Env.unpacking_honours hdelivers hfiles) hf
    have hexists : Plan.Exists required f (.archive assetName bin) := by
      refine ⟨?_, ?_⟩ <;> rw [halike.2 _ (release_ne _)]
      · rcases hlater with ⟨heq, -⟩ | ⟨-, hcli⟩
        · exact heq ▸ hfile
        · exact hthere _ hcli
      · rcases hlater with ⟨-, hserver⟩ | ⟨heq, -⟩
        · exact hthere _ hserver
        · exact heq ▸ hfile
    obtain ⟨hwhole, hfull⟩ := h _ hreach hexists
    obtain rfl : zip = _ := Option.some.inj ((Folder.fileAt_eq_some.mpr hzip).symm.trans hwhole)
    have hmember : file ∈ before ++ file :: after :=
      List.mem_append_right _ List.mem_cons_self
    have hprogram : file.1 ∈ executables ∧ file.1 ≠ [] := by
      rcases hlater with ⟨heq, -⟩ | ⟨heq, -⟩ <;> rw [heq]
      · exact ⟨hcli, release_ne _⟩
      · exact ⟨hserver, release_ne _⟩
    have hbytes := hfull file (by rw [hmembers]; exact hmember)
    have hempty' : f.fileAt (whisperCppBin bin ++ file.1) = some [] := by
      rw [← hempty]
      unfold Folder.fileAt
      rw [halike.2 _ hprogram.2]
    rw [hempty'] at hbytes
    exact (hprograms _ _ hmembers file.1 hprogram.1 file hmember (List.prefix_refl _)).2
      (Option.some.inj hbytes).symm

/-- **When what the check finds is complete.** After any downloads, in any order and at the
    same time, each of which may be killed after any of its actions: an asset that the check
    finds has all its files in full if and only if the files of the check are all the
    files its download writes (`Plan.Covered`). -/
theorem check_complete_iff (remote : Remote) (asset : Asset) (hasset : asset ∈ assets)
    (hdown : asset.downloadable = true) (hprograms : remote.HasPrograms) :
    ∃ p, plan asset.id = some p ∧
      ((∀ w, (downloads remote).Reachable w → (asset.check w.store).exists_ = true →
          p.Full remote w.store) ↔ p.Covered remote (requiredFiles asset.id)) := by
  obtain ⟨p, hplan, hexists⟩ := check_exists_iff hasset hdown
  refine ⟨p, hplan, ?_, ?_⟩
  · intro h
    refine Plan.covered_of_full hprograms hplan (mem_assetChoices hasset hdown) fun w hw hw' => ?_
    exact h w hw ((hexists w.store).mpr hw')
  · intro hcovered w hw hw'
    exact hcovered.full hprograms (plan_inv hplan hw) ((hexists w.store).mp hw')

/-- One model file in every repository, and connections that deliver everything. -/
def someRemote : Remote where
  snapshot _ := [(["model.safetensors".toList], [1, 2, 3])]
  named _ := by simp
  distinct _ := by simp
  content _ := [1, 2, 3]
  releaseUrl _ assetName := assetName
  members _ := none
  membersNamed _ _ h := by cases h
  cutsShort := false

/-- The small whisper.cpp model of the table. -/
def whisperCppModelAsset : Asset where
  id := .whisperCppModel
  label := "whisper.cpp small model".toList
  relativePath := "whisper_cpp/models/ggml-small.bin".toList
  downloadable := true
  note := none

/-- The release has an archive of the two programs. -/
def releaseRemote : Remote :=
  { someRemote with
    members := fun zip => if zip = [1, 2, 3] then some [(release "whisper-cli.exe", [1]),
      (release "whisper-server.exe", [2])] else none
    membersNamed := by
      intro zip files hfiles file hfile
      split_ifs at hfiles
      obtain rfl := Option.some.inj hfiles
      rcases List.mem_pair.mp hfile with rfl | rfl <;> exact release_ne _ }

theorem releaseRemote_hasPrograms : releaseRemote.HasPrograms := by
  intro zip members hmembers program hprogram file hfile hpre
  simp only [releaseRemote] at hmembers
  split_ifs at hmembers
  obtain rfl := Option.some.inj hmembers
  rcases List.mem_pair.mp hprogram with rfl | rfl <;>
    rcases List.mem_pair.mp hfile with rfl | rfl
  · exact ⟨rfl, by decide⟩
  · exact absurd hpre (by decide)
  · exact absurd hpre (by decide)
  · exact ⟨rfl, by decide⟩

/-- The check is right about the small model and wrong about the archive. -/
theorem check_complete_iff_release :
    (∃ w, (downloads releaseRemote).Reachable w ∧
      (whisperCppModelAsset.check w.store).exists_ = true ∧
      w.store.fileAt (whisperCppModelFile "ggml-small.bin") = some [1, 2, 3]) ∧
    ¬∀ w, (downloads releaseRemote).Reachable w → (assets[4].check w.store).exists_ = true →
      Plan.Full releaseRemote w.store (.archive whisperCppCpuAsset "bin_cpu") := by
  constructor
  · have hin : whisperCppModelAsset ∈ assets := List.mem_of_getElem? (i := 11) rfl
    obtain ⟨p, hplan, hiff⟩ := check_complete_iff releaseRemote whisperCppModelAsset hin rfl
      releaseRemote_hasPrograms
    obtain rfl := Option.some.inj hplan
    have hcovered : Plan.Covered releaseRemote (requiredFiles whisperCppModelAsset.id)
        (.file .whisperCppModel "ggml-small.bin" "main" none) := by
      intro bytes hdelivers
      rcases hdelivers with rfl | ⟨hcuts, -⟩
      · rfl
      · cases hcuts
    obtain ⟨f, hf, hfile⟩ :=
      file_served .whisperCppModel "ggml-small.bin" "main" none [1, 2, 3]
    have hdelivers : releaseRemote.Delivers (hfUrl "ggerganov/whisper.cpp".toList "main".toList
      "ggml-small.bin".toList) [1, 2, 3] := .inl rfl
    have hreach := reachable_of_trail hplan (by decide) (Env.serving_honours hdelivers) hf
    have hpath : joined whisperCppModelAsset.relativePath =
        whisperCppModelFile "ggml-small.bin" := by decide
    have hexists : (whisperCppModelAsset.check f).exists_ = true := by
      refine (file_exists_iff f _ .whisperCppModel "main" none (by decide) rfl hpath).mpr ?_
      show (f.lookup (whisperCppModelFile "ggml-small.bin")).isSome = true
      rw [hfile]
      rfl
    exact ⟨_, hreach, hexists, hiff.mpr hcovered _ hreach hexists⟩
  · intro hfull
    have hin : assets[4] ∈ assets := List.getElem_mem _
    obtain ⟨p, hplan, hiff⟩ := check_complete_iff releaseRemote assets[4] hin rfl
      releaseRemote_hasPrograms
    obtain rfl := Option.some.inj hplan
    refine hiff.mp hfull [1, 2, 3] _ (.inl rfl) rfl fun program hprogram => ?_
    rcases List.mem_pair.mp hprogram with rfl | rfl <;> decide

theorem paused_download_exists : ¬ ∀ (remote : Remote) (asset : Asset) (p : Plan), asset ∈ assets →
    asset.downloadable = true → plan asset.id = some p →
    ∀ w, (downloads remote).Reachable w → (asset.check w.store).exists_ = true →
      p.Full remote w.store := by
  intro h
  let request : Snapshot := ⟨"Qwen/Qwen3-ASR-0.6B".toList, none, none⟩
  obtain ⟨f, hf, hthere, hmissing, -⟩ := snapshot_killed someRemote request
    (modelFolder "Qwen3-ASR-0.6B") ["model.safetensors".toList]
  have hplan : plan .qwen = some (.snapshot request (modelFolder "Qwen3-ASR-0.6B")) := rfl
  have hreach := reachable_of_trail hplan (by decide)
    (Env.lastly_honours someRemote ["model.safetensors".toList]) hf
  have hin : assets[0] ∈ assets := List.getElem_mem _
  have hexists : (assets[0].check f).exists_ = true :=
    (snapshot_exists_iff f assets[0] request (by decide) (by decide)).mpr
      ⟨hthere, fun file hfile => absurd hfile List.not_mem_nil⟩
  have hfull := h someRemote assets[0] _ hin rfl rfl _ hreach hexists _ List.mem_cons_self
  rw [hmissing] at hfull
  cases hfull

end Assets
end LocalMeetingStt
