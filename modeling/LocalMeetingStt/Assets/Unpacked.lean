import LocalMeetingStt.Assets.Retry

/-!
# Running an archive's download again (`download_assets.py`, `extract_zip`)

The archives of whisper.cpp are downloaded and then unpacked member by member. A run may be
killed at any point of the unpacking (`extractions`), and the next one looks at the folder
alone: **anything in it counts as everything**. `rerun_iff` says that a run completes the
folder exactly when there was nothing in it to complete.
-/

namespace LocalMeetingStt
namespace Assets

open LittleEndian

/-! ## What a run is given -/

/-- The release has the archive under `url`, nothing interrupts its download, and it unpacks
    to `members`. -/
structure Env.Unpacks (env : Env) (assetName url : Text) (zip : Bytes)
    (members : List (Path × Bytes)) : Prop where
  release : ∃ assets, env.release whisperCppRelease = .ok assets ∧
    assets.find? (fun asset => asset.1 = assetName) = some (assetName, url)
  uncut : ∃ ranges, Uncut env.urlopen url zip ranges
  members : ∃ files, env.members zip = .ok files ∧
    files.map (fun file => (file.1, file.2.flatten)) = members

/-- Every member is there with all its bytes. Of several of one name the last one counts,
    which is unpacked over the others. -/
def Extracted (members : List (Path × Bytes)) (bin : Path) (f : Folder) : Prop :=
  ∀ before name bytes after, members = before ++ (name, bytes) :: after →
    name ∉ after.map Prod.fst → f.fileAt (bin ++ name) = some bytes

/-- Where no two have one name, every one of them counts. -/
theorem extracted_iff {members : List (Path × Bytes)} (hdistinct : (members.map Prod.fst).Nodup)
    {bin : Path} {f : Folder} :
    Extracted members bin f ↔ ∀ member ∈ members, f.fileAt (bin ++ member.1) = some member.2 := by
  constructor
  · intro h member hmember
    obtain ⟨before, after, rfl⟩ := List.append_of_mem hmember
    refine h before member.1 member.2 after rfl ?_
    rw [List.map_append, List.map_cons] at hdistinct
    exact (List.nodup_cons.mp (List.nodup_append.mp hdistinct).2.1).1
  · rintro h before name bytes after rfl -
    exact h (name, bytes) (List.mem_append_right _ List.mem_cons_self)

/-! ## Unpacking -/

theorem writePieces_run {p : Path} (pieces : List Bytes) {f : Folder} {old : Bytes}
    (h : f.fileAt p = some old) :
    ∃ g, (writePieces p pieces).run f = (.ok (), g) ∧
      ∀ q, g.fileAt q = if q = p then some (old ++ pieces.flatten) else f.fileAt q := by
  induction pieces generalizing f old with
  | nil =>
    refine ⟨f, rfl, fun q => ?_⟩
    split_ifs with heq
    · rw [heq, h, List.flatten_nil, List.append_nil]
    · rfl
  | cons piece pieces ih =>
    have hnext : Folder.fileAt (f.insert p (.file (old ++ piece))) p = some (old ++ piece) := by
      rw [Folder.fileAt_insert, if_pos rfl]
    obtain ⟨g, hrun, hfiles⟩ := ih hnext
    refine ⟨g, ?_, fun q => ?_⟩
    · have hold : (f.fileAt p).getD [] = old := by rw [h]; rfl
      simpa [writePieces, append, Script.run_bind, hold] using hrun
    · rw [hfiles, Folder.fileAt_insert]
      split_ifs
      · rw [List.flatten_cons, List.append_assoc]
      · rfl

/-- Unpacking writes the members and no other file. -/
theorem extractall_run (bin : Path) (files : List (Path × List Bytes)) (f : Folder) :
    ∃ g, (extractall bin files).run f = (.ok (), g) ∧
      Extracted (files.map fun file => (file.1, file.2.flatten)) bin g ∧
      ∀ name, name ∉ files.map Prod.fst → g.fileAt (bin ++ name) = f.fileAt (bin ++ name) := by
  induction files generalizing f with
  | nil =>
    refine ⟨f, rfl, fun before name bytes after heq => ?_, fun _ _ => rfl⟩
    simp at heq
  | cons file files ih =>
    obtain ⟨name, pieces⟩ := file
    let made : Folder := (f.mkdir (bin ++ name).dropLast).insert (bin ++ name) (.file [])
    have hmade : ∀ q, made.fileAt q = if q = bin ++ name then some [] else f.fileAt q := by
      intro q
      rw [Folder.fileAt_insert, Folder.fileAt_mkdir]
    obtain ⟨f₁, hwritten, hfiles₁⟩ := writePieces_run pieces
      (by rw [hmade, if_pos rfl] : made.fileAt (bin ++ name) = some [])
    obtain ⟨g, hrun, hextracted, hothers⟩ := ih f₁
    refine ⟨g, ?_, fun before name' bytes after heq hlast => ?_, fun name' hname' => ?_⟩
    · simpa [extractall, mkdir, create, put, Script.run_bind, hwritten, made] using hrun
    · cases before with
      | nil =>
        -- No member after this one has its name.
        obtain ⟨hfile, rfl⟩ := List.cons.inj heq
        obtain ⟨rfl, rfl⟩ := Prod.mk.inj hfile
        rw [List.map_map] at hlast
        rw [hothers name hlast, hfiles₁, if_pos rfl, List.nil_append]
      | cons first before => exact hextracted before name' bytes after (List.cons.inj heq).2 hlast
    · obtain ⟨hne, hname'⟩ := not_or.mp (List.mem_cons.not.mp hname')
      rw [hothers name' hname', hfiles₁, if_neg (by simpa using hne), hmade,
        if_neg (by simpa using hne)]

section

variable {env : Env} {zipPath bin : Path} {zip : Bytes} {f : Folder}

/-- The folder counts as unpacked. -/
def Occupied (bin : Path) (f : Folder) : Prop := f.lookup bin ≠ none ∧ f.anyIn bin = true

theorem extractZip_skips (env : Env) (zipPath : Path) (h : Occupied bin f) :
    (extractZip env zipPath bin false).run f = (.ok (), f) := by
  have hthere : (f.lookup bin).isSome = true := Option.isSome_iff_ne_none.mpr h.1
  simp [extractZip, resetPath_keep, Script.run_bind, pathExists, anyIn, hthere, h.2]

/-- Of what is no archive nothing is unpacked. -/
theorem extractZip_refuses {error : Text} (hmembers : env.members zip = .error error)
    (hzip : f.fileAt zipPath = some zip) (h : ¬Occupied bin f) :
    (extractZip env zipPath bin false).run f = (.error error, f.mkdir bin) := by
  have hread : (Folder.fileAt (f.mkdir bin) zipPath).getD [] = zip := by
    rw [Folder.fileAt_mkdir, hzip, Option.getD_some]
  have hnot : ¬((f.lookup bin).isSome = true ∧ f.anyIn bin = true) :=
    fun hboth => h ⟨Option.isSome_iff_ne_none.mp hboth.1, hboth.2⟩
  simp [extractZip, resetPath_keep, Script.run_bind, pathExists, anyIn, hnot, mkdir, readFile,
    hread, hmembers]

theorem extractZip_extracts {files : List (Path × List Bytes)}
    (hmembers : env.members zip = .ok files) (hzip : f.fileAt zipPath = some zip)
    (h : ¬Occupied bin f) :
    ∃ g, (extractZip env zipPath bin false).run f = (.ok (), g) ∧
      Extracted (files.map fun file => (file.1, file.2.flatten)) bin g := by
  obtain ⟨g, hrun, hextracted, -⟩ := extractall_run bin files (f.mkdir bin)
  have hread : (Folder.fileAt (f.mkdir bin) zipPath).getD [] = zip := by
    rw [Folder.fileAt_mkdir, hzip, Option.getD_some]
  have hnot : ¬((f.lookup bin).isSome = true ∧ f.anyIn bin = true) :=
    fun hboth => h ⟨Option.isSome_iff_ne_none.mp hboth.1, hboth.2⟩
  refine ⟨g, ?_, hextracted⟩
  simpa [extractZip, resetPath_keep, Script.run_bind, pathExists, anyIn, hnot, mkdir, readFile,
    hread, hmembers] using hrun

end

/-! ## Runs that are killed while they unpack -/

/-- Any number of runs, forced or not, each killed after any action of the unpacking. -/
def extractions (assetName : Text) (bin : String) (url : Text) (zip : Bytes)
    (members : List (Path × Bytes)) : Transition.System Folder where
  init f := f.lookup (whisperCppZip assetName) = none ∧
    f.lookup (partOf (whisperCppZip assetName)) = none ∧ Below (whisperCppBin bin) f ∅
  next f g := ∃ env force f', env.Unpacks assetName url zip members ∧
    (downloadUrl env.urlopen url (whisperCppZip assetName) force).run f = (.ok (), f') ∧
      g ∈ (extractZip env (whisperCppZip assetName) (whisperCppBin bin) force).trail f'

/-- The archive is there, or nothing of it. -/
structure Fetched (url : Text) (zip : Bytes) (d : Path) (f : Folder) : Prop where
  file : FileInv (Remote.ofContent zip) url d f
  there : f.lookup d = some (.file zip) ∨ f.lookup d = none ∧ f.lookup (partOf d) = none

theorem Fetched.run {url : Text} {zip : Bytes} {d : Path} {f : Folder}
    (h : Fetched url zip d f) (hd : d ≠ []) {urlopen : Request → Except Text Response}
    {ranges : Bool} (hserver : Uncut urlopen url zip ranges) (force : Bool) :
    ∃ g, (downloadUrl urlopen url d force).run f = (.ok (), g) ∧ Fetched url zip d g ∧
      g.lookup d = some (.file zip) := by
  have hfinishable : Finishable ranges force zip d f := by
    refine .inr (h.there.imp_right fun hnothing => ⟨hnothing.1, .inr (.inr ?_)⟩)
    simp [Folder.fileAt, hnothing.2]
  obtain ⟨g, hrun, hzip⟩ := (finishes_iff hserver hd h.file).mpr hfinishable
  have hfile := Script.wp_trail (downloadUrl_wp hserver.standard.connects hd force h.file) g
    (Script.mem_trail_of_run hrun)
  exact ⟨g, hrun, ⟨hfile, .inl hzip⟩, hzip⟩

section

variable {id : AssetId} {assetName : Text} {bin : String} {url : Text} {zip : Bytes}
  {members : List (Path × Bytes)} {f : Folder}

theorem extractions_fetched (hplan : plan id = some (.archive assetName bin))
    (h : (extractions assetName bin url zip members).Reachable f) :
    Fetched url zip (whisperCppZip assetName) f := by
  have hd : whisperCppZip assetName ≠ [] := List.cons_ne_nil _ _
  induction h with
  | start hinit =>
    obtain ⟨hnone, hpart, -⟩ := hinit
    exact ⟨.of_nothing hnone hpart, .inr ⟨hnone, hpart⟩⟩
  | next _ hnext ih =>
    obtain ⟨env, force, f', henv, hrun, hcut⟩ := hnext
    obtain ⟨ranges, hserver⟩ := henv.uncut
    obtain ⟨f'', hrun', hfetched, hzip⟩ := ih.run hd hserver force
    obtain rfl : f' = f'' := congrArg Prod.snd (hrun.symm.trans hrun')
    -- The unpacking leaves the archive as it is.
    have hleaves : (extractZip env (whisperCppZip assetName) (whisperCppBin bin) force).Leaves
        (SameUnder [whisperCppZip assetName, partOf (whisperCppZip assetName)]) :=
      extractZip_leaves (archive_apart hplan).symm (under_of_mem (List.mem_singleton_self _)) force
    have hsame := sameUnder_trail hleaves f' _ hcut
    refine ⟨hfetched.file.congr hsame, .inl ?_⟩
    rw [← hsame _ (under_of_mem (by simp)), hzip]

/-- The run is the unpacking, of a folder in which the archive is there. -/
theorem downloadAssets_unpacks (hplan : plan id = some (.archive assetName bin)) {env : Env}
    (henv : env.Unpacks assetName url zip members)
    (h : Fetched url zip (whisperCppZip assetName) f) :
    ∃ f', f'.fileAt (whisperCppZip assetName) = some zip ∧ SameUnder [whisperCppBin bin] f f' ∧
      (downloadAssets env (onlyArgs id)).run f =
        (extractZip env (whisperCppZip assetName) (whisperCppBin bin) false).run f' := by
  have hd : whisperCppZip assetName ≠ [] := List.cons_ne_nil _ _
  obtain ⟨ranges, hserver⟩ := henv.uncut
  obtain ⟨assets, hrelease, hasset⟩ := henv.release
  obtain ⟨f', hrun, -, hzip⟩ := h.run hd hserver false
  have hurl : (githubReleaseAssetUrl env whisperCppRelease assetName).run f = (.ok url, f) := by
    simp [githubReleaseAssetUrl, hrelease, hasset]
  have hleaves : (downloadUrl env.urlopen url (whisperCppZip assetName) false).Leaves
      (SameUnder [whisperCppBin bin]) :=
    downloadUrl_leaves _ ((archive_apart hplan).not_under (under_of_mem (by simp)))
      ((archive_apart hplan).not_under (under_of_mem (by simp)))
  refine ⟨f', Folder.fileAt_eq_some.mpr hzip,
    sameUnder_trail hleaves f f' (Script.mem_trail_of_run hrun), ?_⟩
  rw [downloadAssets_only env hplan, Plan.script, downloadArchive, Script.run_bind, hurl]
  simp only [Script.run_bind, hrun]

/-- What is unpacked is all below the folder. -/
theorem Extracted.congr {bin : Path} {f g : Folder} (hsame : SameUnder [bin] f g) :
    Extracted members bin f ↔ Extracted members bin g := by
  have hfile : ∀ name, f.fileAt (bin ++ name) = g.fileAt (bin ++ name) := fun name =>
    hsame.fileAt ((under_of_mem (List.mem_singleton_self bin)).append name)
  simp only [Extracted, hfile]

theorem Occupied.congr {bin : Path} {f g : Folder} (hsame : SameUnder [bin] f g) :
    Occupied bin f ↔ Occupied bin g := by
  have hbin : Under [bin] bin := under_of_mem (List.mem_singleton_self bin)
  rw [Occupied, Occupied, hsame bin hbin]
  refine and_congr_right fun _ => ?_
  rw [Folder.anyIn_iff, Folder.anyIn_iff]
  exact exists_congr fun name => by rw [hsame _ (hbin.append [name])]

/-- **A run that nothing interrupts completes the folder, exactly when** the folder is not
    there, or is empty, or is complete already. -/
theorem rerun_iff (hplan : plan id = some (.archive assetName bin))
    (h : (extractions assetName bin url zip members).Reachable f) {env : Env}
    (henv : env.Unpacks assetName url zip members) :
    (∃ g, (downloadAssets env (onlyArgs id)).run f = (.ok (), g) ∧
      Extracted members (whisperCppBin bin) g) ↔
      (f.lookup (whisperCppBin bin) = none ∨ f.anyIn (whisperCppBin bin) = false ∨
        Extracted members (whisperCppBin bin) f) := by
  obtain ⟨f', hzip, hsame, hrun⟩ :=
    downloadAssets_unpacks hplan henv (extractions_fetched hplan h)
  obtain ⟨files, hfiles, rfl⟩ := henv.members
  have hoccupied : Occupied (whisperCppBin bin) f' ↔
      ¬(f.lookup (whisperCppBin bin) = none ∨ f.anyIn (whisperCppBin bin) = false) := by
    rw [← Occupied.congr hsame, Occupied, not_or, Bool.not_eq_false]
  rw [hrun, ← or_assoc]
  by_cases hskip : Occupied (whisperCppBin bin) f'
  · rw [extractZip_skips env _ hskip, or_iff_right (hoccupied.mp hskip), Extracted.congr hsame]
    constructor
    · rintro ⟨g, heq, hextracted⟩
      rwa [show f' = g from congrArg Prod.snd heq]
    · exact fun hextracted => ⟨f', rfl, hextracted⟩
  · obtain ⟨g, hextract, hextracted⟩ := extractZip_extracts hfiles hzip hskip
    rw [hextract]
    exact iff_of_true ⟨g, rfl, hextracted⟩ (.inl (not_not.mp (hoccupied.not.mp hskip)))

end

/-- An archive of two members. -/
def twoMembers : Env where
  urlopen := standardServer [0] true
  release _ := .ok [(whisperCppCpuAsset, [])]
  snapshotDownload _ := ([], none)
  members _ := .ok [(["a.dll".toList], [[1]]), (["b.dll".toList], [[2]])]
  sha256 _ := []

theorem twoMembers_unpacks : twoMembers.Unpacks whisperCppCpuAsset [] [0]
    [(["a.dll".toList], [1]), (["b.dll".toList], [2])] where
  release := ⟨_, rfl, rfl⟩
  uncut := ⟨true, standardServer_uncut [] [0] true⟩
  members := ⟨_, rfl, rfl⟩

theorem rerun_iff_first :
    ∃ g, (downloadAssets twoMembers (onlyArgs .whisperCppCpu)).run ∅ = (.ok (), g) ∧
      Extracted [(["a.dll".toList], [1]), (["b.dll".toList], [2])] (whisperCppBin "bin_cpu") g :=
  (rerun_iff (show plan .whisperCppCpu = some (.archive whisperCppCpuAsset "bin_cpu") from rfl)
    (.start ⟨rfl, rfl, fun _ _ => rfl⟩) twoMembers_unpacks).mpr (.inl rfl)

/-- The archive is there, and the first member of it is unpacked. -/
def halfUnpacked : Folder :=
  ((((downloadUrl twoMembers.urlopen [] (whisperCppZip whisperCppCpuAsset) false).run ∅).2.mkdir
    (whisperCppBin "bin_cpu")).mkdir (whisperCppBin "bin_cpu")).insert
      (whisperCppBin "bin_cpu" ++ ["a.dll".toList]) (.file [1])

theorem halfUnpacked_reachable : (extractions whisperCppCpuAsset "bin_cpu" [] [0]
    [(["a.dll".toList], [1]), (["b.dll".toList], [2])]).Reachable halfUnpacked := by
  have hfresh : (extractions whisperCppCpuAsset "bin_cpu" [] [0]
      [(["a.dll".toList], [1]), (["b.dll".toList], [2])]).Reachable ∅ :=
    .start ⟨rfl, rfl, fun _ _ => rfl⟩
  refine .next hfresh ⟨twoMembers, false, _, twoMembers_unpacks, rfl, ?_⟩
  exact List.mem_of_getElem? (i := 4) rfl

theorem half_unpacked_kept :
    ¬ ∀ (id : AssetId) (assetName : Text) (bin : String) (url : Text) (zip : Bytes)
      (members : List (Path × Bytes)) (f : Folder) (env : Env),
      plan id = some (.archive assetName bin) →
      (extractions assetName bin url zip members).Reachable f →
      env.Unpacks assetName url zip members →
      ∃ g, (downloadAssets env (onlyArgs id)).run f = (.ok (), g) ∧
        Extracted members (whisperCppBin bin) g := by
  intro h
  obtain ⟨g, hrun, hextracted⟩ := h .whisperCppCpu _ _ _ _ _ _ _ rfl halfUnpacked_reachable
    twoMembers_unpacks
  obtain rfl : halfUnpacked = g := congrArg Prod.snd hrun
  have hmissing : halfUnpacked.fileAt (whisperCppBin "bin_cpu" ++ ["b.dll".toList]) = none := rfl
  rw [hextracted [(["a.dll".toList], [1])] _ [2] [] rfl List.not_mem_nil] at hmissing
  cases hmissing

end Assets
end LocalMeetingStt
