import LocalMeetingStt.Assets.Check
import LocalMeetingStt.Assets.Unpacked

/-!
# Downloads side by side

The Settings page downloads any of its assets at the same time. No two of the downloads
touch the same path, so what the list shows of an asset changes only by its own download
(`status_isolated`), and what its download has brought when it came to its end is there
until it is started again, whatever becomes of the others (`finished_download`). Two things
can make of a run that ends less than it should have been: a connection that was cut and taken
for one that ended, and a half-unpacked folder that was taken for a whole one. Both are ruled
out here by name.
-/

namespace LocalMeetingStt
namespace Assets

open LittleEndian Transition

/-! ## What a status depends on -/

/-- All the check looks up is whether the asset is there. -/
theorem Asset.check_congr {f g : Folder} (asset : Asset)
    (h : (asset.check f).exists_ = (asset.check g).exists_) : asset.check f = asset.check g := by
  show { asset.check g with exists_ := (asset.check f).exists_ } = asset.check g
  rw [h]

theorem Plan.Exists.congr {p : Plan} {required : List Text} {f g : Folder}
    (h : SameUnder p.roots f g) (hf : p.Exists required f) : p.Exists required g := by
  cases p with
  | snapshot request destination =>
    obtain ⟨hthere, hfiles⟩ := hf
    refine ⟨?_, ?_⟩
    · rw [← h _ Plan.under_destination]
      exact hthere
    · intro file hfile
      rw [← h.fileAt (Plan.under_destination.append [file])]
      exact hfiles file hfile
  | file assetId filename revision sha256 =>
    show (g.lookup (whisperCppModelFile filename)).isSome = true
    rw [← h _ Plan.under_model]
    exact hf
  | archive assetName bin =>
    obtain ⟨hcli, hserver⟩ := hf
    refine ⟨?_, ?_⟩
    · rw [← h _ (Plan.under_bin.append (release "whisper-cli.exe"))]
      exact hcli
    · rw [← h _ (Plan.under_bin.append (release "whisper-server.exe"))]
      exact hserver

theorem SameUnder.symm {roots : List Path} {f g : Folder} (h : SameUnder roots f g) :
    SameUnder roots g f :=
  fun p hp => (h p hp).symm

theorem downloadable_of_plan {asset : Asset} (hasset : asset ∈ assets) {p : Plan}
    (hplan : plan asset.id = some p) : asset.downloadable = true := by
  simp only [assets, List.mem_cons, List.not_mem_nil, or_false] at hasset
  rcases hasset with rfl | rfl | rfl | rfl | rfl | rfl | rfl | rfl | rfl | rfl | rfl | rfl <;>
    first
    | rfl
    | cases hplan

/-- The status of what can be downloaded is read off the paths its download writes. -/
theorem check_plan {asset : Asset} (hasset : asset ∈ assets) {p : Plan}
    (hplan : plan asset.id = some p) {f g : Folder} (h : SameUnder p.roots f g) :
    asset.check f = asset.check g := by
  obtain ⟨q, hq, hexists⟩ := check_exists_iff hasset (downloadable_of_plan hasset hplan)
  obtain rfl := Option.some.inj (hplan.symm.trans hq)
  apply Asset.check_congr
  rw [Bool.eq_iff_iff, hexists, hexists]
  exact ⟨fun hf => hf.congr h, fun hg => hg.congr h.symm⟩

/-- What is built locally. -/
theorem local_unplanned {asset : Asset} (hasset : asset ∈ assets)
    (hlocal : asset.downloadable = false) :
    plan asset.id = none ∧ ¬ (asset.id = .whisperCppCpu ∨ asset.id = .whisperCppCuda) ∧
      requiredFiles asset.id = [] := by
  simp only [assets, List.mem_cons, List.not_mem_nil, or_false] at hasset
  rcases hasset with rfl | rfl | rfl | rfl | rfl | rfl | rfl | rfl | rfl | rfl | rfl | rfl <;>
    first
    | exact ⟨rfl, by decide, rfl⟩
    | cases hlocal

/-- No download writes what is built locally. -/
theorem local_apart {asset : Asset} (hasset : asset ∈ assets) (hlocal : asset.downloadable = false)
    {id : AssetId} {p : Plan} (hplan : plan id = some p) :
    Apart [joined asset.relativePath] p.roots := by
  simp only [assets, List.mem_cons, List.not_mem_nil, or_false] at hasset
  rcases hasset with rfl | rfl | rfl | rfl | rfl | rfl | rfl | rfl | rfl | rfl | rfl | rfl <;>
    first
    | (cases id <;> cases hplan <;> (unfold Apart; decide))
    | cases hlocal

theorem check_local {asset : Asset} (hasset : asset ∈ assets) (hlocal : asset.downloadable = false)
    {f g : Folder} (h : SameUnder [joined asset.relativePath] f g) :
    asset.check f = asset.check g := by
  obtain ⟨-, hprogram, hrequired⟩ := local_unplanned hasset hlocal
  apply Asset.check_congr
  rw [Bool.eq_iff_iff, Asset.exists_iff, Asset.exists_iff, hrequired,
    h _ (under_of_mem List.mem_cons_self)]
  refine and_congr_right fun _ => ⟨fun _ => ⟨?_, ?_⟩, fun _ => ⟨?_, ?_⟩⟩
  · exact fun hneeds => absurd hneeds hprogram
  · exact fun file hfile => absurd hfile List.not_mem_nil
  · exact fun hneeds => absurd hneeds hprogram
  · exact fun file hfile => absurd hfile List.not_mem_nil

/-! ## Only its own download changes a status -/

section

variable {remote : Remote} {asset : Asset} {w w' : Farm.State Folder Text AssetId}

/-- A stretch of a run in which the download of one asset rests. -/
def Rests (remote : Remote) (id : AssetId) :
    Farm.State Folder Text AssetId → Farm.State Folder Text AssetId → Prop :=
  Relation.ReflTransGen ((downloads remote).restrict fun s _ => Farm.Quiet (s.running id)).next

/-- What the downloads of the other assets leave alone. -/
theorem programs_leave (remote : Remote) (id : AssetId) (roots : List Path)
    (hapart : ∀ j q, j ≠ id → plan j = some q → Apart roots q.roots) :
    ∀ j, j ≠ id → ∀ x, programs remote j x → x.Leaves (SameUnder roots) := by
  intro j hne x hx
  obtain ⟨q, env, hq, -, rfl⟩ := programs_plan hx
  exact q.script_leaves env (hapart j q hne hq)

/-! A download that runs alone. -/

/-- The small model is served. -/
def servingModel : Env :=
  Env.serving (hfUrl "ggerganov/whisper.cpp".toList "main".toList "ggml-small.bin".toList) [1, 2, 3]

theorem servingModel_honours : servingModel.Honours someRemote :=
  Env.serving_honours (.inl rfl)

theorem servingModel_program : programs someRemote .whisperCppModel
    (downloadAssets servingModel (onlyArgs .whisperCppModel)) :=
  ⟨by decide, servingModel, servingModel_honours, rfl⟩

theorem servingModel_run :
    ∃ g, (downloadAssets servingModel (onlyArgs .whisperCppModel)).run ∅ = (.ok (), g) ∧
      g.lookup (whisperCppModelFile "ggml-small.bin") = some (.file [1, 2, 3]) := by
  have hd : whisperCppModelFile "ggml-small.bin" ≠ [] := List.cons_ne_nil _ _
  obtain ⟨g, hrun, hfile⟩ := serving_run _ [1, 2, 3] hd servingModel rfl
  refine ⟨g, ?_, hfile⟩
  rw [downloadAssets_only servingModel rfl]
  exact (congrArg (Script.run · ∅) (Script.bind_pure_unit _)).trans hrun

def atRest : Farm.State Folder Text AssetId := ⟨∅, fun _ => none⟩

/-- **Only its own download changes a status.** However the downloads interleave and wherever
    they are killed, the list shows the same of an asset as long as its own download rests,
    and it never shows a local build that is not there. -/
theorem status_isolated (hasset : asset ∈ assets) (hw : (downloads remote).Reachable w)
    (hrest : Rests remote asset.id w w') :
    asset.check w'.store = asset.check w.store ∧
      (asset.downloadable = false → (asset.check w.store).exists_ = false) := by
  cases hdown : asset.downloadable with
  | true =>
    obtain ⟨p, hplan, -⟩ := check_exists_iff hasset hdown
    have hothers := programs_leave remote asset.id p.roots fun j q hne hq =>
      plans_apart hplan hq hne
    have hkeep : ∀ f g, SameUnder p.roots f g → asset.check f = asset.check w.store →
        asset.check g = asset.check w.store := by
      intro f g hsame hf
      exact (check_plan hasset hplan hsame).symm.trans hf
    exact ⟨Farm.undisturbed hothers hkeep hw hrest rfl, fun hlocal => Bool.noConfusion hlocal⟩
  | false =>
    have hothers := programs_leave remote asset.id [joined asset.relativePath] fun j q _ hq =>
      local_apart hasset hdown hq
    have hkeep : ∀ f g, SameUnder [joined asset.relativePath] f g →
        asset.check f = asset.check w.store → asset.check g = asset.check w.store := by
      intro f g hsame hf
      exact (check_local hasset hdown hsame).symm.trans hf
    have hnever : ∀ x, ¬ programs remote asset.id x := by
      intro x hx
      obtain ⟨q, env, hq, -⟩ := programs_plan hx
      rw [(local_unplanned hasset hdown).1] at hq
      cases hq
    have hmissing : ∀ f g, SameUnder [joined asset.relativePath] f g →
        (asset.check f).exists_ = false → (asset.check g).exists_ = false := by
      intro f g hsame hf
      rw [← check_local hasset hdown hsame]
      exact hf
    refine ⟨Farm.undisturbed hothers hkeep hw hrest rfl, fun _ => ?_⟩
    exact Farm.interleaved (fun x hx => absurd hx (hnever x)) (fun x hx => absurd hx (hnever x))
      hothers hmissing rfl hw

theorem status_isolated_model : ∃ w', Rests someRemote .qwen atRest w' ∧
    w'.store.lookup (whisperCppModelFile "ggml-small.bin") = some (.file [1, 2, 3]) ∧
    assets[0].check w'.store = assets[0].check ∅ := by
  obtain ⟨g, hrun, hfile⟩ := servingModel_run
  have hrest : Rests someRemote .qwen atRest
      ⟨g, Function.update atRest.running .whisperCppModel (some (.pure ()))⟩ :=
    Farm.runs_alone rfl servingModel_program .idle (fun _ _ _ _ => .idle) hrun
  have hin : assets[0] ∈ assets := List.getElem_mem _
  exact ⟨_, hrest, hfile, (status_isolated hin (.start rfl) hrest).1⟩

/-! ## What a finished download has brought -/

theorem moveIntoPlace_run (d : Path) (files : List (Path × Bytes)) (f : Folder) :
    (moveIntoPlace d files).run f = (.ok (), placed d files f) := by
  induction files generalizing f with
  | nil => rfl
  | cons file files ih => exact ih _

/-- The archive is unpacked in full. -/
def Complete (remote : Remote) (zip : Bytes) (bin : Path) (f : Folder) : Prop :=
  ∃ members, remote.members zip = some members ∧ Extracted members bin f

/-- What the runs rely on: `snapshot_download` leaves nothing out when it comes to its end, an
    archive is unpacked where nothing is or all of it, and the runs hash with the one function. -/
structure Env.Finishes (env : Env) (remote : Remote) (sha256 : Bytes → Text) (id : AssetId)
    (f : Folder) : Prop where
  complete : ∀ request destination, plan id = some (.snapshot request destination) →
    (env.snapshotDownload request).2 = none → ∀ file ∈ remote.snapshot request,
      file ∈ (env.snapshotDownload request).1 ∨ (f.fileAt (destination ++ file.1)).isSome = true
  unpacks : ∀ assetName bin, plan id = some (.archive assetName bin) →
    ¬Occupied (whisperCppBin bin) f ∨
      Complete remote (remote.content (remote.releaseUrl whisperCppRelease assetName))
        (whisperCppBin bin) f
  hashes : env.sha256 = sha256

/-- What there is when a download has come to its end. -/
def Plan.Finished (remote : Remote) (sha256 : Bytes → Text) (f : Folder) : Plan → Prop
  | .snapshot request destination => (f.lookup destination).isSome = true ∧
      ∀ file ∈ remote.snapshot request, f.fileAt (destination ++ file.1) = some file.2
  | .file _ filename revision expectedSha256 =>
    let content := remote.content
      (hfUrl "ggerganov/whisper.cpp".toList revision.toList filename.toList)
    f.lookup (whisperCppModelFile filename) = some (.file content) ∧
      ∀ expected, expectedSha256 = some expected → sha256 content = expected
  | .archive assetName bin =>
    let content := remote.content (remote.releaseUrl whisperCppRelease assetName)
    f.lookup (whisperCppZip assetName) = some (.file content) ∧
      Complete remote content (whisperCppBin bin) f

theorem Complete.congr {zip : Bytes} {bin : Path} {f g : Folder} (hsame : SameUnder [bin] f g)
    (h : Complete remote zip bin f) : Complete remote zip bin g := by
  obtain ⟨members, hmembers, hextracted⟩ := h
  exact ⟨members, hmembers, (Extracted.congr hsame).mp hextracted⟩

/-- Of the members of a name there is a last one. -/
theorem exists_last {members : List (Path × Bytes)} {name : Path}
    (hname : name ∈ members.map Prod.fst) :
    ∃ before bytes after, members = before ++ (name, bytes) :: after ∧
      name ∉ after.map Prod.fst := by
  induction members with
  | nil => cases hname
  | cons member members ih =>
    by_cases hlater : name ∈ members.map Prod.fst
    · obtain ⟨before, bytes, after, rfl, hafter⟩ := ih hlater
      exact ⟨member :: before, bytes, after, rfl, hafter⟩
    · obtain rfl | hmem := List.mem_cons.mp hname
      · exact ⟨[], member.2, members, rfl, hlater⟩
      · exact absurd hmem hlater

/-- A member that an archive has is there once it is unpacked. -/
theorem Extracted.there {members : List (Path × Bytes)} {bin name : Path} {f : Folder}
    (h : Extracted members bin f) (hname : name ∈ members.map Prod.fst) :
    (f.fileAt (bin ++ name)).isSome = true := by
  obtain ⟨before, bytes, after, heq, hafter⟩ := exists_last hname
  rw [h before name bytes after heq hafter]
  rfl

theorem Plan.Finished.congr {sha256 : Bytes → Text} {p : Plan} {f g : Folder}
    (h : SameUnder p.roots f g) (hf : p.Finished remote sha256 f) :
    p.Finished remote sha256 g := by
  cases p with
  | snapshot request destination =>
    obtain ⟨hthere, hfiles⟩ := hf
    refine ⟨?_, ?_⟩
    · rw [← h _ Plan.under_destination]
      exact hthere
    · intro file hfile
      rw [← h.fileAt (Plan.under_destination.append file.1)]
      exact hfiles file hfile
  | file assetId filename revision expected =>
    obtain ⟨hfile, hsum⟩ := hf
    refine ⟨?_, hsum⟩
    rw [← h _ Plan.under_model]
    exact hfile
  | archive assetName bin =>
    obtain ⟨hzip, hcomplete⟩ := hf
    refine ⟨?_, hcomplete.congr (h.mono (by simp [Plan.roots]))⟩
    rw [← h _ Plan.under_zip]
    exact hzip

section

variable {env : Env} {sha256 : Bytes → Text} {f : Folder}

/-- A snapshot that was downloaded to its end is all there, with what was there before. -/
theorem downloadHfSnapshot_finished {request : Snapshot} {d : Path} (henv : env.Honours remote)
    (hcomplete : (env.snapshotDownload request).2 = none → ∀ file ∈ remote.snapshot request,
      file ∈ (env.snapshotDownload request).1 ∨ (f.fileAt (d ++ file.1)).isSome = true)
    (h : SnapshotInv remote request d f) :
    (downloadHfSnapshot env request d false).wp (fun _ => True)
      (fun _ g => (g.lookup d).isSome = true ∧
        ∀ file ∈ remote.snapshot request, g.fileAt (d ++ file.1) = some file.2) f := by
  refine Script.wp_and_run (Script.wp_trivial _ f) ?_
  intro _ g hrun
  -- Nothing foreign is there at the end, because nothing is at any moment.
  have hinv : SnapshotInv remote request d g :=
    Script.wp_trail (downloadHfSnapshot_wp henv h) g (Script.mem_trail_of_run hrun)
  have hend : (downloadHfSnapshot env request d false).run f =
      ((env.snapshotDownload request).2.elim (.ok ()) .error,
        placed d (env.snapshotDownload request).1 ((f.mkdir d.dropLast).mkdir d)) := by
    unfold downloadHfSnapshot snapshotDownload
    rw [Script.run_bind, resetPath_keep]
    show Script.run (moveIntoPlace d (env.snapshotDownload request).1 >>= _)
      ((f.mkdir d.dropLast).mkdir d) = _
    rw [Script.run_bind, moveIntoPlace_run]
    cases (env.snapshotDownload request).2 <;> rfl
  rw [hend] at hrun
  obtain ⟨hok, rfl⟩ := Prod.mk.inj hrun
  have hnone : (env.snapshotDownload request).2 = none := by
    cases herror : (env.snapshotDownload request).2 with
    | none => rfl
    | some error =>
      rw [herror] at hok
      cases hok
  refine ⟨?_, ?_⟩
  · apply placed_lookup_isSome
    rw [Folder.lookup_mkdir, if_pos (List.prefix_refl d)]
    rfl
  · intro file hfile
    have hthere : ((placed d (env.snapshotDownload request).1
        ((f.mkdir d.dropLast).mkdir d)).fileAt (d ++ file.1)).isSome = true := by
      rw [placed_fileAt_isSome, Folder.fileAt_mkdir, Folder.fileAt_mkdir]
      rcases hcomplete hnone file hfile with hmoved | hkept
      · exact Or.inl (List.mem_map_of_mem hmoved)
      · exact Or.inr hkept
    obtain ⟨bytes, hbytes⟩ := Option.isSome_iff_exists.mp hthere
    rw [hbytes, snd_eq_of_nodup (remote.distinct request) (hinv file.1 bytes hbytes) hfile]

/-- What no cut connection has made is what there is. -/
theorem Remote.Delivers.whole {url : Text} {bytes : Bytes} (hwhole : remote.cutsShort = false)
    (h : remote.Delivers url bytes) : bytes = remote.content url := by
  rcases h with heq | ⟨hcuts, -⟩
  · exact heq
  · rw [hwhole] at hcuts
    cases hcuts

/-- A model file that was downloaded to its end has the checksum it should have. -/
theorem ggml_finished (hwhole : remote.cutsShort = false) (henv : env.Honours remote)
    (assetId : AssetId) (filename revision : String) (expectedSha256 : Option Text)
    (h : FileInv remote (hfUrl "ggerganov/whisper.cpp".toList revision.toList filename.toList)
      (whisperCppModelFile filename) f) :
    (ggml env assetId filename false revision expectedSha256).wp (fun _ => True)
      (fun _ g => Plan.Finished remote env.sha256 g
        (.file assetId filename revision expectedSha256)) f := by
  have hd : whisperCppModelFile filename ≠ [] := List.cons_ne_nil _ _
  unfold ggml downloadHfFile
  refine Script.wp_get_bind.mpr ?_
  dsimp only
  rw [Script.wp_bind]
  refine Script.wp_mono (Script.wp_imp (downloadUrl_wp (henv.connects _) hd false h)
    fun _ _ => trivial) fun _ g _ hg => ?_
  obtain ⟨bytes, hfile, hdelivers⟩ := hg
  rw [hdelivers.whole hwhole] at hfile
  cases expectedSha256 with
  | none =>
    refine ⟨trivial, hfile, ?_⟩
    intro expected hsum
    cases hsum
  | some expected =>
    refine Script.wp_get_bind.mpr ?_
    split_ifs with hsame hexisted
    · exact ⟨trivial, trivial⟩
    · trivial
    · refine ⟨trivial, hfile, ?_⟩
      intro sum hsum
      obtain rfl := Option.some.inj hsum
      rw [Folder.fileAt_eq_some.mpr hfile] at hsame
      exact not_not.mp hsame

/-- An unpacking that comes to its end has unpacked everything, where it did not have to tell a
    part from the whole. -/
theorem extractZip_finished {zipPath bin : Path} {zip : Bytes} (henv : env.Honours remote)
    (hapart : Apart [zipPath] [bin]) (hzip : f.lookup zipPath = some (.file zip))
    (h : ¬Occupied bin f ∨ Complete remote zip bin f) :
    (extractZip env zipPath bin false).wp (fun _ => True)
      (fun _ g => g.lookup zipPath = some (.file zip) ∧ Complete remote zip bin g) f := by
  have hleaves : (extractZip env zipPath bin false).Leaves (SameUnder [zipPath]) :=
    extractZip_leaves hapart (under_of_mem List.mem_cons_self) false
  refine Script.wp_and_run (Script.wp_trivial _ f) fun _ g hrun => ?_
  have hsame := sameUnder_trail hleaves f g (Script.mem_trail_of_run hrun)
  refine ⟨hsame _ (under_of_mem List.mem_cons_self) ▸ hzip, ?_⟩
  by_cases hskip : Occupied bin f
  · rw [extractZip_skips env zipPath hskip] at hrun
    obtain rfl : f = g := congrArg Prod.snd hrun
    exact h.resolve_left (not_not_intro hskip)
  · cases hmembers : env.members zip with
    | error error =>
      rw [extractZip_refuses hmembers (Folder.fileAt_eq_some.mpr hzip) hskip] at hrun
      cases congrArg Prod.fst hrun
    | ok files =>
      obtain ⟨g', hrun', hextracted⟩ :=
        extractZip_extracts hmembers (Folder.fileAt_eq_some.mpr hzip) hskip
      obtain rfl : g' = g := congrArg Prod.snd (hrun'.symm.trans hrun)
      exact ⟨_, henv.members zip files hmembers, hextracted⟩

/-- The archive stays where it was downloaded while it is unpacked. -/
theorem downloadArchive_finished (hwhole : remote.cutsShort = false) {id : AssetId}
    {assetName : Text} {bin : String} (henv : env.Honours remote)
    (hplan : plan id = some (.archive assetName bin))
    (hbin : ¬Occupied (whisperCppBin bin) f ∨
      Complete remote (remote.content (remote.releaseUrl whisperCppRelease assetName))
        (whisperCppBin bin) f)
    (h : FileInv remote (remote.releaseUrl whisperCppRelease assetName)
      (whisperCppZip assetName) f) :
    (downloadArchive env assetName bin false).wp (fun _ => True)
      (fun _ g => Plan.Finished remote sha256 g (.archive assetName bin)) f := by
  have hd : whisperCppZip assetName ≠ [] := List.cons_ne_nil _ _
  have hapart := archive_apart hplan
  have hapart' : Apart [whisperCppZip assetName] [whisperCppBin bin] := by
    intro zipRoot hzipRoot binRoot hbinRoot
    rw [List.mem_singleton] at hzipRoot
    subst hzipRoot
    exact (hapart binRoot hbinRoot _ List.mem_cons_self).symm
  unfold downloadArchive
  rw [Script.wp_bind]
  refine Script.wp_mono (githubReleaseAssetUrl_wp henv whisperCppRelease assetName trivial) ?_
  intro url f' _ hurl
  obtain ⟨rfl, rfl⟩ := hurl
  rw [Script.wp_bind]
  -- The download leaves the folder to unpack into as it is.
  have hleaves : (downloadUrl env.urlopen (remote.releaseUrl whisperCppRelease assetName)
      (whisperCppZip assetName) false).Leaves (SameUnder [whisperCppBin bin]) :=
    downloadUrl_leaves _ (hapart.not_under (under_of_mem (by simp)))
      (hapart.not_under (under_of_mem (by simp)))
  have hwp := hleaves.wp_frame
    (fun _ _ hsame => Or.imp (fun hnot => (Occupied.congr hsame).not.mp hnot) (·.congr hsame))
    hbin (downloadUrl_wp (henv.connects _) hd false h)
  refine Script.wp_mono (Script.wp_imp hwp fun _ _ => trivial) fun _ g _ hg => ?_
  obtain ⟨⟨zip, hzip, hdelivers⟩, hbin⟩ := hg
  rw [hdelivers.whole hwhole] at hzip
  exact extractZip_finished henv hapart' hzip hbin

theorem Plan.script_finished (hwhole : remote.cutsShort = false) {id : AssetId} {p : Plan}
    (henv : env.Honours remote)
    (hfinishes : env.Finishes remote sha256 id f) (hplan : plan id = some p)
    (h : p.Inv remote f) :
    (p.script env).wp (fun _ => True) (fun _ => p.Finished remote sha256) f := by
  cases p with
  | snapshot request destination =>
    exact downloadHfSnapshot_finished henv (hfinishes.complete request destination hplan) h
  | file assetId filename revision expected =>
    have hwp := ggml_finished hwhole henv assetId filename revision expected h
    rw [hfinishes.hashes] at hwp
    exact hwp
  | archive assetName bin =>
    exact downloadArchive_finished hwhole henv hplan (hfinishes.unpacks assetName bin hplan) h.file

end

/-- A run is started where `snapshot_download` will keep its promise, and where an archive is
    not unpacked in part. -/
def Promised (remote : Remote) (sha256 : Bytes → Text)
    (w w' : Farm.State Folder Text AssetId) : Prop :=
  ∀ id x, w.running id = none → w'.running id = some x →
    ∃ env : Env, env.Honours remote ∧ env.Finishes remote sha256 id w.store ∧
      x = downloadAssets env (onlyArgs id)

/-- The files of the check are among those the download brings. -/
def Plan.Lists (remote : Remote) (required : List Text) : Plan → Prop
  | .snapshot request _ => ∀ file ∈ required, [file] ∈ (remote.snapshot request).map Prod.fst
  | .file .. => True
  | .archive assetName _ =>
    ∀ members, remote.members (remote.content (remote.releaseUrl whisperCppRelease assetName)) =
      some members → ∀ program ∈ executables, program ∈ members.map Prod.fst

theorem Plan.Finished.exists {sha256 : Bytes → Text} {p : Plan} {f : Folder}
    {required : List Text} (h : p.Finished remote sha256 f) (hlists : p.Lists remote required) :
    p.Exists required f := by
  cases p with
  | snapshot request destination =>
    obtain ⟨hthere, hfiles⟩ := h
    refine ⟨hthere, ?_⟩
    intro name hname
    obtain ⟨file, hfile, heq⟩ := List.mem_map.mp (hlists name hname)
    rw [← heq, hfiles file hfile]
    rfl
  | file assetId filename revision expected =>
    show (f.lookup (whisperCppModelFile filename)).isSome = true
    rw [h.1]
    rfl
  | archive assetName bin =>
    obtain ⟨-, members, hmembers, hextracted⟩ := h
    have hthere : ∀ program ∈ executables,
        (f.lookup (whisperCppBin bin ++ program)).isSome = true := by
      intro program hprogram
      have hfile := hextracted.there (hlists members hmembers program hprogram)
      obtain ⟨bytes, hbytes⟩ := Option.isSome_iff_exists.mp hfile
      rw [Folder.fileAt_eq_some.mp hbytes]
      rfl
    exact ⟨hthere _ List.mem_cons_self, hthere _ (List.mem_cons_of_mem _ List.mem_cons_self)⟩

/-- **What a finished download has brought stays.** However the downloads interleave and
    wherever they are killed: where no cut connection is taken for one that has ended, from
    where the download of an asset has come to its end until it is started again, everything
    of a snapshot is there in full, a model file is the remote's and has the checksum of the
    script, an archive is there with everything in it unpacked, and the list shows the asset
    as installed. -/
theorem finished_download (sha256 : Bytes → Text) (hwhole : remote.cutsShort = false)
    (hasset : asset ∈ assets) {p : Plan} (hplan : plan asset.id = some p)
    (hw : ((downloads remote).restrict (Promised remote sha256)).Reachable w)
    (hend : w.running asset.id = some (.pure ())) (hrest : Rests remote asset.id w w') :
    p.Finished remote sha256 w'.store ∧
      (p.Lists remote (requiredFiles asset.id) → (asset.check w'.store).exists_ = true) := by
  have hothers := programs_leave remote asset.id p.roots fun j q hne hq =>
    plans_apart hplan hq hne
  have hcongr : ∀ f g, SameUnder p.roots f g → p.Finished remote sha256 f →
      p.Finished remote sha256 g := fun _ _ hsame hf => hf.congr hsame
  have hthere : p.Finished remote sha256 w.store := by
    refine Farm.returned ?_ ?_ hothers (fun _ _ _ _ => trivial) hcongr hw hend
    · intro s s' x hs hpromised _ hidle hstarted
      obtain ⟨env, henv, hfinishes, rfl⟩ := hpromised asset.id x hidle hstarted
      rw [downloadAssets_only env hplan]
      exact Plan.script_finished hwhole henv hfinishes hplan (plan_inv hplan hs)
    · intro x hx
      obtain ⟨q, env, hq, -, rfl⟩ := programs_plan hx
      obtain rfl := Option.some.inj (hplan.symm.trans hq)
      exact p.script_local env
  have hlater := Farm.undisturbed hothers hcongr hw.of_restrict hrest hthere
  refine ⟨hlater, fun hlists => ?_⟩
  obtain ⟨q, hq, hexists⟩ := check_exists_iff hasset (downloadable_of_plan hasset hplan)
  obtain rfl := Option.some.inj (hplan.symm.trans hq)
  exact (hexists _).mpr (hlater.exists hlists)

/-- The two programs, each written in one piece. -/
def programPieces : List (Path × List Bytes) :=
  [(release "whisper-cli.exe", [[1]]), (release "whisper-server.exe", [[2]])]

/-- The release is served and unpacked. -/
def servingRelease : Env :=
  Env.unpacking releaseRemote whisperCppCpuAsset [1, 2, 3] programPieces

theorem servingRelease_honours : servingRelease.Honours releaseRemote :=
  Env.unpacking_honours (.inl rfl) rfl

theorem servingRelease_unpacks : servingRelease.Unpacks whisperCppCpuAsset whisperCppCpuAsset
    [1, 2, 3] [(release "whisper-cli.exe", [1]), (release "whisper-server.exe", [2])] where
  release := ⟨_, rfl, rfl⟩
  uncut := by
    have hanswer : ∀ range, ∃ response,
        servingRelease.urlopen ⟨whisperCppCpuAsset, range⟩ = .ok response ∧
          Sends response 200 [1, 2, 3] := fun range => ⟨_, rfl, rfl, rfl, rfl⟩
    exact ⟨false, hanswer none, fun _ start => hanswer (some start), nofun, nofun⟩
  members := ⟨programPieces, rfl, rfl⟩

theorem servingRelease_run : ∃ g,
    (downloadAssets servingRelease (onlyArgs .whisperCppCpu)).run ∅ = (.ok (), g) := by
  have hplan : plan .whisperCppCpu = some (.archive whisperCppCpuAsset "bin_cpu") := rfl
  obtain ⟨f, hzip, hsame, hrun⟩ := downloadAssets_unpacks hplan servingRelease_unpacks
    (f := ∅) ⟨.of_nothing rfl rfl, .inr ⟨rfl, rfl⟩⟩
  have hempty : ¬Occupied (whisperCppBin "bin_cpu") f := by
    rw [← Occupied.congr hsame]
    exact fun hoccupied => hoccupied.1 rfl
  have hmembers : servingRelease.members [1, 2, 3] = .ok programPieces := rfl
  obtain ⟨g, hextract, -⟩ := extractZip_extracts hmembers hzip hempty
  exact ⟨g, hrun.trans hextract⟩

theorem finished_download_archive : ∃ w,
    ((downloads releaseRemote).restrict (Promised releaseRemote fun _ => [])).Reachable w ∧
      w.running .whisperCppCpu = some (.pure ()) ∧
      (assets[4].check w.store).exists_ = true := by
  obtain ⟨g, hrun⟩ := servingRelease_run
  have hprogram : programs releaseRemote .whisperCppCpu
      (downloadAssets servingRelease (onlyArgs .whisperCppCpu)) :=
    ⟨by decide, servingRelease, servingRelease_honours, rfl⟩
  have hpromised : Promised releaseRemote (fun _ => []) atRest
      ⟨∅, Function.update atRest.running .whisperCppCpu
        (some (downloadAssets servingRelease (onlyArgs .whisperCppCpu)))⟩ := by
    intro id x hidle hstarted
    by_cases heq : id = .whisperCppCpu
    · subst heq
      refine ⟨servingRelease, servingRelease_honours, ⟨?_, ?_, rfl⟩,
        (Option.some.inj hstarted).symm⟩
      · intro request destination hplan
        cases hplan
      · exact fun _ _ _ => .inl fun hoccupied => hoccupied.1 rfl
    · cases (Function.update_of_ne heq _ atRest.running).symm.trans hstarted
  have hgoes : ∀ t y t' z, Promised releaseRemote (fun _ => [])
      ⟨t, Function.update atRest.running .whisperCppCpu (some y)⟩
      ⟨t', Function.update atRest.running .whisperCppCpu (some z)⟩ := by
    intro t y t' z id x hidle hstarted
    by_cases heq : id = .whisperCppCpu
    · subst heq
      cases hidle
    · cases (Function.update_of_ne heq _ atRest.running).symm.trans hstarted
  have hreach := Transition.System.Reachable.stretch (.start rfl)
    (Farm.runs_alone rfl hprogram hpromised hgoes hrun)
  have hin : assets[4] ∈ assets := List.getElem_mem _
  have hlists : Plan.Lists releaseRemote (requiredFiles assets[4].id)
      (.archive whisperCppCpuAsset "bin_cpu") := by
    intro members hmembers
    obtain rfl := Option.some.inj hmembers
    intro program hprogram
    rcases List.mem_pair.mp hprogram with rfl | rfl <;> decide
  exact ⟨_, hreach, rfl,
    (finished_download (fun _ => []) rfl hin rfl hreach rfl .refl).2 hlists⟩

end

end Assets
end LocalMeetingStt
