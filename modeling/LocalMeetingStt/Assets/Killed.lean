import LocalMeetingStt.Assets.Runs

/-!
# What a killed download leaves behind

`Remote` is what there is to fetch, and `Env.Honours` what the code relies on in one run:
the hub moves complete files into place, a server honours `Range` or ignores it, an archive
is unpacked member by member. For each kind of download there is an invariant that every
action of a run keeps, so that it holds of whatever a kill leaves:

- under a snapshot's folder there are only complete files of the snapshot;
- a finished file is what a response that came to its end had delivered, and its part file
  a beginning of the content;
- an unpacked archive is what some moment of the unpacking looked like.

The downloads of different assets touch different paths, so what one of them keeps alone it
keeps while others run.
-/

namespace LocalMeetingStt
namespace Assets

open LittleEndian

/-! ## What the code relies on -/

/-- What there is to fetch. -/
structure Remote where
  snapshot : Snapshot → List (Path × Bytes)
  named : ∀ request, ∀ file ∈ snapshot request, file.1 ≠ []
  /-- A repository has one file of each name. -/
  distinct : ∀ request, ((snapshot request).map Prod.fst).Nodup
  content : Text → Bytes
  /-- By the tag of the release and the name of the asset. -/
  releaseUrl : Text → Text → Text
  /-- The members of an archive, none if it is not one. -/
  members : Bytes → Option (List (Path × Bytes))
  membersNamed : ∀ zip files, members zip = some files → ∀ file ∈ files, file.1 ≠ []
  /-- Whether a connection may end before all is delivered. -/
  cutsShort : Bool

/-- What a response that comes to its end may have made of a file. -/
def Remote.Delivers (remote : Remote) (url : Text) (bytes : Bytes) : Prop :=
  bytes = remote.content url ∨ remote.cutsShort = true ∧ bytes <+: remote.content url

structure Env.Honours (env : Env) (remote : Remote) : Prop where
  serves : ∀ url, Serves env.urlopen url (remote.content url)
  whole : remote.cutsShort = false → ∀ request response,
    env.urlopen request = .ok response → response.ended = true →
      response.delivered = bodyOf (remote.content request.url) request response.status
  release : ∀ tag assets, env.release tag = .ok assets →
    ∀ asset ∈ assets, asset.2 = remote.releaseUrl tag asset.1
  snapshot : ∀ request, (env.snapshotDownload request).1 ⊆ remote.snapshot request
  members : ∀ zip files, env.members zip = .ok files →
    remote.members zip = some (files.map fun file => (file.1, file.2.flatten))

/-! ## A snapshot -/

/-- Every file under the destination is one of the repository's, and complete. -/
def SnapshotInv (remote : Remote) (request : Snapshot) (destination : Path) (f : Folder) : Prop :=
  ∀ name bytes, f.fileAt (destination ++ name) = some bytes →
    (name, bytes) ∈ remote.snapshot request

theorem Folder.fileAt_insert (f : Folder) (p q : Path) (bytes : Bytes) :
    Folder.fileAt (f.insert p (.file bytes)) q = if q = p then some bytes else f.fileAt q := by
  unfold Folder.fileAt
  rw [Folder.lookup_insert]
  split_ifs <;> rfl

/-- Folders are made where nothing is. -/
theorem Folder.fileAt_mkdir (f : Folder) (p q : Path) : (f.mkdir p).fileAt q = f.fileAt q := by
  unfold Folder.fileAt
  rw [Folder.lookup_mkdir]
  split_ifs with hpre
  · cases f.lookup q <;> rfl
  · rfl

section

variable {env : Env} {remote : Remote} {request : Snapshot} {destination : Path} {f : Folder}

theorem SnapshotInv.mkdir (h : SnapshotInv remote request destination f) (p : Path) :
    SnapshotInv remote request destination (f.mkdir p) := by
  intro name bytes hfile
  rw [Folder.fileAt_mkdir] at hfile
  exact h name bytes hfile

theorem moveIntoPlace_wp (files : List (Path × Bytes)) (hfiles : files ⊆ remote.snapshot request)
    (h : SnapshotInv remote request destination f) :
    (moveIntoPlace destination files).wp (SnapshotInv remote request destination)
      (fun _ => SnapshotInv remote request destination) f := by
  induction files generalizing f with
  | nil => exact ⟨h, h⟩
  | cons file files ih =>
    obtain ⟨name, bytes⟩ := file
    have hput : SnapshotInv remote request destination
        ((f.mkdir (destination ++ name).dropLast).insert (destination ++ name) (.file bytes)) := by
      intro name' bytes' hfile
      rw [Folder.fileAt_insert] at hfile
      split_ifs at hfile with heq
      · rw [List.append_cancel_left heq, ← Option.some.inj hfile]
        exact hfiles List.mem_cons_self
      · exact h.mkdir _ name' bytes' hfile
    refine Script.wp_change_bind.mpr ⟨h, Script.wp_change_bind.mpr ⟨h.mkdir _, ?_⟩⟩
    exact ih (fun _ hin => hfiles (List.mem_cons_of_mem _ hin)) hput

theorem resetPath_wp {cut : Folder → Prop} {f : Folder} (h : cut f) (p : Path) :
    (resetPath p false).wp cut (fun _ f' => f' = f) f := by
  simpa [resetPath, Script.wp_bind, pathExists] using h

theorem downloadHfSnapshot_wp (henv : env.Honours remote)
    (h : SnapshotInv remote request destination f) :
    (downloadHfSnapshot env request destination false).wp
      (SnapshotInv remote request destination)
      (fun _ => SnapshotInv remote request destination) f := by
  have hmove : ∀ (x : Download Unit) f, SnapshotInv remote request destination f →
      (∀ f, SnapshotInv remote request destination f →
        x.wp (SnapshotInv remote request destination)
          (fun _ => SnapshotInv remote request destination) f) →
      (moveIntoPlace destination (env.snapshotDownload request).1 >>= fun _ => x).wp
        (SnapshotInv remote request destination)
        (fun _ => SnapshotInv remote request destination) f := by
    intro x f h hx
    rw [Script.wp_bind]
    exact Script.wp_mono (moveIntoPlace_wp _ (henv.snapshot request) h) fun _ f _ hf => hx f hf
  unfold downloadHfSnapshot snapshotDownload
  rw [Script.wp_bind]
  refine Script.wp_mono (resetPath_wp h destination) fun _ f hf _ => ?_
  refine Script.wp_change_bind.mpr ⟨hf, Script.wp_change_bind.mpr ⟨hf.mkdir _, ?_⟩⟩
  refine hmove _ _ ((hf.mkdir _).mkdir _) fun f hf => ?_
  cases (env.snapshotDownload request).2 with
  | none => exact ⟨hf, hf⟩
  | some error => exact hf

end

/-! ## A file -/

/-- The finished file is what a response has delivered, and the part file a beginning of
    the content. -/
structure FileInv (remote : Remote) (url : Text) (d : Path) (f : Folder) : Prop where
  finished : ∀ node, f.lookup d = some node → ∃ bytes, node = .file bytes ∧
    remote.Delivers url bytes
  part : PartFits f d (remote.content url)

section

variable {env : Env} {remote : Remote} {url : Text} {d : Path} {f : Folder}

theorem FileInv.of_nothing (hd : f.lookup d = none) (hpart : f.lookup (partOf d) = none) :
    FileInv remote url d f where
  finished node h := by rw [hd] at h; cases h
  part node h := by rw [hpart] at h; cases h

theorem FileInv.of_part {bytes : Bytes} (hd : f.lookup d = none)
    (hpart : f.lookup (partOf d) = some (.file bytes)) (hpre : bytes <+: remote.content url) :
    FileInv remote url d f where
  finished node h := by rw [hd] at h; cases h
  part node h := by
    rw [hpart] at h
    exact ⟨bytes, (Option.some.inj h).symm, hpre⟩

/-- The file or its part file may go; otherwise they are as they were. -/
theorem FileInv.of_erased (h : FileInv remote url d f) {f' : Folder}
    (hd : f'.lookup d = none ∨ f'.lookup d = f.lookup d)
    (hpart : f'.lookup (partOf d) = none ∨ f'.lookup (partOf d) = f.lookup (partOf d)) :
    FileInv remote url d f' where
  finished node hnode := by
    rcases hd with hd | hd <;> rw [hd] at hnode
    · cases hnode
    · exact h.finished node hnode
  part node hnode := by
    rcases hpart with hpart | hpart <;> rw [hpart] at hnode
    · cases hnode
    · exact h.part node hnode

theorem FileInv.erase (h : FileInv remote url d f) (p : Path) :
    FileInv remote url d (f.erase p) := by
  refine h.of_erased ?_ ?_ <;> rw [Folder.lookup_erase] <;> split_ifs <;> simp

theorem FileInv.rmtree (h : FileInv remote url d f) (p : Path) :
    FileInv remote url d (f.rmtree p) := by
  refine h.of_erased ?_ ?_ <;> rw [Folder.lookup_rmtree] <;> split_ifs <;> simp

theorem copy_wp (status : Nat) (contentLength : Option Nat) (reads : List Bytes)
    (broken : Option Text) {old : Bytes} (hd : f.lookup d = none)
    (hpart : f.lookup (partOf d) = some (.file old))
    (hpre : old ++ (Response.mk status contentLength reads broken).delivered <+:
      remote.content url) :
    (copy (partOf d) reads broken).wp (FileInv remote url d) (fun _ _ => True) f := by
  have hinv : FileInv remote url d f :=
    .of_part hd hpart ((List.prefix_append old _).trans hpre)
  induction reads generalizing f old with
  | nil =>
    cases broken with
    | none => exact ⟨hinv, trivial⟩
    | some error => exact hinv
  | cons chunk reads ih =>
    by_cases hempty : chunk.isEmpty = true
    · simpa [copy, hempty] using hinv
    · have hold : (f.fileAt (partOf d)).getD [] = old := by
        rw [Folder.fileAt_eq_some.mpr hpart]
        rfl
      have hd' : AList.lookup d (f.insert (partOf d) (.file (old ++ chunk))) = none := by
        rw [AList.lookup_insert_ne (partOf_ne d).symm]
        exact hd
      have hpre' : (old ++ chunk) ++ (Response.mk status contentLength reads broken).delivered <+:
          remote.content url := by
        simpa [Response.delivered, hempty] using hpre
      have hinv' : FileInv remote url d (f.insert (partOf d) (.file (old ++ chunk))) :=
        .of_part hd' (AList.lookup_insert f) ((List.prefix_append _ _).trans hpre')
      simp only [copy, hempty]
      refine Script.wp_change_bind.mpr ⟨hinv, ?_⟩
      rw [hold]
      exact ih hd' (AList.lookup_insert f) hpre' hinv'

theorem receive_wp {response : Response} {old : Bytes} (hd : f.lookup d = none)
    (hpart : old = [] ∨ f.lookup (partOf d) = some (.file old))
    (hinv : FileInv remote url d f)
    (hpre : response.kept old ++ response.delivered <+: remote.content url) :
    (receive (partOf d) old.length response).wp (FileInv remote url d) (fun _ _ => True) f := by
  obtain ⟨status, contentLength, reads, broken⟩ := response
  have hcopy : ∀ f' : Folder, f'.lookup d = none → FileInv remote url d f' →
      (Response.mk status contentLength reads broken).delivered <+: remote.content url →
      (do create (partOf d); copy (partOf d) reads broken).wp (FileInv remote url d)
        (fun _ _ => True) f' := by
    intro f' hd' hinv' hpre'
    have hd'' : AList.lookup d (f'.insert (partOf d) (.file [])) = none := by
      rw [AList.lookup_insert_ne (partOf_ne d).symm]
      exact hd'
    refine Script.wp_change_bind.mpr ⟨hinv', ?_⟩
    exact copy_wp status contentLength reads broken hd'' (AList.lookup_insert f') hpre'
  by_cases hold : old = []
  · subst hold
    have hpre' : (Response.mk status contentLength reads broken).delivered <+:
        remote.content url := by
      simpa [Response.kept] using hpre
    simpa [receive] using hcopy f hd hinv hpre'
  · by_cases hstatus : status = 206
    · subst hstatus
      have hgoes := copy_wp 206 contentLength reads broken hd (hpart.resolve_left hold) hpre
      simpa [receive, hold] using hgoes
    · have hpre' : (Response.mk status contentLength reads broken).delivered <+:
          remote.content url := by
        simpa [Response.kept, hstatus] using hpre
      have hd' : AList.lookup d (f.erase (partOf d)) = none := by
        rw [AList.lookup_erase_ne (partOf_ne d).symm]
        exact hd
      have hgoes := hcopy _ hd' (hinv.erase _) hpre'
      have hstart : (unlink (partOf d) >>= fun _ =>
          (do create (partOf d); copy (partOf d) reads broken)).wp (FileInv remote url d)
            (fun _ _ => True) f :=
        Script.wp_change_bind.mpr ⟨hinv, hgoes⟩
      simpa [receive, hold, hstatus] using hstart

/-- The connections to one URL, of which those that end have delivered all if none is cut. -/
structure Remote.Connects (remote : Remote) (url : Text)
    (urlopen : Request → Except Text Response) : Prop where
  serves : Serves urlopen url (remote.content url)
  whole : remote.cutsShort = false → ∀ request response, request.url = url →
    urlopen request = .ok response → response.ended = true →
      response.delivered = bodyOf (remote.content url) request response.status

theorem Env.Honours.connects (henv : env.Honours remote) (url : Text) :
    remote.Connects url env.urlopen where
  serves := henv.serves url
  whole hshort request response hurl hresponse hended := by
    rw [← hurl]
    exact henv.whole hshort request response hresponse hended

section

variable {urlopen : Request → Except Text Response} (hurl : remote.Connects url urlopen)

include hurl in
/-- What a response that honours its request makes of the part file. -/
theorem Remote.Connects.delivers {response : Response}
    (hleft : leftOver f d false <+: remote.content url)
    (hresponse : urlopen (requestFor url d false f) = .ok response) :
    response.kept (leftOver f d false) ++ response.delivered <+: remote.content url ∧
      (response.ended = true →
        remote.Delivers url (response.kept (leftOver f d false) ++ response.delivered)) := by
  obtain ⟨hstatus, hpre⟩ := hurl.serves _ _ rfl hresponse
  have hpre' : response.kept (leftOver f d false) ++ response.delivered <+:
      remote.content url := by
    rw [← kept_append_body hleft hstatus]
    exact (List.prefix_append_right_inj _).mpr hpre
  refine ⟨hpre', fun hended => ?_⟩
  cases hshort : remote.cutsShort with
  | true => exact Or.inr ⟨hshort, hpre'⟩
  | false =>
    refine Or.inl ((kept_append_delivered_iff hleft hstatus).mpr ?_)
    exact hurl.whole hshort _ _ rfl hresponse hended

include hurl in
/-- The request is made where there is no file and the part file is a beginning. -/
theorem fetch_wp (hd : f.lookup d = none) (h : FileInv remote url d f) :
    (fetch urlopen (requestFor url d false f) d (leftOver f d false).length).wp
      (FileInv remote url d)
      (fun _ f => ∃ bytes, f.lookup d = some (.file bytes) ∧ remote.Delivers url bytes) f := by
  have hleft := h.part.leftOver false
  have hthere : leftOver f d false = [] ∨
      f.lookup (partOf d) = some (.file (leftOver f d false)) := by
    exact leftOver_cases (by simp)
  unfold fetch
  cases hresponse : urlopen (requestFor url d false f) with
  | error error => exact h
  | ok response =>
    obtain ⟨hpre, hdelivers⟩ := hurl.delivers hleft hresponse
    have hdone : (receive (partOf d) (leftOver f d false).length response).wp
        (FileInv remote url d) (fun _ g => response.ended = true ∧
          g.lookup (partOf d) =
            some (.file (response.kept (leftOver f d false) ++ response.delivered))) f := by
      refine Script.wp_and_run (receive_wp hd hthere h hpre) fun a g hrun => ?_
      obtain ⟨result, g', hrun', hresult, hpart, -⟩ := receive_run response hthere
      obtain ⟨rfl, rfl⟩ := Prod.mk.inj (hrun'.symm.trans hrun)
      exact ⟨hresult.mp rfl, hpart⟩
    refine Script.wp_bind.mpr (Script.wp_mono hdone ?_)
    rintro _ g hg ⟨hended, hpart⟩
    have hmoved : (g.move (partOf d) d).lookup d =
        some (.file (response.kept (leftOver f d false) ++ response.delivered)) := by
      unfold Folder.move
      rw [hpart]
      exact AList.lookup_insert _
    have hgone : (g.move (partOf d) d).lookup (partOf d) = none := by
      unfold Folder.move
      rw [hpart]
      exact (AList.lookup_insert_ne (partOf_ne d)).trans (AList.lookup_erase _ g)
    refine ⟨hg, ⟨fun node hnode => ?_, fun node hnode => ?_⟩, _, hmoved, hdelivers hended⟩
    · rw [hmoved] at hnode
      exact ⟨_, (Option.some.inj hnode).symm, hdelivers hended⟩
    · rw [hgone] at hnode
      cases hnode

theorem FileInv.resetPath (h : FileInv remote url d f) (force : Bool) :
    (resetPath d force).wp (FileInv remote url d) (fun _ _ => True) f := by
  cases force with
  | false => exact Script.wp_mono (resetPath_wp h d) fun _ _ _ _ => trivial
  | true =>
    refine Script.wp_get_bind.mpr ?_
    split_ifs
    · refine Script.wp_get_bind.mpr ?_
      split_ifs
      · exact ⟨h, h.rmtree d, trivial⟩
      · exact ⟨h, h.erase d, trivial⟩
    · exact ⟨h, trivial⟩

include hurl in
theorem downloadUrl_wp (hd : d ≠ []) (force : Bool) (h : FileInv remote url d f) :
    (downloadUrl urlopen url d force).wp (FileInv remote url d)
      (fun _ f => ∃ bytes, f.lookup d = some (.file bytes) ∧ remote.Delivers url bytes) f := by
  unfold downloadUrl
  rw [Script.wp_bind]
  refine Script.wp_mono (h.resetPath force) fun _ f h _ => ?_
  refine Script.wp_get_bind.mpr ?_
  cases hnode : f.lookup d with
  | some node =>
    obtain ⟨bytes, rfl, hbytes⟩ := h.finished node hnode
    exact ⟨h, bytes, hnode, hbytes⟩
  | none =>
    -- From here on the file is not there and the part file is a beginning.
    have hrest : ∀ f : Folder, f.lookup d = none → FileInv remote url d f →
        (mkdir d.dropLast >>= fun _ => fileSize (partOf d) >>= fun size =>
          fetch urlopen ⟨url, if size = 0 then none else some size⟩ d size).wp
            (FileInv remote url d)
            (fun _ f => ∃ bytes, f.lookup d = some (.file bytes) ∧ remote.Delivers url bytes)
            f := by
      intro f hnone h
      refine Script.wp_change_bind.mpr ⟨h, Script.wp_get_bind.mpr ?_⟩
      refine fetch_wp hurl ?_ (h.of_erased ?_ ?_)
      · rw [Folder.lookup_mkdir, if_neg (not_prefix_dropLast hd), hnone]
      · rw [Folder.lookup_mkdir, if_neg (not_prefix_dropLast hd)]
        exact Or.inr rfl
      · rw [Folder.lookup_mkdir, if_neg (partOf_not_above hd)]
        exact Or.inr rfl
    have hunlinked : (f.erase (partOf d)).lookup d = none := by
      rw [AList.lookup_erase_ne (partOf_ne d).symm, hnode]
    cases force with
    | false => exact hrest f hnode h
    | true =>
      refine Script.wp_get_bind.mpr ?_
      cases (f.lookup (partOf d)).isSome with
      | false => exact hrest f hnode h
      | true => exact Script.wp_change_bind.mpr ⟨h, hrest _ hunlinked (h.erase _)⟩

end

/-- A file that is there is not downloaded again. -/
theorem downloadUrl_there {cut : Folder → Prop} (h : cut f) (hsome : (f.lookup d).isSome = true) :
    (downloadUrl env.urlopen url d false).wp cut (fun _ f' => f' = f) f := by
  unfold downloadUrl
  rw [Script.wp_bind]
  refine Script.wp_mono (resetPath_wp h d) fun _ f' _ heq => ?_
  rw [heq]
  refine Script.wp_get_bind.mpr ?_
  simp only [hsome, if_true]
  exact ⟨h, rfl⟩

theorem ggml_wp (henv : env.Honours remote) (assetId : AssetId) (filename revision : String)
    (sha256 : Option Text)
    (h : FileInv remote (hfUrl "ggerganov/whisper.cpp".toList revision.toList filename.toList)
      (whisperCppModelFile filename) f) :
    (ggml env assetId filename false revision sha256).wp
      (FileInv remote (hfUrl "ggerganov/whisper.cpp".toList revision.toList filename.toList)
        (whisperCppModelFile filename)) (fun _ _ => True) f := by
  have hd : whisperCppModelFile filename ≠ [] := List.cons_ne_nil _ _
  unfold ggml downloadHfFile
  refine Script.wp_get_bind.mpr ?_
  dsimp only
  rw [Script.wp_bind]
  refine Script.wp_mono (downloadUrl_wp (henv.connects _) hd false h) fun _ f hf _ => ?_
  cases sha256 with
  | none => exact ⟨hf, trivial⟩
  | some expected =>
    refine Script.wp_get_bind.mpr ?_
    split_ifs with hsame hexisted
    · refine Script.wp_change_bind.mpr ⟨hf, ?_⟩
      exact hf.erase _
    · exact hf
    · exact ⟨hf, trivial⟩

end

/-! ## An unpacked archive -/

/-- Below `bin` the one folder is what the other is. -/
def Below (bin : Path) (f g : Folder) : Prop :=
  ∀ name, name ≠ [] → f.lookup (bin ++ name) = g.lookup name

/-- Below `bin` the folder is what unpacking into an empty one comes by. -/
def Unpacking (remote : Remote) (zip : Bytes) (bin : Path) (f : Folder) : Prop :=
  (f.lookup bin).isSome = true ∧ ∃ files g,
    remote.members zip = some (files.map fun file => (file.1, file.2.flatten)) ∧
      g ∈ (extractall [] files).trail ∅ ∧ Below bin f g

structure ArchiveInv (remote : Remote) (url : Text) (zipPath bin : Path) (f : Folder) : Prop where
  file : FileInv remote url zipPath f
  unpacked : Below bin f ∅ ∨ ∃ zip, f.lookup zipPath = some (.file zip) ∧
    remote.Delivers url zip ∧ Unpacking remote zip bin f

/-- What is there has its folders above it. -/
def Rooted (g : Folder) : Prop :=
  ∀ name p, (g.lookup name).isSome = true → p <+: name → (g.lookup p).isSome = true ∨ p = []

section

variable {g : Folder}

theorem Rooted.mkdir (h : Rooted g) (q : Path) : Rooted (g.mkdir q) := by
  intro name p hname hpre
  rw [Folder.lookup_mkdir] at hname ⊢
  by_cases hp : p <+: q
  · rw [if_pos hp]
    exact Or.inl rfl
  · rw [if_neg hp]
    rw [if_neg fun hq => hp (hpre.trans hq)] at hname
    exact h name p hname hpre

theorem Rooted.insert (h : Rooted g) {q : Path} (node : Node)
    (habove : ∀ p, p <+: q.dropLast → (g.lookup p).isSome = true ∨ p = []) :
    Rooted (g.insert q node) := by
  intro name p hname hpre
  rw [Folder.lookup_insert] at hname ⊢
  by_cases hp : p = q
  · rw [if_pos hp]
    exact Or.inl rfl
  · rw [if_neg hp]
    by_cases hq : name = q
    · subst hq
      refine habove p ?_
      obtain ⟨rest, rfl⟩ := hpre
      have hrest : rest ≠ [] := by
        rintro rfl
        exact hp (List.append_nil p).symm
      rw [List.dropLast_append_of_ne_nil hrest]
      exact List.prefix_append p _
    · rw [if_neg hq] at hname
      exact h name p hname hpre

theorem extractall_rooted (files : List (Path × List Bytes)) (h : Rooted g) :
    (extractall [] files).wp Rooted (fun _ _ => True) g := by
  induction files generalizing g with
  | nil => exact ⟨h, trivial⟩
  | cons file files ih =>
    obtain ⟨name, pieces⟩ := file
    have habove : ∀ p, p <+: name.dropLast →
        ((g.mkdir name.dropLast).lookup p).isSome = true ∨ p = [] := by
      intro p hp
      rw [Folder.lookup_mkdir, if_pos hp]
      exact Or.inl rfl
    -- Once the member is there, its bytes make no difference.
    have hwrite : ∀ (pieces : List Bytes) (g : Folder), Rooted g →
        (g.lookup name).isSome = true →
        (writePieces name pieces >>= fun _ => extractall [] files).wp Rooted
          (fun _ _ => True) g := by
      intro pieces
      induction pieces with
      | nil => exact fun g hg _ => ih hg
      | cons piece pieces ihp =>
        intro g hg hthere
        show Script.wp _ (append name piece >>= fun _ =>
          writePieces name pieces >>= fun _ => extractall [] files) _ g
        refine Script.wp_change_bind.mpr ⟨hg, ?_⟩
        refine ihp _ ?_ ?_
        · refine hg.insert _ fun p hp => hg name p hthere ?_
          exact hp.trans (List.dropLast_prefix name)
        · rw [AList.lookup_insert]
          rfl
    refine Script.wp_change_bind.mpr ⟨h, Script.wp_change_bind.mpr ⟨h.mkdir _, ?_⟩⟩
    refine hwrite pieces _ ((h.mkdir _).insert _ habove) ?_
    show (AList.lookup name (AList.insert name _ _)).isSome = true
    rw [AList.lookup_insert]
    rfl

end

section

variable {bin : Path}

/-- The folder that is unpacked into, and an empty one that is. -/
def UnpackedAlike (bin : Path) (f g : Folder) : Prop :=
  (f.lookup bin).isSome = true ∧ Below bin f g

theorem Below.mkdir {f : Folder} (h : Below bin f ∅) : UnpackedAlike bin (f.mkdir bin) ∅ := by
  refine ⟨?_, fun name hname => ?_⟩
  · rw [Folder.lookup_mkdir, if_pos (List.prefix_refl bin)]
    rfl
  · rw [Folder.lookup_mkdir, if_neg]
    · exact h name hname
    · intro hpre
      exact hname (List.append_right_eq_self.mp
        (hpre.eq_of_length_le (by rw [List.length_append]; omega)))

theorem UnpackedAlike.insert {f g : Folder} (h : UnpackedAlike bin f g) {name : Path}
    (hname : name ≠ []) (node : Node) :
    UnpackedAlike bin (f.insert (bin ++ name) node) (g.insert name node) := by
  refine ⟨?_, fun name' hname' => ?_⟩
  · rw [AList.lookup_insert_ne]
    · exact h.1
    · intro heq
      exact hname (List.append_right_eq_self.mp heq.symm)
  · rw [Folder.lookup_insert, Folder.lookup_insert, h.2 name' hname']
    simp only [List.append_cancel_left_eq]

theorem writePieces_sim {name : Path} (hname : name ≠ []) (pieces : List Bytes) :
    (writePieces (bin ++ name) pieces).Sim (UnpackedAlike bin) (writePieces name pieces) := by
  induction pieces with
  | nil => rfl
  | cons piece pieces ih =>
    refine Script.Sim.bind (Script.Sim.change fun f g h => ?_) fun _ => ih
    have hsame : f.fileAt (bin ++ name) = g.fileAt name := by
      unfold Folder.fileAt
      rw [h.2 name hname]
    rw [hsame]
    exact h.insert hname _

theorem extractall_sim (files : List (Path × List Bytes))
    (hnamed : ∀ file ∈ files, file.1 ≠ []) :
    (extractall bin files).Sim (UnpackedAlike bin) (extractall [] files) := by
  induction files with
  | nil => rfl
  | cons file files ih =>
    obtain ⟨name, pieces⟩ := file
    have hname : name ≠ [] := hnamed _ List.mem_cons_self
    have hmkdir : (mkdir (bin ++ name).dropLast).Sim (UnpackedAlike bin)
        (mkdir name.dropLast) := by
      refine Script.Sim.change fun f g h => ⟨?_, fun name' hname' => ?_⟩
      · rw [Folder.lookup_mkdir]
        split_ifs
        · rfl
        · exact h.1
      · rw [List.dropLast_append_of_ne_nil hname, Folder.lookup_mkdir, Folder.lookup_mkdir,
          h.2 name' hname']
        simp only [List.prefix_append_right_inj]
    refine hmkdir.bind fun _ => (Script.Sim.change fun f g h => h.insert hname _).bind fun _ => ?_
    refine (writePieces_sim hname pieces).bind fun _ => ?_
    exact ih fun file hfile => hnamed file (List.mem_cons_of_mem _ hfile)

end

/-! ## The paths of a download -/

section

variable {roots : List Path} {env : Env} {d : Path}

/-- Nothing above a root is below one of the others. -/
theorem not_under_dropLast {p : Path} (hp : ¬ Under roots p) : ¬ Under roots p.dropLast := by
  rintro ⟨root, hroot, hpre⟩
  exact hp ⟨root, hroot, hpre.trans (List.dropLast_prefix p)⟩

theorem resetPath_local (hd : Under roots d) : (resetPath d false).Local (SameUnder roots) := by
  unfold resetPath
  refine (pathExists_local hd).bind fun _ => ?_
  simp only [Bool.false_and, Bool.false_eq_true, if_false]
  trivial

theorem resetPath_leaves : (resetPath d false).Leaves (SameUnder roots) := by
  unfold resetPath
  refine Script.Leaves.get.bind fun _ => ?_
  simp only [Bool.false_and, Bool.false_eq_true, if_false]
  trivial

theorem resetPath_apart {others : List Path} (hapart : Apart roots others) (hd : Under others d)
    (force : Bool) : (resetPath d force).Leaves (SameUnder roots) := by
  refine Script.Leaves.get.bind fun _ => ?_
  split_ifs
  · refine Script.Leaves.get.bind fun _ => ?_
    split_ifs
    · exact rmtree_leaves hapart hd
    · exact unlink_leaves (hapart.not_under hd)
  · trivial

theorem moveIntoPlace_local (files : List (Path × Bytes)) :
    (moveIntoPlace d files).Local (SameUnder roots) := by
  induction files with
  | nil => trivial
  | cons file files ih => exact mkdir_local.bind fun _ => put_local.bind fun _ => ih

theorem moveIntoPlace_leaves {others : List Path} (hapart : Apart roots others)
    (hd : Under others d) (files : List (Path × Bytes)) :
    (moveIntoPlace d files).Leaves (SameUnder roots) := by
  induction files with
  | nil => trivial
  | cons file files ih =>
    have hfile : ¬ Under roots (d ++ file.1) := hapart.not_under (hd.append file.1)
    exact (mkdir_leaves (not_under_dropLast hfile)).bind fun _ =>
      (put_leaves hfile).bind fun _ => ih

theorem downloadHfSnapshot_local (request : Snapshot) (hd : Under roots d) :
    (downloadHfSnapshot env request d false).Local (SameUnder roots) := by
  unfold downloadHfSnapshot snapshotDownload
  refine (resetPath_local hd).bind fun _ => mkdir_local.bind fun _ => mkdir_local.bind fun _ => ?_
  refine (moveIntoPlace_local _).bind fun _ => ?_
  split <;> trivial

theorem downloadHfSnapshot_leaves {others : List Path} (request : Snapshot)
    (hapart : Apart roots others) (hd : Under others d) :
    (downloadHfSnapshot env request d false).Leaves (SameUnder roots) := by
  have hnot : ¬ Under roots d := hapart.not_under hd
  unfold downloadHfSnapshot snapshotDownload
  refine resetPath_leaves.bind fun _ => (mkdir_leaves (not_under_dropLast hnot)).bind fun _ => ?_
  refine (mkdir_leaves hnot).bind fun _ => (moveIntoPlace_leaves hapart hd _).bind fun _ => ?_
  split <;> trivial

theorem copy_local {p : Path} (hp : Under roots p) (reads : List Bytes) (broken : Option Text) :
    (copy p reads broken).Local (SameUnder roots) := by
  induction reads with
  | nil => cases broken <;> trivial
  | cons chunk reads ih =>
    unfold copy
    split_ifs
    · trivial
    · exact (append_local hp).bind fun _ => ih

theorem copy_leaves {p : Path} (hp : ¬ Under roots p) (reads : List Bytes)
    (broken : Option Text) : (copy p reads broken).Leaves (SameUnder roots) := by
  induction reads with
  | nil => cases broken <;> trivial
  | cons chunk reads ih =>
    unfold copy
    split_ifs
    · trivial
    · exact (append_leaves hp).bind fun _ => ih

theorem receive_local {p : Path} (hp : Under roots p) (size : Nat) (response : Response) :
    (receive p size response).Local (SameUnder roots) := by
  have hcopy : ∀ size : Nat, (do
      if size = 0 then create p
      copy p response.reads response.broken : Download Unit).Local (SameUnder roots) := by
    intro size
    split_ifs
    · exact put_local.bind fun _ => copy_local hp _ _
    · exact copy_local hp _ _
  unfold receive
  split_ifs
  · exact unlink_local.bind fun _ => hcopy 0
  · exact hcopy size

theorem receive_leaves {p : Path} (hp : ¬ Under roots p) (size : Nat) (response : Response) :
    (receive p size response).Leaves (SameUnder roots) := by
  have hcopy : ∀ size : Nat, (do
      if size = 0 then create p
      copy p response.reads response.broken : Download Unit).Leaves (SameUnder roots) := by
    intro size
    split_ifs
    · exact (put_leaves hp).bind fun _ => copy_leaves hp _ _
    · exact copy_leaves hp _ _
  unfold receive
  split_ifs
  · exact (unlink_leaves hp).bind fun _ => hcopy 0
  · exact hcopy size

theorem downloadUrl_local (url : Text) (hd : Under roots d) (hpart : Under roots (partOf d)) :
    (downloadUrl env.urlopen url d false).Local (SameUnder roots) := by
  unfold downloadUrl
  refine (resetPath_local hd).bind fun _ => (pathExists_local hd).bind fun _ => ?_
  split_ifs
  · trivial
  · refine (pathExists_local hpart).bind fun _ => ?_
    simp only [Bool.false_and, Bool.false_eq_true, if_false]
    refine mkdir_local.bind fun _ => (fileSize_local hpart).bind fun _ => ?_
    split
    · trivial
    · exact (receive_local hpart _ _).bind fun _ => move_local hpart

theorem downloadUrl_leaves (url : Text) (hd : ¬ Under roots d)
    (hpart : ¬ Under roots (partOf d)) :
    (downloadUrl env.urlopen url d false).Leaves (SameUnder roots) := by
  unfold downloadUrl
  refine resetPath_leaves.bind fun _ => Script.Leaves.get.bind fun _ => ?_
  split_ifs
  · trivial
  · refine Script.Leaves.get.bind fun _ => ?_
    simp only [Bool.false_and, Bool.false_eq_true, if_false]
    refine (mkdir_leaves (not_under_dropLast hd)).bind fun _ => Script.Leaves.get.bind fun _ => ?_
    split
    · trivial
    · exact (receive_leaves hpart _ _).bind fun _ => move_leaves hpart hd

theorem ggml_local (assetId : AssetId) (filename revision : String) (sha256 : Option Text)
    (hd : Under roots (whisperCppModelFile filename))
    (hpart : Under roots (partOf (whisperCppModelFile filename))) :
    (ggml env assetId filename false revision sha256).Local (SameUnder roots) := by
  unfold ggml downloadHfFile
  refine (pathExists_local hd).bind fun _ => (downloadUrl_local _ hd hpart).bind fun _ => ?_
  split
  · trivial
  · refine (readFile_local hd).bind fun _ => ?_
    split_ifs
    · exact unlink_local.bind fun _ => trivial
    · trivial
    · trivial

theorem ggml_leaves (assetId : AssetId) (filename revision : String) (sha256 : Option Text)
    (hd : ¬ Under roots (whisperCppModelFile filename))
    (hpart : ¬ Under roots (partOf (whisperCppModelFile filename))) :
    (ggml env assetId filename false revision sha256).Leaves (SameUnder roots) := by
  unfold ggml downloadHfFile
  refine Script.Leaves.get.bind fun _ => (downloadUrl_leaves _ hd hpart).bind fun _ => ?_
  split
  · trivial
  · refine Script.Leaves.get.bind fun _ => ?_
    split_ifs
    · exact (unlink_leaves hd).bind fun _ => trivial
    · trivial
    · trivial

theorem githubReleaseAssetUrl_local {r : Folder → Folder → Prop} (tag assetName : Text) :
    (githubReleaseAssetUrl env tag assetName).Local r := by
  unfold githubReleaseAssetUrl
  split
  · trivial
  · split <;> trivial

theorem githubReleaseAssetUrl_leaves {r : Folder → Folder → Prop} (tag assetName : Text) :
    (githubReleaseAssetUrl env tag assetName).Leaves r := by
  unfold githubReleaseAssetUrl
  split
  · trivial
  · split <;> trivial

theorem writePieces_local {p : Path} (hp : Under roots p) (pieces : List Bytes) :
    (writePieces p pieces).Local (SameUnder roots) := by
  induction pieces with
  | nil => trivial
  | cons piece pieces ih => exact (append_local hp).bind fun _ => ih

theorem writePieces_leaves {p : Path} (hp : ¬ Under roots p) (pieces : List Bytes) :
    (writePieces p pieces).Leaves (SameUnder roots) := by
  induction pieces with
  | nil => trivial
  | cons piece pieces ih => exact (append_leaves hp).bind fun _ => ih

theorem extractall_local (hd : Under roots d) (members : List (Path × List Bytes)) :
    (extractall d members).Local (SameUnder roots) := by
  induction members with
  | nil => trivial
  | cons member members ih =>
    refine mkdir_local.bind fun _ => put_local.bind fun _ => ?_
    exact (writePieces_local (hd.append member.1) _).bind fun _ => ih

theorem extractall_leaves {others : List Path} (hapart : Apart roots others)
    (hd : Under others d) (members : List (Path × List Bytes)) :
    (extractall d members).Leaves (SameUnder roots) := by
  induction members with
  | nil => trivial
  | cons member members ih =>
    have hfile : ¬ Under roots (d ++ member.1) := hapart.not_under (hd.append member.1)
    refine (mkdir_leaves (not_under_dropLast hfile)).bind fun _ => ?_
    refine (put_leaves hfile).bind fun _ => ?_
    exact (writePieces_leaves hfile _).bind fun _ => ih

theorem extractZip_local {zip : Path} (hzip : Under roots zip) (hd : Under roots d) :
    (extractZip env zip d false).Local (SameUnder roots) := by
  unfold extractZip
  refine (resetPath_local hd).bind fun _ => (pathExists_local hd).bind fun _ => ?_
  refine (anyIn_local hd).bind fun _ => ?_
  split_ifs
  · trivial
  · refine mkdir_local.bind fun _ => (readFile_local hzip).bind fun _ => ?_
    split
    · trivial
    · exact extractall_local hd _

theorem extractZip_leaves {others : List Path} {zip : Path} (hapart : Apart roots others)
    (hd : Under others d) (force : Bool) :
    (extractZip env zip d force).Leaves (SameUnder roots) := by
  unfold extractZip
  refine (resetPath_apart hapart hd force).bind fun _ => Script.Leaves.get.bind fun _ => ?_
  refine Script.Leaves.get.bind fun _ => ?_
  split_ifs
  · trivial
  · refine (mkdir_leaves (hapart.not_under hd)).bind fun _ => Script.Leaves.get.bind fun _ => ?_
    split
    · trivial
    · exact extractall_leaves hapart hd _

end

/-- Where a download writes. -/
def Plan.roots : Plan → List Path
  | .snapshot _ destination => [destination]
  | .file _ filename _ _ => [whisperCppModelFile filename, partOf (whisperCppModelFile filename)]
  | .archive assetName bin =>
    [whisperCppZip assetName, partOf (whisperCppZip assetName), whisperCppBin bin]

theorem under_of_mem {roots : List Path} {p : Path} (h : p ∈ roots) : Under roots p :=
  ⟨p, h, List.prefix_refl p⟩

section

variable {request : Snapshot} {destination : Path} {assetId : AssetId}
  {filename revision : String} {sha256 : Option Text} {assetName : Text} {bin : String}

theorem Plan.under_destination :
    Under (Plan.roots (.snapshot request destination)) destination :=
  under_of_mem (by simp [Plan.roots])

theorem Plan.under_model :
    Under (Plan.roots (.file assetId filename revision sha256)) (whisperCppModelFile filename) :=
  under_of_mem (by simp [Plan.roots])

theorem Plan.under_modelPart :
    Under (Plan.roots (.file assetId filename revision sha256))
      (partOf (whisperCppModelFile filename)) :=
  under_of_mem (by simp [Plan.roots])

theorem Plan.under_zip : Under (Plan.roots (.archive assetName bin)) (whisperCppZip assetName) :=
  under_of_mem (by simp [Plan.roots])

theorem Plan.under_zipPart :
    Under (Plan.roots (.archive assetName bin)) (partOf (whisperCppZip assetName)) :=
  under_of_mem (by simp [Plan.roots])

theorem Plan.under_bin : Under (Plan.roots (.archive assetName bin)) (whisperCppBin bin) :=
  under_of_mem (by simp [Plan.roots])

end

theorem Plan.script_local (env : Env) (p : Plan) :
    (p.script env).Local (SameUnder p.roots) := by
  cases p with
  | snapshot request destination => exact downloadHfSnapshot_local request Plan.under_destination
  | file assetId filename revision sha256 =>
    exact ggml_local assetId filename revision sha256 Plan.under_model Plan.under_modelPart
  | archive assetName bin =>
    refine (githubReleaseAssetUrl_local _ _).bind fun url => ?_
    refine (downloadUrl_local url Plan.under_zip Plan.under_zipPart).bind fun _ => ?_
    exact extractZip_local Plan.under_zip Plan.under_bin

/-- A download leaves alone what is apart from its own paths. -/
theorem Plan.script_leaves (env : Env) (p : Plan) {roots : List Path}
    (hapart : Apart roots p.roots) : (p.script env).Leaves (SameUnder roots) := by
  cases p with
  | snapshot request destination =>
    exact downloadHfSnapshot_leaves request hapart Plan.under_destination
  | file assetId filename revision sha256 =>
    exact ggml_leaves assetId filename revision sha256 (hapart.not_under Plan.under_model)
      (hapart.not_under Plan.under_modelPart)
  | archive assetName bin =>
    refine (githubReleaseAssetUrl_leaves _ _).bind fun url => ?_
    refine (downloadUrl_leaves url (hapart.not_under Plan.under_zip)
      (hapart.not_under Plan.under_zipPart)).bind fun _ => ?_
    exact extractZip_leaves hapart Plan.under_bin false

/-- An archive is not unpacked over itself. -/
theorem archive_apart {id : AssetId} {assetName : Text} {bin : String}
    (hplan : plan id = some (.archive assetName bin)) :
    Apart [whisperCppBin bin] [whisperCppZip assetName, partOf (whisperCppZip assetName)] := by
  cases id <;> cases hplan <;> (unfold Apart; decide)

/-- No two downloads share a path. -/
theorem plans_apart {i j : AssetId} {p q : Plan} (hp : plan i = some p) (hq : plan j = some q)
    (hne : j ≠ i) : Apart p.roots q.roots := by
  cases i <;> cases hp <;> cases j <;> cases hq <;>
    first
    | exact absurd rfl hne
    | (unfold Apart; decide)

/-! ## A run keeps its invariant -/

section

variable {env : Env} {remote : Remote} {f : Folder}

theorem FileInv.congr {url : Text} {d : Path} {f g : Folder}
    (h : SameUnder [d, partOf d] f g) (hf : FileInv remote url d f) : FileInv remote url d g where
  finished node hnode := by
    rw [← h d (under_of_mem (by simp))] at hnode
    exact hf.finished node hnode
  part node hnode := by
    rw [← h (partOf d) (under_of_mem (by simp))] at hnode
    exact hf.part node hnode

theorem Below.congr {bin : Path} {f f' g : Folder} (h : SameUnder [bin] f f')
    (hf : Below bin f g) : Below bin f' g := by
  intro name hname
  rw [← h _ ((under_of_mem (List.mem_singleton_self bin)).append name)]
  exact hf name hname

theorem Unpacking.congr {zip : Bytes} {bin : Path} {f g : Folder} (h : SameUnder [bin] f g)
    (hf : Unpacking remote zip bin f) : Unpacking remote zip bin g := by
  obtain ⟨hsome, files, u, hmembers, hu, hbelow⟩ := hf
  refine ⟨?_, files, u, hmembers, hu, hbelow.congr h⟩
  rw [← h bin (under_of_mem (List.mem_singleton_self bin))]
  exact hsome

/-- A folder that holds anything holds something directly. -/
theorem Unpacking.below_empty {zip : Bytes} {bin : Path} (h : Unpacking remote zip bin f)
    (hempty : f.anyIn bin = false) : Below bin f ∅ := by
  obtain ⟨-, files, g, -, hg, hbelow⟩ := h
  have hroot : Rooted g := Script.wp_trail (extractall_rooted files (g := ∅) fun name p hname => by
    cases hname) g hg
  intro name hname
  rw [hbelow name hname]
  by_contra hsome
  obtain ⟨first, rest, rfl⟩ := List.exists_cons_of_ne_nil hname
  have hthere : (g.lookup (first :: rest)).isSome = true := Option.isSome_iff_ne_none.mpr hsome
  rcases hroot _ [first] hthere ⟨rest, rfl⟩ with hfirst | hnil
  · have hany : f.anyIn bin = true := by
      refine Folder.anyIn_iff.mpr ⟨first, ?_⟩
      rw [hbelow _ (List.cons_ne_nil _ _)]
      exact hfirst
    rw [hempty] at hany
    cases hany
  · cases hnil

theorem extractZip_wp {zip : Bytes} {zipPath bin : Path} (henv : env.Honours remote)
    (hzip : f.lookup zipPath = some (.file zip))
    (h : Below bin f ∅ ∨ Unpacking remote zip bin f) :
    (extractZip env zipPath bin false).wp
      (fun f => Below bin f ∅ ∨ Unpacking remote zip bin f) (fun _ _ => True) f := by
  unfold extractZip
  rw [Script.wp_bind]
  refine Script.wp_mono (resetPath_wp h bin) fun _ f' _ heq => ?_
  rw [heq]
  refine Script.wp_get_bind.mpr (Script.wp_get_bind.mpr ?_)
  by_cases hdone : ((f.lookup bin).isSome && f.anyIn bin) = true
  · rw [if_pos hdone]
    exact ⟨h, trivial⟩
  · rw [if_neg hdone]
    have hempty : Below bin f ∅ := by
      rcases h with h | h
      · exact h
      · refine h.below_empty ?_
        have hsome := h.1
        simpa [hsome] using hdone
    have hmkdir := hempty.mkdir
    refine Script.wp_change_bind.mpr ⟨h, Script.wp_get_bind.mpr ?_⟩
    have hread : (Folder.fileAt (f.mkdir bin) zipPath).getD [] = zip := by
      rw [Folder.fileAt_mkdir, Folder.fileAt_eq_some.mpr hzip]
      rfl
    rw [hread]
    cases hmembers : env.members zip with
    | error error => exact Or.inl hmkdir.2
    | ok files =>
      have hfiles := henv.members zip files hmembers
      have hnamed : ∀ file ∈ files, file.1 ≠ [] := fun file hfile =>
        remote.membersNamed zip _ hfiles _ (List.mem_map_of_mem hfile)
      -- From here on it is what unpacking into an empty folder is.
      refine Script.wp_imp ((extractall_sim files hnamed).wp hmkdir) ?_
      rintro f ⟨g, hg, hsome, hbelow⟩
      exact Or.inr ⟨hsome, files, g, hfiles, hg, hbelow⟩

theorem Apart.symm {roots others : List Path} (h : Apart roots others) : Apart others roots :=
  fun root hroot other hother => (h other hother root hroot).symm

theorem extractZip_archive_wp {url : Text} {zip : Bytes} {zipPath bin : Path}
    (henv : env.Honours remote) (hapart : Apart [bin] [zipPath, partOf zipPath])
    (hfile : FileInv remote url zipPath f) (hzip : f.lookup zipPath = some (.file zip))
    (hdelivers : remote.Delivers url zip) (h : Below bin f ∅ ∨ Unpacking remote zip bin f) :
    (extractZip env zipPath bin false).wp (ArchiveInv remote url zipPath bin)
      (fun _ _ => True) f := by
  have hleaves : (extractZip env zipPath bin false).Leaves (SameUnder [zipPath, partOf zipPath]) :=
    extractZip_leaves hapart.symm (under_of_mem (List.mem_singleton_self bin)) false
  have hkeep : ∀ f g : Folder, SameUnder [zipPath, partOf zipPath] f g →
      (FileInv remote url zipPath f ∧ f.lookup zipPath = some (.file zip)) →
      FileInv remote url zipPath g ∧ g.lookup zipPath = some (.file zip) := by
    rintro f g hsame ⟨hf, hz⟩
    exact ⟨hf.congr hsame, hsame zipPath (under_of_mem (by simp)) ▸ hz⟩
  have hwp := hleaves.wp_frame hkeep ⟨hfile, hzip⟩ (extractZip_wp henv hzip h)
  refine Script.wp_mono (Script.wp_imp hwp ?_) fun _ _ _ _ => trivial
  rintro f ⟨hbin, hf, hz⟩
  refine ⟨hf, ?_⟩
  rcases hbin with hempty | hunpacking
  · exact Or.inl hempty
  · exact Or.inr ⟨zip, hz, hdelivers, hunpacking⟩

theorem githubReleaseAssetUrl_wp (henv : env.Honours remote) (tag assetName : Text)
    {cut : Folder → Prop} (h : cut f) : (githubReleaseAssetUrl env tag assetName).wp cut
      (fun url f' => f' = f ∧ url = remote.releaseUrl tag assetName) f := by
  unfold githubReleaseAssetUrl
  cases hrelease : env.release tag with
  | error error => exact h
  | ok assets =>
    cases hfound : assets.find? fun asset => asset.1 = assetName with
    | none => simpa [hfound] using h
    | some asset =>
      have hurl := henv.release tag assets hrelease asset (List.mem_of_find?_eq_some hfound)
      have hname : asset.1 = assetName := by simpa using List.find?_some hfound
      simp only [hfound]
      exact ⟨h, rfl, by rw [hurl, hname]⟩

theorem githubReleaseAssetUrl_run {tag assetName url : Text}
    (h : env.release tag = .ok [(assetName, url)]) :
    (githubReleaseAssetUrl env tag assetName).run f = (.ok url, f) := by
  simp [githubReleaseAssetUrl, h]

theorem downloadArchive_wp (henv : env.Honours remote) (assetName : Text) (bin : String)
    (hapart : Apart [whisperCppBin bin] [whisperCppZip assetName, partOf (whisperCppZip assetName)])
    (h : ArchiveInv remote (remote.releaseUrl whisperCppRelease assetName)
      (whisperCppZip assetName) (whisperCppBin bin) f) :
    (downloadArchive env assetName bin false).wp
      (ArchiveInv remote (remote.releaseUrl whisperCppRelease assetName)
        (whisperCppZip assetName) (whisperCppBin bin)) (fun _ _ => True) f := by
  have hd : whisperCppZip assetName ≠ [] := List.cons_ne_nil _ _
  unfold downloadArchive
  rw [Script.wp_bind]
  refine Script.wp_mono (githubReleaseAssetUrl_wp henv whisperCppRelease assetName h) ?_
  rintro url f' - ⟨heq, rfl⟩
  rw [heq, Script.wp_bind]
  cases hnode : f.lookup (whisperCppZip assetName) with
  | some node =>
    -- The archive is there, and is not downloaded again.
    obtain ⟨zip, rfl, hdelivers⟩ := h.file.finished node hnode
    have hbin : Below (whisperCppBin bin) f ∅ ∨ Unpacking remote zip (whisperCppBin bin) f := by
      rcases h.unpacked with hempty | ⟨zip', hzip', -, hunpacking⟩
      · exact Or.inl hempty
      · rw [hnode] at hzip'
        obtain rfl := Node.file.inj (Option.some.inj hzip')
        exact Or.inr hunpacking
    refine Script.wp_mono (downloadUrl_there h (by rw [hnode]; rfl)) fun _ f'' _ heq' => ?_
    rw [heq']
    exact extractZip_archive_wp henv hapart h.file hnode hdelivers hbin
  | none =>
    -- Nothing has been unpacked yet, and the download leaves that as it is.
    have hempty : Below (whisperCppBin bin) f ∅ := by
      rcases h.unpacked with hempty | ⟨zip, hzip, -⟩
      · exact hempty
      · rw [hnode] at hzip
        cases hzip
    have hleaves : (downloadUrl env.urlopen (remote.releaseUrl whisperCppRelease assetName)
        (whisperCppZip assetName) false).Leaves (SameUnder [whisperCppBin bin]) :=
      downloadUrl_leaves _ (hapart.not_under (under_of_mem (by simp)))
        (hapart.not_under (under_of_mem (by simp)))
    have hwp := hleaves.wp_frame (fun _ _ hsame => Below.congr hsame (g := ∅)) hempty
      (downloadUrl_wp (henv.connects _) hd false h.file)
    refine Script.wp_mono (Script.wp_imp hwp fun f hf => ⟨hf.1, Or.inl hf.2⟩) ?_
    rintro _ f hf ⟨⟨zip, hzip, hdelivers⟩, hempty⟩
    exact extractZip_archive_wp henv hapart hf.file hzip hdelivers (Or.inl hempty)

end

/-! ## All the downloads of the app -/

/-- What holds of the folder as far as one download is concerned. -/
def Plan.Inv (remote : Remote) : Plan → Folder → Prop
  | .snapshot request destination => SnapshotInv remote request destination
  | .file _ filename revision _ =>
    FileInv remote (hfUrl "ggerganov/whisper.cpp".toList revision.toList filename.toList)
      (whisperCppModelFile filename)
  | .archive assetName bin =>
    ArchiveInv remote (remote.releaseUrl whisperCppRelease assetName) (whisperCppZip assetName)
      (whisperCppBin bin)

theorem Plan.inv_empty (remote : Remote) (p : Plan) : p.Inv remote ∅ := by
  have hfile : ∀ url d, FileInv remote url d ∅ := fun _ _ => .of_nothing rfl rfl
  cases p with
  | snapshot =>
    intro name bytes hname
    cases hname
  | file => exact hfile _ _
  | archive => exact ⟨hfile _ _, Or.inl fun _ _ => rfl⟩

theorem SameUnder.mono {roots others : List Path} {f g : Folder} (h : SameUnder roots f g)
    (hsub : others ⊆ roots) : SameUnder others f g := by
  rintro p ⟨root, hroot, hpre⟩
  exact h p ⟨root, hsub hroot, hpre⟩

theorem Plan.Inv.congr {remote : Remote} {p : Plan} {f g : Folder} (h : SameUnder p.roots f g)
    (hf : p.Inv remote f) : p.Inv remote g := by
  cases p with
  | snapshot request destination =>
    intro name bytes hname
    refine hf name bytes ?_
    rw [h.fileAt (Plan.under_destination.append name)]
    exact hname
  | file => exact FileInv.congr h hf
  | archive assetName bin =>
    have hzip : SameUnder [whisperCppZip assetName, partOf (whisperCppZip assetName)] f g :=
      h.mono (by simp [Plan.roots])
    have hbin : SameUnder [whisperCppBin bin] f g := h.mono (by simp [Plan.roots])
    refine ⟨hf.file.congr hzip, ?_⟩
    rcases hf.unpacked with hempty | ⟨zip, hthere, hdelivers, hunpacking⟩
    · exact Or.inl (hempty.congr hbin)
    · refine Or.inr ⟨zip, ?_, hdelivers, hunpacking.congr hbin⟩
      rw [← hzip _ (under_of_mem (by simp))]
      exact hthere

theorem Plan.script_wp {env : Env} {remote : Remote} (henv : env.Honours remote) {id : AssetId}
    {p : Plan} (hplan : plan id = some p) {f : Folder} (h : p.Inv remote f) :
    (p.script env).wp (p.Inv remote) (fun _ => p.Inv remote) f := by
  have hcut : (p.script env).wp (p.Inv remote) (fun _ _ => True) f := by
    cases p with
    | snapshot request destination =>
      exact Script.wp_mono (downloadHfSnapshot_wp henv h) fun _ _ _ _ => trivial
    | file assetId filename revision sha256 => exact ggml_wp henv assetId filename revision sha256 h
    | archive assetName bin => exact downloadArchive_wp henv assetName bin (archive_apart hplan) h
  exact Script.wp_mono hcut fun _ _ hinv _ => hinv

/-- The downloads the app starts. -/
def programs (remote : Remote) (id : AssetId) (x : Download Unit) : Prop :=
  id ∈ assetChoices ∧ ∃ env : Env, env.Honours remote ∧ x = downloadAssets env (onlyArgs id)

/-- Any downloads, in any order and at the same time, each of which may be killed after any
    of its actions, from an empty data folder. -/
def downloads (remote : Remote) : Transition.System (Farm.State Folder Text AssetId) :=
  Farm.system (programs remote) ∅

theorem plan_of_choice {id : AssetId} (h : id ∈ assetChoices) : ∃ p, plan id = some p := by
  cases id <;> first | exact ⟨_, rfl⟩ | exact absurd h (by decide)

theorem programs_plan {remote : Remote} {id : AssetId} {x : Download Unit}
    (h : programs remote id x) :
    ∃ p env, plan id = some p ∧ Env.Honours env remote ∧ x = p.script env := by
  obtain ⟨hchoice, env, henv, rfl⟩ := h
  obtain ⟨p, hplan⟩ := plan_of_choice hchoice
  exact ⟨p, env, hplan, henv, downloadAssets_only env hplan⟩

theorem plan_inv {remote : Remote} {id : AssetId} {p : Plan} (hplan : plan id = some p)
    {w : Farm.State Folder Text AssetId} (hw : (downloads remote).Reachable w) :
    p.Inv remote w.store := by
  refine Farm.interleaved (i := id) (r := SameUnder p.roots) ?_ ?_ ?_
    (fun _ _ h => Plan.Inv.congr h) (p.inv_empty remote) hw
  · intro x hx f hf
    obtain ⟨q, env, hq, henv, rfl⟩ := programs_plan hx
    obtain rfl := Option.some.inj (hplan.symm.trans hq)
    exact Plan.script_wp henv hplan hf
  · intro x hx
    obtain ⟨q, env, hq, -, rfl⟩ := programs_plan hx
    obtain rfl := Option.some.inj (hplan.symm.trans hq)
    exact p.script_local env
  · intro j hne x hx
    obtain ⟨q, env, hq, -, rfl⟩ := programs_plan hx
    exact q.script_leaves env (plans_apart hplan hq hne)

end Assets
end LocalMeetingStt
