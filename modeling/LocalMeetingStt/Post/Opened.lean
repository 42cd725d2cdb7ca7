import LocalMeetingStt.Post.Output

/-!
# Opening the transcript just written

The page's path and the backend's, brought to the same form: a folder, a `\` and a name.
The names are the same for a plain one, the folders by what `push` does with a name. For
every other name or folder a data root is shown where the two differ; it is the same one
each time, `C:\data`.
-/

namespace LocalMeetingStt
namespace Output

open WinPath

/-! ## The two paths -/

section

variable (audio : AudioFile) (kind : Kind) (outputDir : Text)

theorem AudioFile.isName : IsName audio.name := by
  obtain ⟨_, _, _, _, _, _, _, hlast⟩ := exists_root audio.absolute audio.fileName
  exact isName_of_mem_body (List.mem_of_getLast? hlast) audio.unbroken

theorem basename_text : basename audio.text = audio.name := by
  have hsep : (!WinPath.isSep audio.sep) = false := by rw [audio.isSep]; rfl
  have hname : ∀ c ∈ audio.name, (!WinPath.isSep c) = true := fun c hc => by
    rw [audio.unbroken c hc]
    rfl
  rw [basename, AudioFile.text, rtakeWhile_sep audio.folder hsep hname,
    if_neg audio.isName.ne_nil]

theorem length_sessionAudio {name : Text} (h : isSessionAudio name = true) : name.length = 9 := by
  rw [isSessionAudio, beq_iff_eq] at h
  simpa using congrArg List.length h

theorem dropSessionAudio_text (h : isSessionAudio audio.name = true) :
    dropSessionAudio audio.text = audio.folder := by
  have hlen := length_sessionAudio h
  have hat : audio.text.length - 10 = audio.folder.length := by
    simp only [AudioFile.text, List.length_append, List.length_cons, hlen]
    omega
  have hdrop : audio.text.drop audio.folder.length = audio.sep :: audio.name := by
    rw [AudioFile.text, List.drop_left]
  have htake : audio.text.take audio.folder.length = audio.folder := by
    rw [AudioFile.text, List.take_left]
  rw [dropSessionAudio, hat, hdrop]
  simp only [audio.isSep, h, Bool.and_self, if_true, htake]

theorem outputSuffixes_ne_nil : outputSuffixes kind ≠ [] := by
  rw [outputSuffixes_eq]
  exact List.ne_nil_of_length_pos (by have := suffix_plain kind; omega)

theorem expectOutput_session (last : Text) (h : isSessionAudio audio.name = true) :
    expectOutput last kind audio.text outputDir = audio.folder ++ '\\' :: (suffix kind ++ txt) := by
  have hne : ¬(outputSuffixes kind = [] ∨ audio.text = []) := by
    rintro (hs | ht)
    · exact outputSuffixes_ne_nil kind hs
    · simp [AudioFile.text] at ht
  rw [expectOutput, if_neg hne, basename_text, if_pos h, dropSessionAudio_text audio h,
    outputSuffixes_eq]

theorem expectOutput_other (last : Text) (h : ¬isSessionAudio audio.name = true) :
    expectOutput last kind audio.text outputDir =
      trimSep (outputDirSetting outputDir) ++
        '\\' :: transcriptName (pageStem audio.name) kind := by
  have hne : ¬(outputSuffixes kind = [] ∨ audio.text = []) := by
    rintro (hs | ht)
    · exact outputSuffixes_ne_nil kind hs
    · simp [AudioFile.text] at ht
  rw [expectOutput, if_neg hne, basename_text, if_neg h, outputSuffixes_eq]
  rfl

theorem outputDirSetting_ne_nil : outputDirSetting outputDir ≠ [] := by
  rw [outputDirSetting]
  split
  · decide
  · assumption

/-- Taking `.txt` off a path that ends with it, and putting it back. -/
theorem withoutTxt_append {path : Path} (h : txt <:+ path) : withoutTxt path ++ txt = path := by
  obtain ⟨u, rfl⟩ := h
  rw [withoutTxt, if_pos (List.suffix_append _ _), List.length_append, Nat.add_sub_cancel,
    List.take_left]

theorem written_eq (paths : AppPaths) {path : Path} (h : txt <:+ path)
    (heq : transcriptOutputPath audio.text (resolveOutputDir paths outputDir) (suffix kind) =
      path) : written paths kind audio.text outputDir = path := by
  rw [written, heq]
  split
  · exact withoutTxt_append h
  · rfl

theorem written_session (paths : AppPaths) (h : isSessionAudio audio.name = true) :
    written paths kind audio.text outputDir = withFileName audio.text (suffix kind ++ txt) := by
  refine written_eq audio kind outputDir paths ?_ ?_
  · exact (List.suffix_append _ _).trans (push_suffix _ (isName_suffix kind))
  · rw [transcriptOutputPath, AudioFile.text, audio.fileName, Option.getD_some, if_pos h]

theorem written_other (paths : AppPaths) (h : ¬isSessionAudio audio.name = true)
    (hne : outputDir ≠ []) :
    written paths kind audio.text outputDir =
      push (paths.inDataRoot (trim outputDir)) (transcriptName (stemOf audio.name) kind) := by
  refine written_eq audio kind outputDir paths ?_ ?_
  · refine List.IsSuffix.trans ?_ (push_suffix _
      (isName_written audio.isName kind))
    exact ⟨stemOf audio.name ++ '_' :: suffix kind, by simp [transcriptName]⟩
  · rw [transcriptOutputPath, fileStem, AudioFile.text, audio.fileName, Option.getD_some,
      if_neg h, resolveOutputDir, if_neg hne]
    rfl

/-- The second path of `session_audio_gets_its_transcript_beside_it`. -/
example : transcriptOutputPath "D:\\calls\\weekly sync.m4a".toList "C:\\data\\outputs".toList
    (suffix .qwenGpu) = "C:\\data\\outputs\\weekly sync_qwen_gpu_transcript.txt".toList := by
  decide

end

/-! ## Reading a path in the data root -/

theorem inDataRoot_of_isSome (paths : AppPaths) {t : Path} (h : (parsePrefix t).isSome = true) :
    paths.inDataRoot t = t := by
  rw [AppPaths.inDataRoot]
  split
  · rfl
  · exact push_of_isSome h

theorem inDataRoot_of_none (paths : AppPaths) {t : Path} (h : parsePrefix t = none) :
    paths.inDataRoot t = push paths.dataRoot t := by
  have habs : isAbsolute t = false := by rw [isAbsolute, h]; exact Bool.and_false _
  rw [AppPaths.inDataRoot, habs, if_neg Bool.false_ne_true]

theorem opensWritten_iff_same {paths : AppPaths} {last : Text} {kind : Kind}
    {audio outputDir target : Text} (ht : expectOutput last kind audio outputDir = target)
    (hne : target ≠ []) :
    OpensWritten paths last kind audio outputDir ↔
      isUrl target = false ∧
        SameFile (paths.inDataRoot target)
          (written paths kind audio (outputDirSetting outputDir)) := by
  rw [OpensWritten, openPath, ht, if_neg hne]
  cases isUrl target <;> simp

/-- A name joined to a text makes no URL of it. -/
theorem isUrl_join (t x : Text) : isUrl (t ++ '\\' :: x) = isUrl t := by
  have hiff : ∀ l : Text, '\\' ∉ l → (l <+: t ++ '\\' :: x ↔ l <+: t) := fun l hl =>
    ⟨fun h => prefix_before h hl, fun h => h.trans (List.prefix_append _ _)⟩
  rw [isUrl, isUrl]
  simp only [hiff "https://".toList (by decide), hiff "http://".toList (by decide)]

/-! ## Where they agree -/

section

variable {folder x : Path}

/-- A name joined to a plain folder, in any data root. -/
theorem sameFile_of_plainFolder (paths : AppPaths) (h : JoinsPlainly folder)
    (hne : folder ≠ []) (hx : IsName x) (hd : parseDrive x = none) :
    SameFile (paths.inDataRoot (trimSep folder ++ '\\' :: x))
      (push (paths.inDataRoot folder) x) := by
  unfold JoinsPlainly at h
  split at h
  · rename_i hp
    have hj := parsePrefix_not_server hp h hx
    rw [inDataRoot_of_none paths hp, inDataRoot_of_none paths hj]
    exact (push_push paths.settled hp hne hj hx hd).symm
  · rename_i p hp
    rw [inDataRoot_of_isSome paths (t := folder) (by rw [hp]; rfl)]
    split at h
    · rename_i hv
      obtain ⟨hsome, hsame⟩ := sameFile_verbatim hp hv h hx hd
      rwa [inDataRoot_of_isSome paths hsome]
    · rename_i hv
      have hv : p.isVerbatim = false := by simpa using hv
      rw [inDataRoot_of_isSome paths (parsePrefix_join hp hv hx.unbroken)]
      exact (components_push_plain (not_mark_of_plain hp hv) hne h hx hd
        (not_mark_join hp hv hx.unbroken)).symm

end

theorem isUrl_of_isSome {t : Text} (h : (parsePrefix t).isSome = true) : isUrl t = false := by
  rw [← Bool.not_eq_true]
  intro hurl
  obtain ⟨y, rfl⟩ : ∃ y, t = 'h' :: 't' :: y := by
    rw [isUrl, Bool.or_eq_true, decide_eq_true_iff, decide_eq_true_iff] at hurl
    rcases hurl with ⟨y, rfl⟩ | ⟨y, rfl⟩ <;> exact ⟨_, rfl⟩
  have hm : ¬mark <+: 'h' :: 't' :: y := by simp [mark]
  have hs : strip ['\\', '\\'] ('h' :: 't' :: slashed y) = none := by simp [strip]
  have hd : parseDrive ('h' :: 't' :: slashed y) = none :=
    parseDrive_eq_none fun d rest he => by simp at he
  have hslash : slashed ('h' :: 't' :: y) = 'h' :: 't' :: slashed y := rfl
  rw [parsePrefix_plain hm, hslash, plainPrefix, hs, hd] at h
  cases h

/-- Beside a recording, where its prefix is whole. -/
theorem opens_session (paths : AppPaths) (last : Text) (kind : Kind) (audio : AudioFile)
    (outputDir : Text) (hs : isSessionAudio audio.name = true)
    (hcomplete : ∀ p ∈ parsePrefix audio.text, p.Complete) :
    OpensWritten paths last kind audio.text outputDir := by
  obtain ⟨p, cs, hwritten, hpage⟩ := withFileName_eq (t := audio.text) rfl audio.isSep
    audio.unbroken audio.absolute audio.fileName (fun p hp => hcomplete p hp)
    (isName_suffix kind) (parseDrive_suffix kind)
  have hp : (parsePrefix (audio.folder ++ '\\' :: (suffix kind ++ txt))).isSome = true := by
    rw [parsePrefix_of_components hpage]
    rfl
  refine (opensWritten_iff_same (expectOutput_session audio kind outputDir last hs)
    (by simp)).mpr ⟨isUrl_of_isSome hp, ?_⟩
  rw [written_session audio kind _ paths hs, inDataRoot_of_isSome paths hp, SameFile, hpage,
    hwritten]

/-- In the output folder, for a plain name. -/
theorem opens_other (paths : AppPaths) (last : Text) (kind : Kind) (audio : AudioFile)
    (outputDir : Text) (hs : ¬isSessionAudio audio.name = true) (hstem : PlainStem audio.name)
    (hdrive : parseDrive audio.name = none) (hfolder : PlainFolder (outputDirSetting outputDir)) :
    OpensWritten paths last kind audio.text outputDir := by
  have hname := audio.isName
  have hx := isName_written hname kind
  have hd := (parseDrive_written hname kind).trans hdrive
  have htarget := expectOutput_other audio kind outputDir last hs
  rw [(pageStem_eq_iff hname).mpr hstem] at htarget
  refine (opensWritten_iff_same htarget (by simp)).mpr ⟨?_, ?_⟩
  · rw [isUrl_join]
    exact hfolder.not_url
  · rw [written_other audio kind _ paths hs (outputDirSetting_ne_nil outputDir), hfolder.trimmed]
    exact sameFile_of_plainFolder paths hfolder.joins (outputDirSetting_ne_nil outputDir) hx hd

/-! ## Where they do not -/

/-- The data root the disagreements are shown in. -/
def dataRoot : AppPaths where
  dataRoot := "C:\\data".toList
  settled := by decide

theorem inDataRoot_join (t x : Text) :
    ∃ u, dataRoot.inDataRoot (t ++ '\\' :: x) = u ++ '\\' :: x := by
  cases hp : parsePrefix (t ++ '\\' :: x) with
  | some p => exact ⟨t, inDataRoot_of_isSome dataRoot (by rw [hp]; rfl)⟩
  | none =>
    rw [inDataRoot_of_none dataRoot hp, push_none (by decide) hp, ← List.append_assoc]
    exact ⟨_, rfl⟩

/-- What follows a drive is the only name. -/
theorem names_of_drive {x : Path} (hx : IsName x) (hd : (parseDrive x).isSome = true)
    {n : Path} (h : n ∈ names (components x)) : n.length < x.length := by
  obtain ⟨d, y, rfl, letter, hp⟩ := hx.drive hd
  have hy : Unbroken y := fun c hc => hx.unbroken c (by simp [hc])
  have hparsed : Parsed (d :: ':' :: y) [d, ':'] y (.disk d.toUpper) :=
    ⟨hx.seen, hp, .disk letter⟩
  have hroot : hasPhysicalRoot y = false := by
    cases y with
    | nil => rfl
    | cons c y => exact hy c (List.mem_cons_self ..)
  have hnames : names (components (d :: ':' :: y)) = names (body false y) := by
    rw [hparsed.components_eq, startDir, hroot]
    rfl
  rw [hnames, body_of_not_mem false hy.not_mem.1] at h
  have hle : n.length ≤ y.length := by
    cases hs : single false y with
    | none => rw [hs] at h; cases h
    | some c =>
      have hc : c.names = [y] := by
        rcases single_cases hs with ⟨hv, -⟩ | ⟨rfl, rfl⟩ | ⟨-, -, -, rfl⟩
        · cases hv
        · rfl
        · rfl
      have hn : n = y := by
        rw [hs] at h
        simpa [names, hc] using h
      rw [hn]
  simp only [List.length_cons]
  omega

section

variable {last : Text} {kind : Kind} {audio : AudioFile} {outputDir : Text}

/-- A recording below a server without a share is not found again. -/
theorem complete_of_opens (hs : isSessionAudio audio.name = true)
    (h : OpensWritten dataRoot last kind audio.text outputDir) :
    ∀ p ∈ parsePrefix audio.text, p.Complete := by
  intro p hp
  by_contra hcomplete
  have hname := audio.isName
  obtain ⟨-, hsame⟩ := (opensWritten_iff_same (expectOutput_session audio kind outputDir last hs)
    (by simp)).mp h
  have hwritten : written dataRoot kind audio.text (outputDirSetting outputDir) =
      push (pop audio.text) (suffix kind ++ txt) := by
    rw [written_session audio kind _ dataRoot hs, withFileName, AudioFile.text, audio.fileName,
      Option.isSome_some, if_pos rfl]
  obtain ⟨q, raw, c, w, hparsed, hc, -, hlast⟩ := exists_root audio.absolute audio.fileName
  obtain rfl : p = q := Option.some.inj (hp.symm.trans hparsed.parse)
  obtain ⟨server, rfl, rfl, hw⟩ := hparsed.reads.incomplete hcomplete
  have hcut : raw ++ '\\' :: w = audio.folder ++ audio.sep :: audio.name :=
    (hparsed.text rfl).symm
  rcases name_at rfl audio.unbroken hcut with ⟨-, -, rfl⟩ | ⟨d, hfolder, rfl⟩
  · rcases hw with hnil | ⟨z, hz⟩
    · exact hname.ne_nil hnil
    · exact hname.unbroken.not_mem.1 (by rw [hz]; simp)
  -- the page keeps the empty share, the backend's first name becomes the share
  have hsep : audio.sep = '\\' := lastName_of_last audio.isSep audio.unbroken hlast
  have hpop := pop_parsed hparsed (fun u hu => hparsed.reads.server_follow (hw.of_isPrefix hu)) rfl
    (by
      rw [hsep, lastName_sep hname.unbroken.not_mem.1, hname.single]
      rfl)
  obtain ⟨hpage, hdiffers⟩ := push_server_ne hpop (isName_suffix kind) (parseDrive_suffix kind)
    (hw.of_isPrefix (List.prefix_append d _))
  have htarget : audio.folder ++ '\\' :: (suffix kind ++ txt) =
      raw ++ '\\' :: (d ++ '\\' :: (suffix kind ++ txt)) := by
    rw [hfolder, List.append_assoc, List.cons_append]
  rw [htarget, inDataRoot_of_isSome dataRoot (by rw [hpage]; rfl), hwritten] at hsame
  exact hdiffers hsame

/-- What it takes for the two names to come out the same. -/
theorem plainStem_of_opens (hs : ¬isSessionAudio audio.name = true)
    (h : OpensWritten dataRoot last kind audio.text outputDir) :
    PlainStem audio.name ∧ parseDrive audio.name = none := by
  have hname := audio.isName
  obtain ⟨-, hsame⟩ := (opensWritten_iff_same (expectOutput_other audio kind outputDir last hs)
    (by simp)).mp h
  rw [written_other audio kind _ dataRoot hs (outputDirSetting_ne_nil outputDir)] at hsame
  have hpage := isName_transcriptName (unbroken_pageStem hname) kind
  have hback := isName_written hname kind
  have hlast : (names (components (push (dataRoot.inDataRoot (trim (outputDirSetting outputDir)))
      (transcriptName (stemOf audio.name) kind)))).getLast? =
        some (transcriptName (pageStem audio.name) kind) := by
    obtain ⟨u, hu⟩ := inDataRoot_join (trimSep (outputDirSetting outputDir))
      (transcriptName (pageStem audio.name) kind)
    rw [← hsame, hu]
    exact names_join u hpage (two_lt_transcriptName _ kind)
  cases hd : parseDrive (transcriptName (stemOf audio.name) kind) with
  | none =>
    rw [names_push _ hback hd (two_lt_transcriptName _ kind)] at hlast
    have hstem := transcriptName_inj.mp (Option.some.inj hlast)
    refine ⟨(pageStem_eq_iff hname).mp hstem.symm, ?_⟩
    exact (parseDrive_written hname kind).symm.trans hd
  | some drive =>
    exfalso
    have hsome : (parseDrive (transcriptName (stemOf audio.name) kind)).isSome = true := by
      rw [hd]
      rfl
    obtain ⟨_, _, _, _, hp⟩ := hback.drive hsome
    rw [push_of_isSome (by rw [hp]; rfl)] at hlast
    have hlt := names_of_drive hback hsome (List.mem_of_getLast? hlast)
    have hle := stem_length hname (by
      rw [← parseDrive_transcriptName (stemOf_ne_nil hname) kind, hd]
      exact Option.some_ne_none _)
    rw [length_transcriptName (pageStem audio.name), length_transcriptName (stemOf audio.name)]
      at hlt
    omega

/-! ### The folder -/

theorem inDataRoot_same {t : Path} {p : Prefix} (hp : parsePrefix t = some p) :
    dataRoot.inDataRoot t = t := inDataRoot_of_isSome dataRoot (by rw [hp]; rfl)

variable {s x : Path}

/-- In a folder that is a verbatim prefix and no more, a separator at the end is part of it. -/
theorem trimSep_of_bare {p : Prefix} {raw : Path} (hparsed : Parsed s raw [] p)
    (hv : p.isVerbatim = true) (hx : IsName x) (hd : parseDrive x = none)
    (h : SameFile (dataRoot.inDataRoot (trimSep s ++ '\\' :: x)) (push s x)) : trimSep s = s := by
  by_contra htrim
  have heq : s = raw := (hparsed.text hv).trans (List.append_nil raw)
  -- the backend's prefix is what the page's text is read as
  have hback : ∀ y, trimSep s ++ '\\' :: x = mark ++ y →
      parsePrefix (push s x) = some (verbatimPrefix y) := by
    intro y hy
    rw [hy, inDataRoot_same (parsePrefix_mark y)] at h
    exact h.parsePrefix (parsePrefix_mark y)
  have hq := hx.unbroken.not_mem.1
  have hcomponents : p.Complete → parsePrefix (push s x) = some p := fun hcomplete =>
    parsePrefix_of_components (components_push_verbatim hparsed hv hcomplete hx hd)
  have hcutName : ∀ u y : Path, y ≠ [] → '\\' ∉ y → s = u ++ y →
      ∃ y', y = y' ++ ['/'] ∧ trimSep s = u ++ y' := by
    rintro u y hne hy rfl
    exact trimSep_piece hne hy htrim
  have hreads := hparsed.reads
  cases hreads with
  | @verbatim y _ whole unc drive tail alone =>
    rcases eq_or_ne y [] with rfl | hne
    · have htext : trimSep s ++ '\\' :: x = mark ++ x := by
        rw [heq]
        rfl
      have hp' := (hback x htext).symm.trans (hcomponents (by simp [Prefix.Complete]))
      have hempty := component_of_verbatim (Option.some.inj hp')
      rw [component_of_not_mem hq] at hempty
      exact hx.ne_nil hempty
    · obtain ⟨y', rfl, hy'⟩ := hcutName mark y hne whole heq
      have hcomplete : (Prefix.verbatim (y' ++ ['/'])).Complete := fun he => by
        have := congrArg List.getLast? he
        simp at this
      have hp' := (hback (y' ++ '\\' :: x) (by rw [hy', List.append_assoc])).symm.trans
        (hcomponents hcomplete)
      have hname := component_of_verbatim (Option.some.inj hp')
      rw [component_sep (fun hm => whole (List.mem_append_left _ hm))] at hname
      simp at hname
  | @server e server _ sep whole tail =>
    obtain ⟨share, hshare, hpush⟩ := push_server hparsed hx hd
    rcases eq_or_ne server [] with rfl | hne
    · have htext : trimSep s ++ '\\' :: x = mark ++ (['U', 'N', 'C', '\\'] ++ x) := by
        have hs : s = (mark ++ ['U', 'N', 'C']) ++ [e] := by rw [heq]; simp
        rw [hs, trimSep_sep _ sep]
        simp
      have hp' := (hback _ htext).symm.trans hpush
      rw [verbatimPrefix_unc rfl, component_of_not_mem hq] at hp'
      exact hx.ne_nil (Prefix.verbatimUNC.inj (Option.some.inj hp')).1
    · obtain ⟨y', rfl, hy'⟩ := hcutName _ server hne whole heq
      have htext : trimSep s ++ '\\' :: x =
          mark ++ (['U', 'N', 'C', e] ++ (y' ++ '\\' :: x)) := by
        rw [hy']
        simp
      have hp' := (hback _ htext).symm.trans hpush
      rw [verbatimPrefix_unc sep,
        component_sep (fun hm => whole (List.mem_append_left _ hm))] at hp'
      have := (Prefix.verbatimUNC.inj (Option.some.inj hp')).1
      simp at this
  | @share e server share _ sep whole some whole' tail =>
    have hs : s = (mark ++ ['U', 'N', 'C', e] ++ server ++ ['\\']) ++ share := by
      rw [heq]
      simp
    obtain ⟨y', rfl, hy'⟩ := hcutName _ share some whole' hs
    have htext : trimSep s ++ '\\' :: x =
        mark ++ (['U', 'N', 'C', e] ++ (server ++ '\\' :: (y' ++ '\\' :: x))) := by
      rw [hy']
      simp
    have hp' := (hback _ htext).symm.trans (hcomponents some)
    rw [verbatimPrefix_unc sep, beyond_sep whole,
      component_sep (fun hm => whole' (List.mem_append_left _ hm))] at hp'
    have := (Prefix.verbatimUNC.inj (Option.some.inj hp')).2
    simp at this
  | @verbatimDisk d _ letter tail =>
    obtain ⟨y', hy', -⟩ := hcutName mark [d, ':'] (by simp) (sep_not_mem_drive letter) heq
    have := congrArg List.getLast? hy'
    simp at this
  | device | unc | disk => cases hv

/-- Beyond a whole prefix, a `/` at the end is part of the last name. -/
theorem getLast_of_same {p : Prefix} {raw w : Path} {c : Char} (hparsed : Parsed s raw (c :: w) p)
    (hv : p.isVerbatim = true) (hcomplete : p.Complete) (hc : isSep c = true) (hw : w ≠ [])
    (hx : IsName x) (hd : parseDrive x = none)
    (htarget : trimSep s ++ '\\' :: x = raw ++ c :: (trimSep w ++ '\\' :: x))
    (h : SameFile (dataRoot.inDataRoot (trimSep s ++ '\\' :: x)) (push s x)) :
    s.getLast? ≠ some '/' := by
  intro hlast
  obtain ⟨w', rfl⟩ : ∃ w', w = w' ++ ['/'] := by
    obtain ⟨w', e, rfl⟩ := List.eq_nil_or_concat' w |>.resolve_left hw
    rw [hparsed.text hv, ← List.cons_append, ← List.append_assoc, List.getLast?_concat] at hlast
    exact ⟨w', by rw [Option.some.inj hlast]⟩
  rw [trimSep_sep w' rfl] at htarget
  have hpage := (hparsed.reads.follow hcomplete (w' ++ '\\' :: x) (.inr ⟨_, rfl, hc⟩)).parsed hv
  rw [htarget, inDataRoot_same hpage.parse, SameFile, hpage.components_sep hc,
    components_push_verbatim hparsed hv hcomplete hx hd, hv, body_sep, hx.body] at h
  have hbody : body true w' = body true (w' ++ ['/']) := by simpa using h
  have hcount := congrArg (fun cs => (names cs).flatten.count '/') hbody
  simp only [count_body true (c := '/') (by decide) (by decide)] at hcount
  simp at hcount

/-- A verbatim folder where the separator at its end matters. -/
theorem joins_verbatim {p : Prefix} (hp : parsePrefix s = some p) (hv : p.isVerbatim = true)
    (hx : IsName x) (hd : parseDrive x = none)
    (h : SameFile (dataRoot.inDataRoot (trimSep s ++ '\\' :: x)) (push s x)) :
    trimSep s = s.take (prefixLen s) ∨
      p.Complete ∧ prefixLen s + 1 < s.length ∧ s.getLast? ≠ some '/' := by
  obtain ⟨raw, rest, hparsed⟩ := exists_parsed hp
  have heq := hparsed.text hv
  rw [hparsed.take_prefixLen hv]
  rcases hparsed.reads.tail (Prefix.isDrive_of_isVerbatim hv) with rfl | ⟨c, w, rfl, hc⟩
  · rw [List.append_nil] at heq
    exact .inl ((trimSep_of_bare hparsed hv hx hd h).trans heq)
  rcases eq_or_ne w [] with rfl | hw
  · exact .inl (by rw [heq, trimSep_sep raw hc])
  right
  have htarget : trimSep s ++ '\\' :: x = raw ++ c :: (trimSep w ++ '\\' :: x) := by
    rw [heq, trimSep_after raw c hw, List.append_assoc, List.cons_append]
  have hcomplete : p.Complete := by
    by_contra hincomplete
    obtain ⟨server, rfl, rfl, hw'⟩ := hparsed.reads.incomplete hincomplete
    obtain ⟨hpage, hdiffers⟩ :=
      push_server_ne hparsed hx hd (hw'.of_isPrefix (trimSep_isPrefix w))
    rw [htarget, inDataRoot_same hpage] at h
    exact hdiffers h
  refine ⟨hcomplete, ?_, getLast_of_same hparsed hv hcomplete hc hw hx hd htarget h⟩
  have := List.length_pos_iff.mpr hw
  rw [hparsed.prefixLen, heq, List.length_append, List.length_cons]
  omega

/-- A server, a bare drive, and the verbatim folders of `joins_verbatim`. -/
theorem joinsPlainly_of_same (hne : s ≠ []) (hx : IsName x) (hd : parseDrive x = none)
    (h : SameFile (dataRoot.inDataRoot (trimSep s ++ '\\' :: x))
      (push (dataRoot.inDataRoot s) x)) : JoinsPlainly s := by
  unfold JoinsPlainly
  split
  · -- the page's path is on that server, the backend's on the drive of the data root
    rename_i hp
    rw [← Bool.not_eq_true]
    intro hserver
    obtain ⟨p, htarget, hdrive⟩ := parsePrefix_server hserver hx
    have hroot : hasRoot s = true := by
      obtain ⟨z, hz⟩ := trimSep_isPrefix s
      rw [hasRoot_none hp, ← hz]
      rcases htrim : trimSep s with _ | ⟨c, _ | ⟨e, server⟩⟩ <;> rw [htrim] at hserver
      · cases hserver
      · cases hserver
      · simp only [isServer, doubleSep, Bool.and_eq_true] at hserver
        exact hserver.1.1.1
    have hback : parsePrefix (push (dataRoot.inDataRoot s) x) = some (.disk 'C') := by
      have hfolder : dataRoot.inDataRoot s = ['C', ':'] ++ s := by
        rw [inDataRoot_of_none dataRoot hp, push_none (by decide) hp, hroot]
        rfl
      have hm : ¬mark <+: ['C', ':'] ++ s := by simp [mark]
      rw [hfolder]
      rcases push_plain_cases hm hx hd with hpush | hpush
      · rw [hpush, List.append_assoc]
        exact (parsed_drive (d := 'C') rfl _).parse
      · rw [hpush, List.append_assoc]
        exact (parsed_drive (d := 'C') rfl _).parse
    rw [inDataRoot_same htarget] at h
    rw [Option.some.inj ((h.parsePrefix htarget).symm.trans hback)] at hdrive
    cases hdrive
  · rename_i p hp
    rw [inDataRoot_same hp] at h
    split
    · rename_i hv
      exact joins_verbatim hp hv hx hd h
    · rw [← Bool.not_eq_true]
      intro hbare
      obtain ⟨d, rfl, letter⟩ := isBareDrive_eq hbare
      have htrim : trimSep [d, ':'] = [d, ':'] := trimSep_other [d] rfl
      have hpage : Parsed ([d, ':'] ++ '\\' :: x) [d, ':'] ('\\' :: x) (.disk d.toUpper) := by
        have hparsed := parsed_drive letter ('\\' :: x)
        rwa [slashed_cons, if_neg (by decide), hx.unbroken.slashed] at hparsed
      rw [htrim, inDataRoot_same hpage.parse, SameFile, hpage.components_sep rfl,
        push_bareDrive hbare hx hd, components_drive letter hx] at h
      simp at h

theorem kept_nextLine : Kept '\u0085' := ⟨by decide, by decide, by decide⟩

theorem count_inDataRoot (t : Text) :
    (dataRoot.inDataRoot t).count '\u0085' = t.count '\u0085' := by
  cases hp : parsePrefix t with
  | some p => rw [inDataRoot_same hp]
  | none =>
    have hlead : ∀ rooted, (lead dataRoot.dataRoot rooted).count '\u0085' = 0 := by decide
    rw [inDataRoot_of_none dataRoot hp, push_none (by decide) hp, List.count_append, hlead,
      Nat.zero_add]

theorem eq_nextLine {c : Char} (hw : isWhitespace c = true) (hs : isSpace c = false) :
    c = '\u0085' := by
  have h : c = '\u0085' ∧ ¬c = '\uFEFF' := by simpa [isSpace, hw] using hs
  exact h.1

/-- The ends of what the page trimmed. -/
theorem scriptTrim_ends {t : Text} (ht : scriptTrim t ≠ []) :
    (∀ c ∈ (scriptTrim t).head?, isSpace c = false) ∧
      ∀ c ∈ (scriptTrim t).getLast?, isSpace c = false := by
  constructor
  · intro c hc
    obtain ⟨z, hz⟩ := List.rdropWhile_prefix isSpace (l := t.dropWhile isSpace)
    have hhead : (t.dropWhile isSpace).head? = some c := by
      rw [← hz]
      rw [Option.mem_def] at hc
      rw [List.head?_append]
      exact Option.or_eq_some_iff.mpr (.inl hc)
    have := List.head?_dropWhile_not isSpace t
    rw [hhead] at this
    simpa using this
  · intro c hc
    have := List.rdropWhile_last_not isSpace (t.dropWhile isSpace) ht
    rw [Option.mem_def, List.getLast?_eq_some_getLast ht] at hc
    rw [← Option.some.inj hc]
    exact Bool.eq_false_iff.mpr this

/-- If the next-line controls are all still there, nothing was trimmed. -/
theorem trim_of_count {t : Text} (hhead : ∀ c ∈ t.head?, isSpace c = false)
    (hlast : ∀ c ∈ t.getLast?, isSpace c = false)
    (h : (trim t).count '\u0085' = t.count '\u0085') : trim t = t := by
  have hless : ∀ u : Text, (u.rdropWhile isWhitespace).count '\u0085' ≤ u.count '\u0085' :=
    fun u => (List.rdropWhile_prefix isWhitespace u).sublist.count_le _
  cases t with
  | nil => rfl
  | cons c t =>
    have hc : isWhitespace c = false := by
      rw [← Bool.not_eq_true]
      intro hw
      obtain rfl := eq_nextLine hw (hhead c rfl)
      have htrim : trim ('\u0085' :: t) = (t.dropWhile isWhitespace).rdropWhile isWhitespace := by
        rw [trim, trimStart, List.dropWhile_cons_of_pos hw]
      have hdrop := (List.dropWhile_sublist isWhitespace (l := t)).count_le '\u0085'
      have := hless (t.dropWhile isWhitespace)
      rw [htrim, List.count_cons_self] at h
      omega
    have htrim : trim (c :: t) = (c :: t).rdropWhile isWhitespace := by
      rw [trim, trimStart, List.dropWhile_cons_of_neg (by simp [hc])]
    rw [htrim] at h ⊢
    obtain ⟨u, e, hu⟩ := List.eq_nil_or_concat' (c :: t) |>.resolve_left (by simp)
    rw [hu] at h hlast ⊢
    have he : isWhitespace e = false := by
      rw [← Bool.not_eq_true]
      intro hw
      obtain rfl := eq_nextLine hw (hlast e List.getLast?_concat)
      have := hless u
      rw [List.rdropWhile_concat_pos isWhitespace u '\u0085' hw, List.count_append] at h
      simp only [List.count_singleton_self] at h
      omega
    exact List.rdropWhile_concat_neg isWhitespace u e (by simp [he])

/-- White space that only the backend trims stays in the page's path. -/
theorem trim_of_same (hx : IsName x) (hd : parseDrive x = none)
    (h : SameFile (dataRoot.inDataRoot (trimSep (outputDirSetting outputDir) ++ '\\' :: x))
      (push (dataRoot.inDataRoot (trim (outputDirSetting outputDir))) x)) :
    trim (outputDirSetting outputDir) = outputDirSetting outputDir := by
  have hcount := congrArg (fun cs => (names cs).flatten.count '\u0085') h
  simp only [count_names kept_nextLine, count_push kept_nextLine _ hx hd, count_inDataRoot,
    List.count_append, kept_nextLine.count_trimSep,
    List.count_cons_of_ne (kept_nextLine.ne_sep (d := '\\') rfl)] at hcount
  unfold outputDirSetting at hcount ⊢
  split
  · decide
  · rename_i hne
    rw [if_neg hne] at hcount
    obtain ⟨hhead, hlast⟩ := scriptTrim_ends hne
    exact trim_of_count hhead hlast (by omega)

end

/-- The button opens the file just written, wherever the data root is, exactly for a plain name
    and a plain output folder, and beside a recording whose prefix is whole. -/
theorem opensWritten_iff (last : Text) (kind : Kind) (audio : AudioFile) (outputDir : Text) :
    (∀ paths, OpensWritten paths last kind audio.text outputDir) ↔ Agrees audio outputDir := by
  constructor
  · intro h
    have h := h dataRoot
    unfold Agrees
    split
    · rename_i hs
      exact complete_of_opens hs h
    · rename_i hs
      have hname := audio.isName
      obtain ⟨hstem, hdrive⟩ := plainStem_of_opens hs h
      have hx := isName_written hname kind
      have hd := (parseDrive_written hname kind).trans hdrive
      have htarget := expectOutput_other audio kind outputDir last hs
      rw [(pageStem_eq_iff hname).mpr hstem] at htarget
      obtain ⟨hurl, hsame⟩ := (opensWritten_iff_same htarget (by simp)).mp h
      rw [isUrl_join] at hurl
      rw [written_other audio kind _ dataRoot hs (outputDirSetting_ne_nil outputDir)] at hsame
      have htrim := trim_of_same hx hd hsame
      rw [htrim] at hsame
      exact ⟨hstem, hdrive, hurl, htrim,
        joinsPlainly_of_same (outputDirSetting_ne_nil outputDir) hx hd hsame⟩
  · intro h paths
    unfold Agrees at h
    split at h
    · rename_i hs
      exact opens_session paths last kind audio outputDir hs h
    · rename_i hs
      exact opens_other paths last kind audio outputDir hs h.1 h.2.1 h.2.2

/-- `C:\calls\.wav`: the page takes the whole name for an extension, the backend for a stem. -/
def dotfile : AudioFile where
  folder := "C:\\calls".toList
  sep := '\\'
  name := ".wav".toList
  isSep := rfl
  unbroken := by decide
  absolute := by decide
  fileName := by decide

theorem dotfile_is_not_opened :
    ¬∀ (paths : AppPaths) (last : Text) (kind : Kind) (audio : AudioFile) (outputDir : Text),
      OpensWritten paths last kind audio.text outputDir := by
  intro h
  have hdot := h dataRoot [] .qwenCpu dotfile "outputs".toList
  revert hdot
  decide

end Output
end LocalMeetingStt
