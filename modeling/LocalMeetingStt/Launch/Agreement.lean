import LocalMeetingStt.Launch.Asked

/-!
# What the scripts are given (`commands.rs` against each `parse_args`)

The shell writes command lines and the scripts read them; neither checks the other.
`settings_reach_script` follows a job from the arguments of the page through `build`, a
launcher and `parse_args`: the script gets the settings of the job and the defaults of its
own, unless a word that is not the shell's own (a device, a file, a folder, a context) is
one the reader takes for an option, or a count is no whole number; then it ends there. Where
a launcher is on the way, the words are ones that `cmd.exe` hands on.
-/

namespace LocalMeetingStt
namespace Launch

open Argparse Argparse.Parser WinPath
open Jobs (CommandSpec)

section

variable {F : Type} [Doubles F] (args : Args F) (p : Parser Dest (Value F)) (host : Host)
  (paths : AppPaths)

/-! ## How it is written -/

/-- A setting, with the words for it. -/
abbrev Ask (F : Type) := Given × Dest × Value F

/-- A flag that is set. -/
def askSwitch (flag : String) (dest : Dest) : Ask F := (.switch flag.toList, dest, .flag true)

/-- An option with its word. -/
def askText (flag : String) (dest : Dest) (word : Text) : Ask F :=
  (.value flag.toList word, dest, .text word)

/-- How the preview interval is written, if the page sends one. -/
def previewItems : List (Ask F) :=
  ((numeric args "previewSeconds").map fun x =>
    ((.value "--preview-seconds".toList (numberText x), .previewSeconds, .float (reread x)) :
      Ask F)).toList

/-- How the devices of a capture are written. -/
def deviceItems : List (Ask F) :=
  ((text args "systemDevice").map (askText "--system-device" .systemDevice)).toList ++
  if boolean args "includeMic" = some true then
    askSwitch "--include-mic" .includeMic ::
      ((text args "micDevice").map (askText "--mic-device" .micDevice)).toList
  else []

/-- How the language and the Chinese script are written. -/
def recognitionItems : List (Ask F) :=
  [askText "--language" .language (language args),
    askText "--chinese-script" .chineseScript (chineseScript args)]

/-- The words of some items. -/
def written (items : List (Ask F)) : List Text :=
  items.flatMap fun item => item.1.words

theorem captureArgs_eq :
    captureArgs args = written (previewItems args ++ deviceItems args) := by
  unfold captureArgs previewItems deviceItems written
  rw [number_eq]
  cases numeric args "previewSeconds" <;> cases text args "systemDevice" <;>
    cases text args "micDevice" <;> by_cases hmic : boolean args "includeMic" = some true <;>
    simp [hmic, askText, askSwitch, Given.words]

omit [Doubles F] in
theorem recognitionArgs_eq : recognitionArgs args = written (recognitionItems args) := rfl

theorem previewItems_entry :
    (previewItems args).map Prod.snd = previewSettings args := by
  unfold previewItems previewSettings
  cases numeric args "previewSeconds" <;> rfl

omit [Doubles F] in
theorem deviceItems_entry : (deviceItems args).map Prod.snd = deviceSettings args := by
  unfold deviceItems deviceSettings
  cases text args "systemDevice" <;> cases text args "micDevice" <;>
    by_cases hmic : boolean args "includeMic" = some true <;> simp [hmic] <;>
    simp [askText, askSwitch]

/-- The words of a live SenseVoice job, with those of its launcher. -/
def liveSensevoiceItems (gpu : Bool) : List (Ask F) :=
  [askText "--engine" .engine "sensevoice".toList] ++
  (if gpu then [askText "--provider" .provider "cuda".toList] else []) ++
  [askSwitch "--streaming" .streaming] ++
  (if (boolean args "saveWav").getD true then
    [askSwitch "--save-recording" .saveRecording,
      askText "--recording-dir" .recordingDir (outputDir args paths),
      askText "--session-prefix" .sessionPrefix "sensevoice_live".toList]
  else
    [askText "--output" .output
      (push (sessionDir args host paths "sensevoice_text") "live_transcript.txt".toList)]) ++
  [askText "--sensevoice-model" .sensevoiceModel (sensevoiceModel paths gpu)] ++
  (previewItems args ++ deviceItems args) ++ recognitionItems args

/-- The words of the live Turbo job, with those of its launcher. -/
def liveCppTurboGpuItems : List (Ask F) :=
  [askSwitch "--server" .server, askSwitch "--streaming" .streaming,
    askSwitch "--save-recording" .saveRecording,
    (.value "--beam-size".toList "1".toList, .beamSize, .int 1),
    (.value "--best-of".toList "1".toList, .bestOf, .int 1),
    askText "--recording-dir" .recordingDir (outputDir args paths),
    askText "--model" .model "models/ggml-large-v3-turbo.bin".toList,
    askText "--session-prefix" .sessionPrefix "cpp_turbo_live".toList] ++
  (previewItems args ++ deviceItems args) ++ recognitionItems args

/-- An option with a number of the page, or with a default. -/
def askFloat (flag : String) (dest : Dest) (key : String) (default : Int) :
    Ask F :=
  (.value flag.toList ((number args key).getD (toString default).toList), dest,
    .float (floatOf args key default))

/-- The same, of an option that takes whole numbers. -/
def askInt (flag : String) (dest : Dest) (key : String) (default : Int) : Ask F :=
  (.value flag.toList ((number args key).getD (toString default).toList), dest,
    .int (intOf args key default))

/-- The items of a recording, but for those of its devices. -/
def recordItems (timed : Bool) : List (Ask F) :=
  [if timed then askFloat args "--duration" .duration "durationSeconds" 3600
    else askSwitch "--until-enter" .untilEnter,
    askText "--output" .output
      (push (sessionDir args host paths "meeting") "audio.wav".toList)]

/-- The words of a SenseVoice transcription behind its audio file. -/
def postSensevoiceItems (kind : Output.Kind) (gpu : Bool) : List (Ask F) :=
  [askText "-o" .output (transcriptPath args paths kind),
    askText "--model" .model (sensevoiceModel paths gpu)] ++ recognitionItems args

/-- The words of a Qwen transcription behind its audio file. -/
def postQwenItems (kind : Output.Kind) (large gpu : Bool) : List (Ask F) :=
  [askText "-o" .output (transcriptPath args paths kind),
    askText "--device" .device (if gpu then "cuda:0" else "cpu").toList,
    askText "--language" .language (qwenLanguage (language args)),
    askText "--model" .model (qwenModel paths large),
    askInt args "--max-new-tokens" .maxNewTokens "qwenTokens" 4096,
    askFloat args "--chunk-seconds" .chunkSeconds "chunkSeconds" 60,
    askInt args "--batch-size" .batchSize "qwenBatch" 16,
    askText "--chinese-script" .chineseScript (chineseScript args)] ++
  ((qwenContext args).map (askText "--context" .context)).toList

/-! ## The reader takes it as it is meant -/

/-- A setting with its words, and with when the reader takes it. -/
def asItem (a : Ask F) : Item Dest (Value F) := ⟨a.1, a.2, Fits args p a.2⟩

variable {p}

theorem reads_askSwitch {flag : String} {dest : Dest} (hdash : flag.toList.head? = some '-')
    (hsep : flag.toList ≠ ['-', '-']) (hfind : p.find flag.toList = some (storeTrue flag dest))
    (hfits : Fits args p (dest, .flag true)) : p.Reads (asItem args p (askSwitch flag dest)) := by
  have hreads := reads_switch (p := p) hdash hsep hfind rfl
  refine ⟨hreads.1, fun entry => (hreads.2 entry).trans ?_⟩
  simp only [asItem, askSwitch, hfits]
  rfl

theorem reads_askText {flag : String} {flags : List String} {dest : Dest}
    {convert : Word → Option (Value F)} {word : Text} (hdash : flag.toList.head? = some '-')
    (hsep : flag.toList ≠ ['-', '-']) (hfind : p.find flag.toList = some (opt flags dest convert))
    (hconvert : convert word = some (.text word)) :
    p.Reads (asItem args p (askText flag dest word)) := by
  refine reads_value hdash hsep hfind rfl fun v => ?_
  rw [hconvert, Option.some_inj, eq_comm]
  rfl

/-- A parser whose options are words, with the digits of the language. -/
structure Ordinary (p : Parser Dest (Value F)) : Prop where
  digit : p.digit = Doubles.isDecimal F
  worded : p.Worded

omit [Doubles F] in
theorem isArgument_default {default : Int} (hlo : 0 ≤ default) :
    p.IsArgument (toString default).toList := by
  refine p.isArgument_of_head ?_
  obtain ⟨n, rfl⟩ := Int.eq_ofNat_of_zero_le hlo
  obtain ⟨c, digits, hdigits⟩ := List.exists_cons_of_ne_nil (Nat.toDigits_ne_nil (b := 10)
    (n := n))
  have hc : c.isDigit = true := by
    refine Nat.isDigit_of_mem_toDigits (b := 10) (n := n) (by decide) (by decide) ?_
    rw [hdigits]
    exact List.mem_cons_self
  have htext : (toString (Int.ofNat n)).toList = c :: digits := by
    rw [← hdigits]
    simp [Int.toString_eq_repr, Int.repr, Nat.toList_repr]
  rw [show (toString (n : Int)).toList = c :: digits from htext]
  intro heq
  rw [Option.some.inj heq] at hc
  exact absurd hc (by decide)

/-- The text of a number, or of its default, is an argument. -/
theorem isArgument_number [Documented F] (hp : Ordinary p) (key : String) {default : Int}
    (hlo : 0 ≤ default) :
    p.IsArgument ((number args key).getD (toString default).toList) := by
  rw [number_eq]
  cases hx : numeric args key with
  | none => exact isArgument_default hlo
  | some x => exact isArgument_numberText hp.digit hp.worded (isFinite_of_numeric args hx)

theorem float_number [Documented F] (key : String) {default : Int} (hlo : 0 ≤ default)
    (hhi : default < 2 ^ 63) :
    Doubles.float ((number args key).getD (toString default).toList) =
      some (floatOf args key default) := by
  rw [number_eq, floatOf]
  cases hx : numeric args key with
  | none => exact Documented.float_int default (by omega) hhi
  | some x => exact float_numberText (isFinite_of_numeric args hx)

theorem int_number [Documented F] (key : String) {default : Int} (hlo : 0 ≤ default)
    (hhi : default < 2 ^ 63) (n : Int) :
    Doubles.int F ((number args key).getD (toString default).toList) = some n ↔
      IsWhole args key ∧ n = intOf args key default := by
  rw [number_eq, intOf, IsWhole]
  cases hx : numeric args key with
  | none =>
    rw [Option.map_none, Option.getD_none, Documented.int_int default (by omega) hhi]
    constructor
    · intro heq
      refine ⟨fun x hx => ?_, (Option.some.inj heq).symm⟩
      cases hx
    · intro h
      exact congrArg some h.2.symm
  | some x =>
    rw [Option.map_some, Option.getD_some, int_numberText (isFinite_of_numeric args hx)]
    constructor
    · intro hwhole
      refine ⟨fun y hy => ?_, ?_⟩
      · rw [← Option.some.inj hy, hwhole]
        rfl
      · show n = (Doubles.whole x).getD 0
        rw [hwhole]
        rfl
    · intro h
      obtain ⟨m, hwhole⟩ := Option.isSome_iff_exists.mp (h.1 x rfl)
      have hn : n = (Doubles.whole x).getD 0 := h.2
      rw [hn, hwhole]
      rfl

theorem reads_askFloat [Documented F] (hp : Ordinary p) {flag : String} {flags : List String}
    {dest : Dest} {key : String} {default : Int} (hlo : 0 ≤ default) (hhi : default < 2 ^ 63)
    (hdash : flag.toList.head? = some '-') (hsep : flag.toList ≠ ['-', '-'])
    (hfind : p.find flag.toList = some (opt flags dest toFloat))
    (hfits : ∀ x, Fits args p (dest, .float x)) :
    p.Reads (asItem args p (askFloat args flag dest key default)) := by
  refine reads_value hdash hsep hfind rfl fun v => ?_
  simp only [askFloat, toFloat, float_number args key hlo hhi, Option.map_some, Option.some_inj,
    isArgument_number args hp key hlo, hfits, true_and, eq_comm]

theorem reads_askInt [Documented F] (hp : Ordinary p) {flag : String} {flags : List String}
    {dest : Dest} {key : String} {default : Int} (hlo : 0 ≤ default) (hhi : default < 2 ^ 63)
    (hdash : flag.toList.head? = some '-') (hsep : flag.toList ≠ ['-', '-'])
    (hfind : p.find flag.toList = some (opt flags dest toInt))
    (hfits : ∀ n, Fits args p (dest, .int n) = IsWhole args key) :
    p.Reads (asItem args p (askInt args flag dest key default)) := by
  refine reads_value hdash hsep hfind rfl fun v => ?_
  simp only [askInt, toInt, Option.map_eq_some_iff, int_number args key hlo hhi,
    isArgument_number args hp key hlo, hfits, true_and]
  constructor
  · rintro ⟨n, ⟨hwhole, rfl⟩, rfl⟩
    exact ⟨hwhole, rfl⟩
  · rintro ⟨hwhole, rfl⟩
    exact ⟨_, ⟨hwhole, rfl⟩, rfl⟩

/-- The options that the captures share. -/
structure HasDevices (p : Parser Dest (Value F)) : Prop where
  systemDevice : p.find "--system-device".toList =
    some (opt ["--system-device"] .systemDevice toText)
  includeMic : p.find "--include-mic".toList = some (storeTrue "--include-mic" .includeMic)
  micDevice : p.find "--mic-device".toList = some (opt ["--mic-device"] .micDevice toText)

/-- The options of a recognition; the script may take other languages too. -/
structure Recognizes (p : Parser Dest (Value F)) : Prop where
  language : ∃ convert, p.find "--language".toList = some (opt ["--language"] .language convert) ∧
    ∀ word ∈ sensevoiceLanguages.map String.toList, convert word = some (.text word)
  chineseScript : p.find "--chinese-script".toList =
    some (opt ["--chinese-script"] .chineseScript (oneOf scripts))

theorem reads_deviceItems (hp : HasDevices p) :
    ∀ item ∈ deviceItems args, p.Reads (asItem args p item) := by
  have hsystem : ∀ device,
      p.Reads (asItem args p (askText "--system-device" .systemDevice device)) :=
    fun device => reads_askText args rfl (by decide) hp.systemDevice rfl
  have hinclude : p.Reads (asItem args p (askSwitch "--include-mic" .includeMic)) :=
    reads_askSwitch args rfl (by decide) hp.includeMic trivial
  have hmic : ∀ device, p.Reads (asItem args p (askText "--mic-device" .micDevice device)) :=
    fun device => reads_askText args rfl (by decide) hp.micDevice rfl
  intro item hitem
  rcases List.mem_append.mp hitem with hitem | hitem
  · obtain ⟨device, -, rfl⟩ := Option.map_eq_some_iff.mp (Option.mem_toList.mp hitem)
    exact hsystem device
  · split at hitem
    · rcases List.mem_cons.mp hitem with rfl | hitem
      · exact hinclude
      · obtain ⟨device, -, rfl⟩ := Option.map_eq_some_iff.mp (Option.mem_toList.mp hitem)
        exact hmic device
    · cases hitem

theorem reads_previewItems [Documented F] (hp : Ordinary p)
    (hfind : p.find "--preview-seconds".toList =
      some (opt ["--preview-seconds"] .previewSeconds toFloat)) :
    ∀ item ∈ previewItems args, p.Reads (asItem args p item) := by
  intro item hitem
  obtain ⟨x, hx, rfl⟩ := Option.map_eq_some_iff.mp (Option.mem_toList.mp hitem)
  have hfinite := isFinite_of_numeric args hx
  refine reads_value rfl (by decide) hfind rfl fun v => ?_
  simp only [toFloat, float_numberText hfinite, isArgument_numberText hp.digit hp.worded hfinite,
    Option.map_some, Option.some_inj, Fits, true_and, eq_comm]

omit [Doubles F] in
theorem language_mem : language args ∈ sensevoiceLanguages.map String.toList := by
  unfold language
  split
  · split
    · rename_i hmem
      simp only [List.map_cons, List.map_nil, List.mem_cons, List.not_mem_nil, or_false] at hmem
      rcases hmem with rfl | rfl | rfl | rfl <;> decide
    · decide
  · decide

omit [Doubles F] in
theorem chineseScript_mem : chineseScript args ∈ scripts.map String.toList := by
  unfold chineseScript
  split
  · split <;> decide
  · decide

omit [Doubles F] in
theorem oneOf_of_mem {choices : List String} {word : Word}
    (h : word ∈ choices.map String.toList) : oneOf (F := F) choices word = some (.text word) := by
  unfold oneOf
  rw [if_pos (List.contains_iff_mem.mpr h)]

theorem reads_recognitionItems (hp : Recognizes p) :
    ∀ item ∈ recognitionItems args, p.Reads (asItem args p item) := by
  obtain ⟨convert, hfind, hconvert⟩ := hp.language
  have hlanguage : p.Reads (asItem args p (askText "--language" .language (language args))) :=
    reads_askText args rfl (by decide) hfind (hconvert _ (language_mem args))
  have hscript :
      p.Reads (asItem args p (askText "--chinese-script" .chineseScript (chineseScript args))) :=
    reads_askText args rfl (by decide) hp.chineseScript (oneOf_of_mem (chineseScript_mem args))
  intro item hitem
  simp only [recognitionItems, List.mem_cons, List.not_mem_nil, or_false] at hitem
  rcases hitem with rfl | rfl
  · exact hlanguage
  · exact hscript

/-! ## The jobs -/

theorem ordinary [Documented F] (script : Script) : Ordinary (script.parser F) := by
  have hdigit : (script.parser F).digit = Doubles.isDecimal F := by cases script <;> rfl
  refine ⟨hdigit, worded hdigit ?_⟩
  cases script <;> rfl

theorem reads_liveSensevoiceItems [Documented F] (gpu : Bool) :
    ∀ item ∈ liveSensevoiceItems args host paths gpu,
      liveTranscribe.Reads (asItem args liveTranscribe item) := by
  have hpreview := reads_previewItems args (ordinary (F := F) .liveTranscribe) rfl
  have hdevices := reads_deviceItems args (p := liveTranscribe (F := F)) ⟨rfl, rfl, rfl⟩
  have hrecognition := reads_recognitionItems args (p := liveTranscribe (F := F))
    ⟨⟨_, rfl, fun word _ => rfl⟩, rfl⟩
  unfold liveSensevoiceItems
  simp only [List.forall_mem_append]
  refine ⟨⟨⟨⟨⟨⟨?_, ?_⟩, ?_⟩, ?_⟩, ?_⟩, hpreview, hdevices⟩, hrecognition⟩
  · refine List.forall_mem_singleton.mpr ?_
    exact reads_askText args rfl (by decide) rfl (oneOf_of_mem (by decide))
  · split
    · refine List.forall_mem_singleton.mpr ?_
      exact reads_askText args rfl (by decide) rfl (oneOf_of_mem (by decide))
    · exact List.forall_mem_nil _
  · refine List.forall_mem_singleton.mpr ?_
    exact reads_askSwitch args rfl (by decide) rfl trivial
  · split
    · refine List.forall_mem_cons.mpr ⟨?_, List.forall_mem_cons.mpr ⟨?_, ?_⟩⟩
      · exact reads_askSwitch args rfl (by decide) rfl trivial
      · exact reads_askText args rfl (by decide) rfl rfl
      · refine List.forall_mem_singleton.mpr ?_
        exact reads_askText args rfl (by decide) rfl rfl
    · refine List.forall_mem_singleton.mpr ?_
      exact reads_askText args rfl (by decide) rfl rfl
  · refine List.forall_mem_singleton.mpr ?_
    exact reads_askText args rfl (by decide) rfl rfl

theorem reads_one [Documented F] {flag : String} {dest : Dest}
    (hdash : flag.toList.head? = some '-') (hsep : flag.toList ≠ ['-', '-'])
    (hfind : p.find flag.toList = some (opt [flag] dest toInt))
    (hfits : Fits args p (dest, .int 1)) :
    p.Reads (asItem args p (.value flag.toList "1".toList, dest, .int 1)) := by
  have hone : Doubles.int F "1".toList = some 1 := Documented.int_int 1 (by decide) (by decide)
  have hargument : p.IsArgument "1".toList := p.isArgument_of_head (by decide)
  refine reads_value hdash hsep hfind rfl fun v => ?_
  simp only [toInt, hone, hargument, hfits, Option.map_some, Option.some_inj, true_and, eq_comm]

theorem reads_liveCppTurboGpuItems [Documented F] :
    ∀ item ∈ liveCppTurboGpuItems args paths, liveCpp.Reads (asItem args liveCpp item) := by
  have hpreview := reads_previewItems args (ordinary (F := F) .liveCpp) rfl
  have hdevices := reads_deviceItems args (p := liveCpp (F := F)) ⟨rfl, rfl, rfl⟩
  have hrecognition := reads_recognitionItems args (p := liveCpp (F := F))
    ⟨⟨_, rfl, fun word _ => rfl⟩, rfl⟩
  unfold liveCppTurboGpuItems
  simp only [List.forall_mem_append, List.forall_mem_cons]
  refine ⟨⟨⟨?_, ?_, ?_, ?_, ?_, ?_, ?_, ?_, List.forall_mem_nil _⟩, hpreview, hdevices⟩,
    hrecognition⟩
  · exact reads_askSwitch args rfl (by decide) rfl trivial
  · exact reads_askSwitch args rfl (by decide) rfl trivial
  · exact reads_askSwitch args rfl (by decide) rfl trivial
  · exact reads_one args rfl (by decide) rfl trivial
  · exact reads_one args rfl (by decide) rfl trivial
  · exact reads_askText args rfl (by decide) rfl rfl
  · exact reads_askText args rfl (by decide) rfl rfl
  · exact reads_askText args rfl (by decide) rfl rfl

theorem reads_recordItems [Documented F] (timed : Bool) :
    ∀ item ∈ recordItems args host paths timed,
      recordAudio.Reads (asItem args recordAudio item) := by
  refine List.forall_mem_cons.mpr ⟨?_, List.forall_mem_singleton.mpr ?_⟩
  · split
    · exact reads_askFloat args (ordinary (F := F) .recordAudio) (by decide) (by decide) rfl
        (by decide) rfl fun _ => trivial
    · exact reads_askSwitch args rfl (by decide) rfl trivial
  · exact reads_askText args rfl (by decide) rfl rfl

theorem reads_postSensevoiceItems (kind : Output.Kind) (gpu : Bool) :
    ∀ item ∈ postSensevoiceItems args paths kind gpu,
      postTranscribeSensevoice.Reads (asItem args postTranscribeSensevoice item) := by
  have hrecognition := reads_recognitionItems args (p := postTranscribeSensevoice (F := F))
    ⟨⟨_, rfl, fun word hword => oneOf_of_mem hword⟩, rfl⟩
  refine List.forall_mem_append.mpr ⟨?_, hrecognition⟩
  refine List.forall_mem_cons.mpr ⟨?_, List.forall_mem_singleton.mpr ?_⟩
  · exact reads_askText args rfl (by decide) rfl rfl
  · exact reads_askText args rfl (by decide) rfl rfl

theorem reads_postQwenItems [Documented F] (kind : Output.Kind) (large gpu : Bool) :
    ∀ item ∈ postQwenItems args paths kind large gpu,
      postTranscribeQwen.Reads (asItem args postTranscribeQwen item) := by
  have hp := ordinary (F := F) .postTranscribeQwen
  unfold postQwenItems
  simp only [List.forall_mem_append, List.forall_mem_cons]
  refine ⟨⟨?_, ?_, ?_, ?_, ?_, ?_, ?_, ?_, List.forall_mem_nil _⟩, ?_⟩
  · exact reads_askText args rfl (by decide) rfl rfl
  · exact reads_askText args rfl (by decide) rfl rfl
  · exact reads_askText args rfl (by decide) rfl rfl
  · exact reads_askText args rfl (by decide) rfl rfl
  · exact reads_askInt args hp (by decide) (by decide) rfl (by decide) rfl fun _ => rfl
  · exact reads_askFloat args hp (by decide) (by decide) rfl (by decide) rfl fun _ => trivial
  · exact reads_askInt args hp (by decide) (by decide) rfl (by decide) rfl fun _ => rfl
  · exact reads_askText args rfl (by decide) rfl (oneOf_of_mem (chineseScript_mem args))
  · intro item hitem
    obtain ⟨context, -, rfl⟩ := Option.map_eq_some_iff.mp (Option.mem_toList.mp hitem)
    exact reads_askText args rfl (by decide) rfl rfl

theorem bind_eq_ok {ε α β : Type} {x : Except ε α} {f : α → Except ε β} {b : β}
    (h : x >>= f = .ok b) : ∃ a, x = .ok a ∧ f a = .ok b := by
  cases x with
  | error e => cases h
  | ok a => exact ⟨a, rfl, h⟩

theorem makeDir_eq {dir result : Path} (h : host.makeDir dir = .ok result) : result = dir := by
  unfold Host.makeDir at h
  split at h
  · cases h
  · exact (Except.ok.inj h).symm

/-- `build` for a job that is not run through another script. -/
theorem direct_of_build {job : Job} {spec : CommandSpec}
    (h : build host paths args job.name = .ok spec) :
    ∃ inner, direct host paths args (outputDir args paths) job = .ok inner ∧
      spec = if convertsCppScript job (language args) then
        withScriptConversion paths inner (chineseScript args) (language args) else inner := by
  have hfind : (Job.all.find? fun job' => decide (job'.name = job.name)) = some job := by
    cases job with
    | liveSensevoice gpu => cases gpu <;> rfl
    | liveCppTurboGpu | recordEnter | recordTimed => rfl
    | post kind => cases kind <;> rfl
  unfold build at h
  obtain ⟨dir, hdir, h⟩ := bind_eq_ok h
  rw [makeDir_eq host hdir, hfind] at h
  obtain ⟨inner, hinner, h⟩ := bind_eq_ok h
  exact ⟨inner, hinner, (Except.ok.inj h).symm⟩

theorem reads_asItems {asks : List (Ask F)} (h : ∀ a ∈ asks, p.Reads (asItem args p a)) :
    ∀ item ∈ asks.map (asItem args p), p.Reads item := by
  intro item hitem
  obtain ⟨a, ha, rfl⟩ := List.mem_map.mp hitem
  exact h a ha

/-- A line of options is taken as it is meant, or refused. -/
theorem parseArgs_written {asks : List (Ask F)} (h : ∀ a ∈ asks, p.Reads (asItem args p a))
    (hpos : p.positionals = []) (hrequired : p.required = [])
    (hnodup : ((asks.map Prod.snd).map Prod.fst).Nodup) (values : Dest → Value F) :
    p.parseArgs (written asks) = some values ↔
      (∀ entry ∈ asks.map Prod.snd, Fits args p entry) ∧
        values = p.asked (asks.map Prod.snd) := by
  have hparse := Reads.parseArgs (reads_asItems args h) hpos
    (by rw [List.map_map]; rwa [List.map_map] at hnodup)
    (by rw [hrequired]; exact fun _ hdest => absurd hdest List.not_mem_nil) values
  rw [List.flatMap_map, List.map_map] at hparse
  refine hparse.trans (and_congr_left' ?_)
  simp only [List.forall_mem_map]
  rfl

theorem dests_capture :
    ((previewSettings args ++ deviceSettings args).map Prod.fst).Sublist
      [Dest.previewSeconds, .systemDevice, .includeMic, .micDevice] := by
  unfold previewSettings deviceSettings
  cases numeric args "previewSeconds" <;> cases text args "systemDevice" <;>
    cases text args "micDevice" <;> by_cases hmic : boolean args "includeMic" = some true <;>
    simp [hmic]

omit [Doubles F] in
theorem written_append (asks asks' : List (Ask F)) :
    written (asks ++ asks') = written asks ++ written asks' := List.flatMap_append

variable (handOver : HandOver)

/-- The command ends up in the script, which takes these settings when it can. -/
def Reaches (spec : CommandSpec) (script : Script) (settings : List (Dest × Value F))
    (taken : Prop) : Prop :=
  ∃ argv, started handOver paths spec = some (script, argv) ∧ ∀ values,
    (script.parser F).parseArgs argv = some values ↔
      taken ∧ values = (script.parser F).asked settings

variable {handOver} (hcmd : handOver.PassesWords) (huv : handOver.TakesOptions)

include hcmd huv in
theorem started_liveSensevoice {gpu : Bool} {spec : CommandSpec}
    (h : liveSensevoice host paths args (outputDir args paths) gpu = .ok spec)
    (hplain : PlainWords spec) :
    started handOver paths spec =
      some (.liveTranscribe, written (liveSensevoiceItems args host paths gpu)) := by
  unfold liveSensevoice at h
  unfold liveSensevoiceItems
  cases hsave : (boolean args "saveWav").getD true with
  | true =>
    rw [hsave] at h
    obtain rfl := Except.ok.inj h
    rw [if_pos rfl]
    cases gpu <;>
    · refine (started_script paths hcmd huv rfl rfl hplain).trans ?_
      rw [captureArgs_eq, recognitionArgs_eq (F := F)]
      simp only [written_append, List.append_assoc]
      rfl
  | false =>
    rw [hsave] at h
    obtain ⟨dir, hdir, h⟩ := bind_eq_ok h
    obtain rfl := Except.ok.inj h
    rw [if_neg Bool.false_ne_true]
    cases gpu <;>
    · refine (started_script paths hcmd huv rfl rfl hplain).trans ?_
      rw [makeDir_eq host hdir, captureArgs_eq, recognitionArgs_eq (F := F)]
      simp only [written_append, List.append_assoc]
      rfl

include hcmd huv in
theorem started_liveCppTurboGpu
    (hplain : PlainWords (liveCppTurboGpu args (outputDir args paths))) :
    started handOver paths (liveCppTurboGpu args (outputDir args paths)) =
      some (.liveCpp, written (liveCppTurboGpuItems args paths)) := by
  refine (started_script paths hcmd huv rfl rfl hplain).trans ?_
  unfold recording liveCppTurboGpuItems
  rw [captureArgs_eq, recognitionArgs_eq (F := F)]
  simp only [written_append, List.append_assoc]
  rfl

include hcmd huv in
/-- The words of a recording: those of the devices come last. -/
theorem started_record {timed : Bool} {spec : CommandSpec}
    (h : (if timed then recordTimed host args (outputDir args paths)
      else recordEnter host args (outputDir args paths)) = .ok spec)
    (hplain : PlainWords spec) :
    started handOver paths spec = some (.recordAudio,
      written (recordItems args host paths timed) ++ captureArgs args) := by
  cases timed with
  | true =>
    obtain ⟨dir, hdir, h⟩ := bind_eq_ok h
    obtain rfl := Except.ok.inj h
    refine (started_script paths hcmd huv rfl rfl hplain).trans ?_
    rw [makeDir_eq host hdir]
    rfl
  | false =>
    obtain ⟨dir, hdir, h⟩ := bind_eq_ok h
    obtain rfl := Except.ok.inj h
    refine (started_script paths hcmd huv rfl rfl hplain).trans ?_
    rw [makeDir_eq host hdir]
    rfl

omit [Doubles F] in
theorem needAudio_eq {audio : Text} (h : needAudio args = .ok audio) : audio = audioPath args := by
  unfold needAudio at h
  unfold audioPath
  cases haudio : text args "audioPath" with
  | none => rw [haudio] at h; cases h
  | some _ => rw [haudio] at h; exact (Except.ok.inj h).symm

omit [Doubles F] in
include hcmd huv in
theorem started_postSensevoice {kind : Output.Kind} {gpu : Bool} {spec : CommandSpec}
    (h : postSensevoice paths args (outputDir args paths) kind gpu = .ok spec)
    (hplain : PlainWords spec) :
    started handOver paths spec = some (.postTranscribeSensevoice,
      written (if gpu then [askText (F := F) "--provider" .provider "cuda".toList] else []) ++
        audioPath args :: written (postSensevoiceItems args paths kind gpu)) := by
  obtain ⟨audio, haudio, h⟩ := bind_eq_ok h
  obtain rfl := Except.ok.inj h
  cases gpu <;>
  · refine (started_script paths hcmd huv rfl rfl hplain).trans ?_
    rw [needAudio_eq args haudio]
    rfl

include huv in
theorem started_postQwen {kind : Output.Kind} {large gpu : Bool} {spec : CommandSpec}
    (h : postQwen paths args (outputDir args paths) kind large gpu = .ok spec) :
    started handOver paths spec = some (.postTranscribeQwen,
      audioPath args :: written (postQwenItems args paths kind large gpu)) := by
  obtain ⟨audio, haudio, h⟩ := bind_eq_ok h
  obtain rfl := Except.ok.inj h
  have hoptions : uvOptions (qwenEnvironment.tail ++
      [joined paths.repoRoot ["python_backend", "qwen-requirements.txt"]]) = true := rfl
  have hscript : scriptAt paths (joined paths.repoRoot
      ["python_backend", "post_transcribe_qwen.py"]) = some .postTranscribeQwen := if_pos rfl
  have hwords : written (postQwenItems args paths kind large gpu) = _ := written_append _ _
  rw [hwords]
  cases hcontext : qwenContext args <;>
  · refine (started_uv paths huv hoptions).trans ?_
    rw [needAudio_eq args haudio]
    refine (congrArg (Option.map _) hscript).trans ?_
    simp only [Option.map_some]
    rfl

/-- A command of options, all in one line. -/
theorem Reaches.of_asks {spec : CommandSpec} {script : Script} {asks : List (Ask F)}
    {settings : List (Dest × Value F)}
    (hstarted : started handOver paths spec = some (script, written asks))
    (h : ∀ a ∈ asks, (script.parser F).Reads (asItem args (script.parser F) a))
    (hpos : (script.parser F).positionals = []) (hrequired : (script.parser F).required = [])
    (hentry : asks.map Prod.snd = settings) (hnodup : (settings.map Prod.fst).Nodup) :
    Reaches paths handOver spec script settings
      (∀ entry ∈ settings, Fits args (script.parser F) entry) := by
  refine ⟨_, hstarted, fun values => ?_⟩
  rw [← hentry] at hnodup ⊢
  exact parseArgs_written args h hpos hrequired hnodup values

include hcmd huv in
theorem reaches_liveSensevoice [Documented F] {gpu : Bool} {spec : CommandSpec}
    (h : liveSensevoice host paths args (outputDir args paths) gpu = .ok spec)
    (hplain : PlainWords spec) :
    Reaches paths handOver spec .liveTranscribe (liveSensevoiceSettings args host paths gpu)
      (∀ entry ∈ liveSensevoiceSettings args host paths gpu, Fits args liveTranscribe entry) := by
  have hentry : (liveSensevoiceItems args host paths gpu).map Prod.snd =
      liveSensevoiceSettings args host paths gpu := by
    unfold liveSensevoiceItems liveSensevoiceSettings
    simp only [List.map_append, previewItems_entry, deviceItems_entry, List.append_assoc]
    cases gpu <;> cases (boolean args "saveWav").getD true <;> rfl
  refine Reaches.of_asks args paths (started_liveSensevoice args host paths hcmd huv h hplain)
    (reads_liveSensevoiceItems args host paths gpu) rfl rfl hentry ?_
  have hdests : ((liveSensevoiceSettings args host paths gpu).map Prod.fst).Sublist
      ([Dest.engine, .provider, .streaming] ++ [.saveRecording, .recordingDir, .sessionPrefix,
        .output] ++ [.sensevoiceModel] ++ [.previewSeconds, .systemDevice, .includeMic,
        .micDevice] ++
        [.language, .chineseScript]) := by
    unfold liveSensevoiceSettings
    rw [List.append_assoc _ (previewSettings args), List.map_append, List.map_append]
    refine List.Sublist.append (List.Sublist.append ?_ (dests_capture args)) (List.Sublist.refl _)
    cases gpu <;> cases (boolean args "saveWav").getD true <;> simp <;> decide
  exact hdests.nodup (by decide)

include hcmd huv in
theorem reaches_liveCppTurboGpu [Documented F]
    (hplain : PlainWords (liveCppTurboGpu args (outputDir args paths))) :
    Reaches paths handOver (liveCppTurboGpu args (outputDir args paths)) .liveCpp
      (liveCppTurboGpuSettings args paths)
      (∀ entry ∈ liveCppTurboGpuSettings args paths, Fits args liveCpp entry) := by
  have hentry : (liveCppTurboGpuItems args paths).map Prod.snd =
      liveCppTurboGpuSettings args paths := by
    unfold liveCppTurboGpuItems liveCppTurboGpuSettings
    simp only [List.map_append, previewItems_entry, deviceItems_entry, List.append_assoc]
    rfl
  refine Reaches.of_asks args paths (started_liveCppTurboGpu args paths hcmd huv hplain)
    (reads_liveCppTurboGpuItems args paths) rfl rfl hentry ?_
  have hdests : ((liveCppTurboGpuSettings args paths).map Prod.fst).Sublist
      ([Dest.server, .streaming, .saveRecording, .beamSize, .bestOf, .recordingDir, .model,
        .sessionPrefix] ++ [.previewSeconds, .systemDevice, .includeMic, .micDevice] ++
        [.language, .chineseScript]) := by
    unfold liveCppTurboGpuSettings
    rw [List.append_assoc _ (previewSettings args), List.map_append, List.map_append]
    exact ((List.Sublist.refl _).append (dests_capture args)).append (List.Sublist.refl _)
  exact hdests.nodup (by decide)

include hcmd huv in
theorem reaches_record [Documented F] {timed : Bool} {spec : CommandSpec}
    (h : (if timed then recordTimed host args (outputDir args paths)
      else recordEnter host args (outputDir args paths)) = .ok spec)
    (hplain : PlainWords spec) :
    Reaches paths handOver spec .recordAudio (recordSettings args host paths timed)
      ((∀ entry ∈ recordSettings args host paths timed, Fits args recordAudio entry) ∧
        numeric args "previewSeconds" = none) := by
  have hstarted := started_record args host paths hcmd huv h hplain
  have hreads := reads_recordItems args host paths timed
  have hdevices := reads_deviceItems args (p := recordAudio (F := F)) ⟨rfl, rfl, rfl⟩
  rw [captureArgs_eq, ← written_append] at hstarted
  cases hpreview : numeric args "previewSeconds" with
  | none =>
    have hnone : previewItems args = [] := by
      unfold previewItems
      rw [hpreview]
      rfl
    rw [hnone, List.nil_append] at hstarted
    have hentry : (recordItems args host paths timed ++ deviceItems args).map Prod.snd =
        recordSettings args host paths timed := by
      rw [List.map_append, deviceItems_entry]
      cases timed <;> rfl
    have hreach := Reaches.of_asks args paths hstarted
      (List.forall_mem_append.mpr ⟨hreads, hdevices⟩) rfl rfl hentry ?_
    · simp only [and_true]
      exact hreach
    · have hdests : ((recordSettings args host paths timed).map Prod.fst).Sublist
          ([if timed then Dest.duration else .untilEnter, .output] ++
            [.previewSeconds, .systemDevice, .includeMic, .micDevice]) := by
        unfold recordSettings
        rw [List.map_append]
        refine List.Sublist.append ?_ ?_
        · cases timed <;> exact List.Sublist.refl _
        · refine List.Sublist.trans ?_ (dests_capture args)
          rw [List.map_append]
          exact List.sublist_append_right _ _
      exact hdests.nodup (by cases timed <;> decide)
  | some x =>
    refine ⟨_, hstarted, fun values => ?_⟩
    have hsome : previewItems args = [(.value "--preview-seconds".toList (numberText x),
        Dest.previewSeconds, Value.float (reread x))] := by
      unfold previewItems
      rw [hpreview]
      rfl
    have hdash : Doubles.isDecimal F '-' = false := Documented.isDecimal_ascii '-' (by decide)
    have hunknown : (recordAudio (F := F)).parseOptional "--preview-seconds".toList = .unknown := by
      refine parseOptional_unknown _ (by decide) rfl rfl (by decide) (by decide) rfl ?_ (by decide)
      exact isNegativeNumber_worded _ hdash (by decide)
    have hoffers : ∀ c ∈ (recordItems args host paths timed).map Prod.fst,
        (recordAudio (F := F)).Offers c := by
      intro c hc
      obtain ⟨a, ha, rfl⟩ := List.mem_map.mp hc
      exact (hreads a ha).1
    have hrefused := parseArgs_unknown _ hoffers hunknown
      (numberText x :: written (deviceItems args))
    rw [List.flatMap_map] at hrefused
    rw [written_append, hsome]
    refine iff_of_false ?_ fun htaken => by cases htaken.1.2
    intro hparse
    cases hrefused.symm.trans hparse

/-- A command with the audio file between its options. -/
theorem Reaches.of_audio {spec : CommandSpec} {script : Script} {before after : List (Ask F)}
    {settings : List (Dest × Value F)}
    (hstarted : started handOver paths spec =
      some (script, written before ++ audioPath args :: written after))
    (hbefore : ∀ a ∈ before, (script.parser F).Reads (asItem args (script.parser F) a))
    (hafter : ∀ a ∈ after, (script.parser F).Reads (asItem args (script.parser F) a))
    (hpos : (script.parser F).positionals = [(.audio, toText)])
    (hrequired : ∀ dest ∈ (script.parser F).required, dest ∈ settings.map Prod.fst)
    (hentry : before.map Prod.snd ++ (.audio, .text (audioPath args)) :: after.map Prod.snd =
      settings) (hnodup : (settings.map Prod.fst).Nodup) :
    Reaches paths handOver spec script settings
      (∀ entry ∈ settings, Fits args (script.parser F) entry) := by
  have hsettings : (before.map (asItem args (script.parser F))).map Item.entry ++
      (.audio, .text (audioPath args)) ::
        (after.map (asItem args (script.parser F))).map Item.entry = settings := by
    rw [List.map_map, List.map_map]
    exact hentry
  refine ⟨_, hstarted, fun values => ?_⟩
  have hconvert : toText (audioPath args) = some (Value.text (F := F) (audioPath args)) := rfl
  have hparse := Reads.parseArgs_positional (reads_asItems args hbefore)
    (reads_asItems args hafter) hpos hconvert (by rw [hsettings]; exact hnodup)
    (by rw [hsettings]; exact hrequired) values
  rw [hsettings, List.flatMap_map, List.flatMap_map] at hparse
  refine hparse.trans (and_congr_left' ?_)
  rw [← hentry, List.forall_mem_append, List.forall_mem_cons]
  simp only [List.forall_mem_map]
  rfl

include hcmd huv in
theorem reaches_postSensevoice [Documented F] {kind : Output.Kind} {gpu : Bool}
    {spec : CommandSpec}
    (h : postSensevoice paths args (outputDir args paths) kind gpu = .ok spec)
    (hplain : PlainWords spec) :
    Reaches paths handOver spec .postTranscribeSensevoice
      (postSensevoiceSettings args paths kind gpu)
      (∀ entry ∈ postSensevoiceSettings args paths kind gpu,
        Fits args postTranscribeSensevoice entry) := by
  refine Reaches.of_audio args paths (started_postSensevoice args paths hcmd huv h hplain) ?_
    (reads_postSensevoiceItems args paths kind gpu) rfl ?_ ?_ ?_
  · split
    · refine List.forall_mem_singleton.mpr ?_
      exact reads_askText args rfl (by decide) rfl (oneOf_of_mem (by decide))
    · exact List.forall_mem_nil _
  · refine List.forall_mem_singleton.mpr ?_
    cases gpu <;> simp [postSensevoiceSettings]
  · cases gpu <;> rfl
  · cases gpu <;> simp [postSensevoiceSettings, recognitionSettings]

include huv in
theorem reaches_postQwen [Documented F] (kind : Output.Kind) (large gpu : Bool)
    {spec : CommandSpec}
    (h : postQwen paths args (outputDir args paths) kind large gpu = .ok spec) :
    Reaches paths handOver spec .postTranscribeQwen (postQwenSettings args paths kind large gpu)
      (∀ entry ∈ postQwenSettings args paths kind large gpu,
        Fits args postTranscribeQwen entry) := by
  have hstarted : started handOver paths spec = some (.postTranscribeQwen,
      written ([] : List (Ask F)) ++ audioPath args ::
        written (postQwenItems args paths kind large gpu)) := started_postQwen args paths huv h
  refine Reaches.of_audio args paths hstarted (List.forall_mem_nil _)
    (reads_postQwenItems args paths kind large gpu) rfl ?_ ?_ ?_
  · exact fun dest hdest => absurd hdest List.not_mem_nil
  · unfold postQwenItems postQwenSettings
    cases qwenContext args <;> rfl
  · unfold postQwenSettings
    cases qwenContext args <;> simp

variable {paths} in
theorem Reaches.congr {spec : CommandSpec} {script : Script} {settings : List (Dest × Value F)}
    {taken taken' : Prop} (h : Reaches paths handOver spec script settings taken)
    (heq : taken ↔ taken') :
    Reaches paths handOver spec script settings taken' := by
  obtain ⟨argv, hstarted, hparse⟩ := h
  exact ⟨argv, hstarted, fun values => (hparse values).trans (and_congr_left' heq)⟩

include hcmd huv in
/-- **What a job asks for reaches its script.** The command that `build` makes of the
    arguments of the page ends up in the job's script, if what goes through a launcher is
    plain to `cmd.exe`, and what `parse_args` makes of it there is the settings of the job and
    the defaults of the script, if the script takes them, and nothing otherwise. -/
theorem settings_reach_script [Documented F] {job : Job} {script : Script}
    (hscript : job.script = some script) {spec : CommandSpec}
    (hspec : build host paths args job.name = .ok spec) (hplain : PlainWords spec) :
    Reaches paths handOver spec script (job.settings args host paths)
      (job.Taken args (script.parser F) host paths) := by
  obtain ⟨inner, hinner, hspec⟩ := direct_of_build args host paths hspec
  have hdirect : convertsCppScript job (language args) = false := by
    cases job with
    | post kind => cases kind <;> first | rfl | cases hscript
    | liveSensevoice | liveCppTurboGpu | recordEnter | recordTimed => rfl
  rw [hdirect] at hspec
  obtain rfl : spec = inner := hspec
  -- Only a recording minds the previews.
  have htaken : job ≠ .recordEnter → job ≠ .recordTimed →
      ((∀ entry ∈ job.settings args host paths, Fits args (script.parser F) entry) ↔
        job.Taken args (script.parser F) host paths) := by
    intro henter htimed
    refine ⟨fun h => ⟨h, fun hjob => ?_⟩, fun h => h.1⟩
    rcases hjob with hjob | hjob
    · exact absurd hjob henter
    · exact absurd hjob htimed
  have hrecord : ∀ timed : Bool, job = (if timed then .recordTimed else .recordEnter) →
      script = .recordAudio →
      (Reaches paths handOver spec .recordAudio (recordSettings args host paths timed)
        ((∀ entry ∈ recordSettings args host paths timed, Fits args recordAudio entry) ∧
          numeric args "previewSeconds" = none)) →
      Reaches paths handOver spec script (job.settings args host paths)
        (job.Taken args (script.parser F) host paths) := by
    intro timed hjob hscript h
    subst hscript
    subst hjob
    cases timed with
    | true => exact h.congr ⟨fun h => ⟨h.1, fun _ => h.2⟩, fun h => ⟨h.1, h.2 (Or.inr rfl)⟩⟩
    | false => exact h.congr ⟨fun h => ⟨h.1, fun _ => h.2⟩, fun h => ⟨h.1, h.2 (Or.inl rfl)⟩⟩
  cases job with
  | liveSensevoice gpu =>
    obtain rfl := Option.some.inj hscript
    exact (reaches_liveSensevoice args host paths hcmd huv hinner hplain).congr
      (htaken (by simp) (by simp))
  | liveCppTurboGpu =>
    obtain rfl := Option.some.inj hscript
    obtain rfl := Except.ok.inj hinner
    exact (reaches_liveCppTurboGpu args paths hcmd huv hplain).congr (htaken (by simp) (by simp))
  | recordEnter =>
    exact hrecord false rfl (Option.some.inj hscript).symm
      (reaches_record args host paths hcmd huv hinner hplain)
  | recordTimed =>
    exact hrecord true rfl (Option.some.inj hscript).symm
      (reaches_record args host paths hcmd huv hinner hplain)
  | post kind =>
    have htaken := htaken (by simp) (by simp)
    cases kind with
    | sensevoiceCpu | sensevoiceGpu =>
      obtain rfl := Option.some.inj hscript
      exact (reaches_postSensevoice args paths hcmd huv hinner hplain).congr htaken
    | qwenCpu =>
      obtain rfl := Option.some.inj hscript
      exact (reaches_postQwen args paths huv .qwenCpu false false hinner).congr htaken
    | qwenGpu =>
      obtain rfl := Option.some.inj hscript
      exact (reaches_postQwen args paths huv .qwenGpu false true hinner).congr htaken
    | qwen17Cpu =>
      obtain rfl := Option.some.inj hscript
      exact (reaches_postQwen args paths huv .qwen17Cpu true false hinner).congr htaken
    | qwen17Gpu =>
      obtain rfl := Option.some.inj hscript
      exact (reaches_postQwen args paths huv .qwen17Gpu true true hinner).congr htaken
    | cppGpu | cppTurboGpu | cppCpu | cppVulkan | cppNpu | cppOpenvinoGpu => cases hscript

end

/-! ### With whole numbers alone -/

/-- What `int` makes of a text of ASCII digits. -/
def wholeNumber (word : Text) : Option Int :=
  let digits (t : Text) : Option Nat :=
    if t ≠ [] ∧ t.all Char.isDigit = true then some (Nat.ofDigitChars 10 t 0) else none
  match word with
  | '-' :: rest => (digits rest).map fun n => -(n : Int)
  | rest => (digits rest).map fun n => (n : Int)

instance : Doubles Int where
  isFinite _ := true
  whole n := some (max (-2 ^ 63) (min n (2 ^ 63 - 1)))
  display n := (toString n).toList
  float := wholeNumber
  int := wholeNumber
  literal q := q.num
  isDecimal := Char.isDigit

theorem wholeNumber_toString (n : Int) : wholeNumber (toString n).toList = some n := by
  have hdigits : ∀ m : Nat, Nat.toDigits 10 m ≠ [] ∧
      (Nat.toDigits 10 m).all Char.isDigit = true := by
    intro m
    refine ⟨Nat.toDigits_ne_nil, List.all_eq_true.mpr fun c hc => ?_⟩
    exact Nat.isDigit_of_mem_toDigits (by decide) (by decide) hc
  cases n with
  | ofNat m =>
    have htext : (toString (Int.ofNat m)).toList = Nat.toDigits 10 m := by
      simp [Int.toString_eq_repr, Int.repr, Nat.toList_repr]
    obtain ⟨c, digits, hcons⟩ := List.exists_cons_of_ne_nil (hdigits m).1
    have hc : c ≠ '-' := by
      intro heq
      have hall := (hdigits m).2
      rw [hcons, heq] at hall
      exact absurd hall (by simp)
    rw [htext]
    unfold wholeNumber
    split
    · rename_i heq
      rw [hcons] at heq
      exact absurd (List.cons.inj heq).1 hc
    · simp [hdigits m]
  | negSucc m =>
    have htext : (toString (Int.negSucc m)).toList = '-' :: Nat.toDigits 10 (m + 1) := by
      simp [Int.toString_eq_repr, Int.repr, Nat.toList_repr]
    rw [htext]
    simp only [wholeNumber, hdigits (m + 1), ne_eq, not_false_eq_true, and_self, if_true,
      Nat.ofDigitChars_ten_toDigits]
    rfl

instance : Documented Int where
  isDecimal_ascii _ _ := rfl
  whole_range x n h := by
    have hn : max (-2 ^ 63) (min x (2 ^ 63 - 1)) = n := Option.some.inj h
    omega
  float_int n _ _ := (wholeNumber_toString n).trans (congrArg some (Rat.num_intCast n).symm)
  int_int n _ _ := wholeNumber_toString n
  display_eq _ _ h := by cases h
  float_display _ _ h := by cases h
  int_display _ _ h := by cases h

/-- Nothing in the way: `uv` takes the options off one after the other. -/
def afterOptions : List Text → List Text
  | flag :: value :: words =>
    if flag = "--no-project".toList then afterOptions (value :: words)
    else if flag ∈ uvValued then afterOptions words
    else flag :: value :: words
  | words => words

/-- The words of a launcher as they are, and `uv` as it is documented. -/
def sampleHandOver : HandOver := ⟨id, afterOptions⟩

theorem sampleHandOver_takesOptions : sampleHandOver.TakesOptions := by
  intro options command h
  show afterOptions _ = _
  have hpython : ∀ command, afterOptions ("python".toList :: command) =
      "python".toList :: command := by
    rintro (- | ⟨word, words⟩)
    · rfl
    · exact (if_neg (by decide)).trans (if_neg (by decide))
  induction options using uvOptions.induct with
  | case1 => exact hpython command
  | case2 flag =>
    have hflag : flag = "--no-project".toList := of_decide_eq_true h
    rw [hflag]
    exact (if_pos rfl).trans (hpython command)
  | case3 value words ih =>
    rw [uvOptions, if_pos rfl] at h
    exact (if_pos rfl).trans (ih h)
  | case4 flag value words hflag ih =>
    rw [uvOptions, if_neg hflag, Bool.and_eq_true, List.contains_iff_mem] at h
    exact (if_neg hflag).trans ((if_pos h.1).trans (ih h.2))

def sampleHost : Host := ⟨fun _ => none, "20250101_120000".toList, some 8⟩

def samplePaths : AppPaths := ⟨⟨"C:\\app".toList, by decide⟩, "C:\\app".toList⟩

def sampleArgs : Args Int :=
  [("durationSeconds".toList, .number 1800), ("systemDevice".toList, .string "Speakers".toList),
    ("includeMic".toList, .bool true), ("micDevice".toList, .string []),
    ("outputDir".toList, .string "outputs".toList)]

theorem settings_reach_script_timed :
    ∃ spec, build sampleHost samplePaths sampleArgs Job.recordTimed.name = .ok spec ∧
      Reaches samplePaths sampleHandOver spec .recordAudio
        (Job.recordTimed.settings sampleArgs sampleHost samplePaths)
        (Job.recordTimed.Taken sampleArgs (Script.recordAudio.parser Int) sampleHost
          samplePaths) :=
  ⟨_, rfl, settings_reach_script sampleArgs sampleHost samplePaths (fun _ _ => rfl)
    sampleHandOver_takesOptions rfl rfl fun _ => by decide⟩

/-- The reader wants no device that looks like an option. -/
example : (recordAudio (F := Int)).parseArgs
    (["--until-enter", "--output", "audio.wav", "--system-device", "-Speakers"].map
      String.toList) = none := rfl

end Launch
end LocalMeetingStt
