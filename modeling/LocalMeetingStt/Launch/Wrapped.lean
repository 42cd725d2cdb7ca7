import LocalMeetingStt.Launch.Agreement
import LocalMeetingStt.Post.TextScript

/-!
# whisper-cli behind a conversion (`post_whisper_cpp.py`)

A whisper-cli job whose text may be Chinese is not run itself: `build` puts its command
behind the options of `post_whisper_cpp.py`, after a `--`. The script runs the command and
rewrites what it has written; the file it takes for that is the word after the first `-of`.

`wrapped_transcript` says what this comes to: the command as it stood, and then the
conversion that was asked for, of the file that is the job's transcript. There is no launcher
on the way; of `uv` it is relied on that it takes off its own options.
-/

namespace LocalMeetingStt
namespace Launch

open Argparse Argparse.Parser WinPath
open Jobs (CommandSpec)
open Post (Config converter convertLines lineEnd readText writeText)

/-! ## The script -/

/-- Text files, by their paths. -/
abbrev Files := Path → Option Text

/-- How the script ends. -/
inductive Ending where
  /-- `SystemExit` with a text. -/
  | message (text : Text)
  /-- By `argparse`. -/
  | usage
  | code (n : Int)
  /-- By an exception. -/
  | raised
  /-- Returned, with what was printed. -/
  | printed (line : Text)

/-- What the script is given besides its arguments. -/
structure Setting where
  openCC : Config → Text → Text
  /-- `subprocess.call`; without a code where the program cannot be started. -/
  call : List Text → Files → Option Int × Files

/-- `command[command.index("-of") + 1]`, where there is one. -/
def outputBase (command : List Text) : Option Text :=
  (command.dropWhile fun word => decide (word ≠ "-of".toList))[1]?

/-- Rewrites a transcript that has been written. -/
def rewrite (openCC : Config → Text → Text) (script language : Text) (output : Path)
    (files : Files) : Ending × Files :=
  match files output with
  | none => (.raised, files)
  | some text =>
    (.printed ("Converted to ".toList ++ script ++ ": ".toList ++ output),
      Function.update files output
        (some (writeText (convertLines openCC (readText text) script language))))

section

variable (F : Type) [Doubles F] (setting : Setting)

/-- The texts of the namespace. -/
def Value.word {F : Type} : Value F → Text
  | .text t => t
  | _ => []

/-- `main`, with `sys.argv`. -/
def postWhisperCppMain (argv : List Text) (files : Files) : Ending × Files :=
  if !argv.contains "--".toList then
    (.message ("Usage: post_whisper_cpp.py --chinese-script SCRIPT --language LANG -- " ++
      "whisper-cli ARGS").toList, files)
  else
    let command := (argv.dropWhile fun word => decide (word ≠ "--".toList)).drop 1
    match (postWhisperCpp (F := F)).parseArgs
      ((argv.takeWhile fun word => decide (word ≠ "--".toList)).drop 1) with
    | none => (.usage, files)
    | some args =>
      if !command.contains "-of".toList then
        (.message "The whisper-cli command needs -of <output base>.".toList, files)
      else
        match setting.call command files with
        | (none, files) => (.raised, files)
        | (some code, files) =>
          if code ≠ 0 then (.code code, files)
          else
            match outputBase command with
            | none => (.raised, files)
            | some base =>
              rewrite setting.openCC (args .chineseScript).word (args .language).word
                (base ++ ".txt".toList) files

end

/-- A command, and a conversion of the file it writes if it ends well. -/
def thenRewrite (setting : Setting) (command : List Text) (script language : Text) (output : Path)
    (files : Files) : Ending × Files :=
  match setting.call command files with
  | (none, files) => (.raised, files)
  | (some code, files) =>
    if code ≠ 0 then (.code code, files)
    else rewrite setting.openCC script language output files

/-! ## The words -/

theorem isName_of {name : Path} (hunbroken : Unbroken name) (hlength : 2 < name.length) :
    IsName name := by
  refine ⟨hunbroken, ?_, ?_, ?_⟩ <;>
  · intro heq
    rw [heq] at hlength
    exact absurd hlength (by decide)

/-- A path is no word shorter than its last name. -/
theorem joined_ne (root : Path) (names : List String) (name : String) {word : Path}
    (hunbroken : Unbroken name.toList) (hlength : 2 < name.toList.length)
    (hword : word.length < name.toList.length) : joined root (names ++ [name]) ≠ word := by
  intro heq
  have hsuffix := push_suffix (joined root names) (isName_of hunbroken hlength)
  rw [show push (joined root names) name.toList = joined root (names ++ [name]) by
    rw [joined, joined, List.foldl_append]; rfl, heq] at hsuffix
  exact absurd hsuffix.length_le (by omega)

def wrapperPath (paths : AppPaths) : Path :=
  joined paths.repoRoot ["python_backend", "post_whisper_cpp.py"]

theorem wrapperPath_ne_qwen (paths : AppPaths) :
    wrapperPath paths ≠ joined paths.repoRoot ["python_backend", "post_transcribe_qwen.py"] := by
  intro heq
  have hwrapper : "post_whisper_cpp.py".toList <:+ wrapperPath paths :=
    push_suffix _ (isName_of (by decide) (by decide))
  have hqwen : "post_transcribe_qwen.py".toList <:+ wrapperPath paths := by
    rw [heq]
    exact push_suffix _ (isName_of (by decide) (by decide))
  have := List.suffix_of_suffix_length_le hwrapper hqwen (by decide)
  exact absurd this (by decide)

theorem outputBase_append {before : List Text} (h : ∀ word ∈ before, word ≠ "-of".toList)
    (base : Text) (after : List Text) :
    outputBase (before ++ "-of".toList :: base :: after) = some base := by
  unfold outputBase
  rw [List.dropWhile_append_of_pos (by simpa using h), List.dropWhile_cons_of_neg (by simp)]
  rfl

section

variable {F : Type} [Doubles F] (host : Host) (paths : AppPaths) (args : Args F)

/-- The base that whisper-cli gets, for the file of the job. -/
def transcriptBase (kind : Output.Kind) : Path :=
  Output.withoutTxt (transcriptPath args paths kind)

omit [Doubles F] in
theorem postOutput_eq {kind : Output.Kind} {output : Text}
    (h : postOutput args (outputDir args paths) kind = .ok output) :
    output = transcriptBase paths args kind := by
  obtain ⟨audio, haudio, h⟩ := bind_eq_ok h
  rw [← Except.ok.inj h, needAudio_eq args haudio]
  rfl

theorem whisperCli_ne (runtime : String) : whisperCli paths runtime ≠ "-of".toList :=
  joined_ne paths.dataRoot ["whisper_cpp", runtime, "Release"] "whisper-cli.exe" (by decide)
    (by decide) (by decide)

theorem smallModel_ne : smallModel paths ≠ "-of".toList :=
  joined_ne paths.dataRoot ["whisper_cpp", "models"] "ggml-small.bin" (by decide) (by decide)
    (by decide)

theorem turboModel_ne : turboModel paths ≠ "-of".toList :=
  joined_ne paths.dataRoot ["whisper_cpp", "models"] "ggml-large-v3-turbo.bin" (by decide)
    (by decide) (by decide)

omit [Doubles F] in
theorem language_ne : language args ≠ "-of".toList := by
  intro heq
  have hmem := language_mem args
  rw [heq] at hmem
  exact absurd hmem (by decide)

variable {paths args}

omit [Doubles F] in
theorem outputBase_whisper (haudio : audioPath args ≠ "-of".toList) {kind : Output.Kind}
    {label runtime : String} {model : Path} (hmodel : model ≠ "-of".toList)
    {threads : List Text} {inner : CommandSpec}
    (h : whisper paths args (outputDir args paths) kind label runtime model threads = .ok inner) :
    outputBase (inner.executable :: inner.args) = some (transcriptBase paths args kind) := by
  obtain ⟨audio, hneed, h⟩ := bind_eq_ok h
  obtain ⟨output, houtput, h⟩ := bind_eq_ok h
  rw [← Except.ok.inj h, needAudio_eq args hneed, postOutput_eq paths args houtput]
  have hbefore : ∀ word ∈ [whisperCli paths runtime, "-m".toList, model, "-f".toList,
      audioPath args, "-l".toList, language args, "-otxt".toList], word ≠ "-of".toList := by
    simp only [List.forall_mem_cons]
    exact ⟨whisperCli_ne paths runtime, by decide, hmodel, by decide, haudio, by decide,
      language_ne args, by decide, List.forall_mem_nil _⟩
  exact outputBase_append hbefore _ threads

omit [Doubles F] in
theorem outputBase_whisperOpenvino (haudio : audioPath args ≠ "-of".toList) {kind : Output.Kind}
    {label device : String} (hdevice : device.toList ≠ "-of".toList) {inner : CommandSpec}
    (h : whisperOpenvino paths args (outputDir args paths) kind label device = .ok inner) :
    outputBase (inner.executable :: inner.args) = some (transcriptBase paths args kind) := by
  obtain ⟨audio, hneed, h⟩ := bind_eq_ok h
  obtain ⟨output, houtput, h⟩ := bind_eq_ok h
  rw [← Except.ok.inj h, needAudio_eq args hneed, postOutput_eq paths args houtput]
  have hbefore : ∀ word ∈ [whisperCli paths "bin_openvino", "-m".toList, smallModel paths,
      "-f".toList, audioPath args, "-l".toList, language args, "-oved".toList, device.toList,
      "-t".toList, "8".toList, "-bs".toList, "1".toList, "-bo".toList, "1".toList, "-nf".toList,
      "-nt".toList, "-np".toList, "-otxt".toList], word ≠ "-of".toList := by
    simp only [List.forall_mem_cons]
    exact ⟨whisperCli_ne paths _, by decide, smallModel_ne paths, by decide, haudio, by decide,
      language_ne args, by decide, hdevice, by decide, by decide, by decide, by decide, by decide,
      by decide, by decide, by decide, by decide, by decide, List.forall_mem_nil _⟩
  exact outputBase_append hbefore _ []

/-- Of the jobs that are put behind a conversion, the first `-of` is the shell's own. -/
theorem outputBase_direct (haudio : audioPath args ≠ "-of".toList) {kind : Output.Kind}
    (hconverts : convertsCppScript (.post kind) (language args) = true) {inner : CommandSpec}
    (h : direct host paths args (outputDir args paths) (.post kind) = .ok inner) :
    outputBase (inner.executable :: inner.args) = some (transcriptBase paths args kind) := by
  cases kind with
  | cppGpu => exact outputBase_whisper haudio (smallModel_ne paths) h
  | cppTurboGpu => exact outputBase_whisper haudio (turboModel_ne paths) h
  | cppCpu => exact outputBase_whisper haudio (smallModel_ne paths) h
  | cppNpu => exact outputBase_whisperOpenvino haudio (by decide) h
  | cppOpenvinoGpu => exact outputBase_whisperOpenvino haudio (by decide) h
  | cppVulkan | sensevoiceCpu | sensevoiceGpu | qwenCpu | qwenGpu | qwen17Cpu | qwen17Gpu =>
    cases hconverts

/-! ## The options of the wrapper -/

variable (F) in
/-- The two options, with what the shell writes for them. -/
def conversionAsks (script language : Text) : List (Ask F) :=
  [askText "--chinese-script" .chineseScript script, askText "--language" .language language]

omit [Doubles F] in
theorem isArgument_of_mem {choices : List String} {word : Text}
    (h : word ∈ choices.map String.toList)
    (hchoices : ∀ choice ∈ choices, choice.toList.head? ≠ some '-') {p : Parser Dest (Value F)} :
    p.IsArgument word := by
  obtain ⟨choice, hchoice, rfl⟩ := List.mem_map.mp h
  exact p.isArgument_of_head (hchoices choice hchoice)

variable (args) in
theorem parseArgs_conversion :
    (postWhisperCpp (F := F)).parseArgs
      (written (conversionAsks F (chineseScript args) (language args))) =
        some ((postWhisperCpp (F := F)).asked
          [(.chineseScript, .text (chineseScript args)), (.language, .text (language args))]) := by
  have hreads : ∀ a ∈ conversionAsks F (chineseScript args) (language args),
      (postWhisperCpp (F := F)).Reads (asItem args postWhisperCpp a) := by
    refine List.forall_mem_cons.mpr ⟨?_, List.forall_mem_singleton.mpr ?_⟩
    · exact reads_askText args rfl (by decide) rfl (oneOf_of_mem (chineseScript_mem args))
    · exact reads_askText args rfl (by decide) rfl rfl
  refine (parseArgs_written args hreads rfl rfl ?_ _).mpr ⟨?_, rfl⟩
  · show [Dest.chineseScript, .language].Nodup
    decide
  · refine List.forall_mem_cons.mpr ⟨?_, List.forall_mem_singleton.mpr ?_⟩
    · exact isArgument_of_mem (chineseScript_mem args) (by decide)
    · exact isArgument_of_mem (language_mem args) (by decide)

variable (F) in
/-- The script with options for it and a command behind the `--`. -/
theorem main_append (setting : Setting) {before command : List Text} {base : Text}
    (hbefore : ∀ word ∈ before, word ≠ "--".toList) {values : Dest → Value F}
    (hparse : postWhisperCpp.parseArgs (before.drop 1) = some values)
    (hbase : outputBase command = some base) (files : Files) :
    postWhisperCppMain F setting (before ++ "--".toList :: command) files =
      thenRewrite setting command (values .chineseScript).word (values .language).word
        (base ++ ".txt".toList) files := by
  have hmem : (before ++ "--".toList :: command).contains "--".toList = true := by simp
  have htake : (before ++ "--".toList :: command).takeWhile
      (fun word => decide (word ≠ "--".toList)) = before := by
    rw [List.takeWhile_append_of_pos (by simpa using hbefore), List.takeWhile_cons_of_neg (by simp),
      List.append_nil]
  have hdrop : (before ++ "--".toList :: command).dropWhile
      (fun word => decide (word ≠ "--".toList)) = "--".toList :: command := by
    rw [List.dropWhile_append_of_pos (by simpa using hbefore), List.dropWhile_cons_of_neg (by simp)]
  have hof : command.contains "-of".toList = true := by
    rw [List.contains_iff_mem]
    by_contra hnot
    unfold outputBase at hbase
    have hnone : command.dropWhile (fun word => decide (word ≠ "-of".toList)) = [] := by
      refine List.dropWhile_eq_nil_iff.mpr fun word hword => ?_
      exact decide_eq_true fun heq => hnot (heq ▸ hword)
    rw [hnone] at hbase
    cases hbase
  unfold postWhisperCppMain thenRewrite
  rw [hmem, htake, hdrop, hparse]
  simp only [List.drop_one, List.tail_cons, hof, Bool.not_true, Bool.false_eq_true, if_false,
    hbase]

omit [Doubles F] in
theorem started_withScriptConversion {handOver : HandOver} (huv : handOver.TakesOptions)
    (inner : CommandSpec) (script language : Text) :
    started handOver paths (withScriptConversion paths inner script language) =
      some (.postWhisperCpp, written (conversionAsks F script language) ++
        "--".toList :: inner.executable :: inner.args) := by
  have hscript : scriptAt paths (wrapperPath paths) = some .postWhisperCpp := by
    unfold scriptAt
    rw [if_neg (wrapperPath_ne_qwen paths)]
    exact if_pos rfl
  have hoptions : uvOptions (["--no-project", "--with",
      "opencc-python-reimplemented==0.1.7"].map String.toList) = true := rfl
  refine (started_uv paths huv hoptions).trans ?_
  exact congrArg (Option.map _) hscript

/-- What the lines of a transcript become, if whisper-cli ends well and writes one. -/
theorem thenRewrite_lines {setting : Setting} {command : List Text} {script language : Text}
    {output : Path} {files files' : Files} {lines : List Text}
    (hcall : setting.call command files = (some 0, files'))
    (houtput : files' output = some (lineEnd.intercalate lines)) (hne : lines ≠ [])
    (hlines : ∀ line ∈ lines, '\r' ∉ line ∧ '\n' ∉ line)
    (hopenCC : ∀ line ∈ lines, '\n' ∉ converter setting.openCC script language line) :
    (thenRewrite setting command script language output files).2 =
      Function.update files' output (some (lineEnd.intercalate
        (lines.map (converter setting.openCC script language)))) := by
  unfold thenRewrite rewrite
  rw [hcall]
  simp only [ne_eq, not_true_eq_false, if_false, houtput]
  rw [Post.rewritten_lines hne hlines hopenCC]

variable (paths args)

omit [Doubles F] in
theorem wrapper_words :
    ∀ word ∈ wrapperPath paths ::
      written (conversionAsks F (chineseScript args) (language args)), word ≠ "--".toList := by
  have hne : ∀ choices : List String, (∀ choice ∈ choices, choice.toList ≠ "--".toList) →
      ∀ word ∈ choices.map String.toList, word ≠ "--".toList := by
    intro choices h word hword
    obtain ⟨choice, hchoice, rfl⟩ := List.mem_map.mp hword
    exact h choice hchoice
  have hpath : wrapperPath paths ≠ "--".toList :=
    joined_ne paths.repoRoot ["python_backend"] "post_whisper_cpp.py" (by decide) (by decide)
      (by decide)
  refine List.forall_mem_cons.mpr ⟨hpath, ?_⟩
  show ∀ word ∈ ["--chinese-script".toList, chineseScript args, "--language".toList,
    language args], word ≠ "--".toList
  simp only [List.forall_mem_cons]
  exact ⟨by decide, hne scripts (by decide) _ (chineseScript_mem args), by decide,
    hne sensevoiceLanguages (by decide) _ (language_mem args), List.forall_mem_nil _⟩

/-- **A whisper-cli job behind the conversion is that job and then the conversion.** The
    wrapper runs the command that would have been run and rewrites the file of the job as the
    page has it, but for a command that fails; and of the lines that were written each is
    converted alone, in its place. -/
theorem wrapped_transcript {handOver : HandOver} (huv : handOver.TakesOptions) {kind : Output.Kind}
    (hconverts : convertsCppScript (.post kind) (language args) = true) {spec : CommandSpec}
    (hspec : build host paths args (Job.post kind).name = .ok spec)
    (haudio : audioPath args ≠ "-of".toList) {output : Path}
    (houtput : output = Output.written paths.toAppPaths kind (audioPath args)
      ((text args "outputDir").getD [])) :
    ∃ inner argv, direct host paths args (outputDir args paths) (.post kind) = .ok inner ∧
      started handOver paths spec = some (.postWhisperCpp, argv) ∧
      ∀ setting files,
        postWhisperCppMain F setting (wrapperPath paths :: argv) files =
          thenRewrite setting (inner.executable :: inner.args) (chineseScript args)
            (language args) output files ∧
        ∀ files' lines, setting.call (inner.executable :: inner.args) files = (some 0, files') →
          files' output = some (lineEnd.intercalate lines) → lines ≠ [] →
          (∀ line ∈ lines, '\r' ∉ line ∧ '\n' ∉ line) →
          (∀ line ∈ lines,
            '\n' ∉ converter setting.openCC (chineseScript args) (language args) line) →
          (postWhisperCppMain F setting (wrapperPath paths :: argv) files).2 =
            Function.update files' output (some (lineEnd.intercalate
              (lines.map (converter setting.openCC (chineseScript args) (language args))))) := by
  obtain ⟨inner, hinner, hspec⟩ := direct_of_build args host paths hspec
  rw [hconverts] at hspec
  obtain rfl : spec = withScriptConversion paths inner (chineseScript args) (language args) := hspec
  have hbase := outputBase_direct host haudio hconverts hinner
  have hwritten : output = transcriptBase paths args kind ++ ".txt".toList := by
    have hadds : kind.addsTxt = true := by
      cases kind <;> first | rfl | cases hconverts
    rw [houtput, Output.written, hadds]
    rfl
  have hmain : ∀ setting files, postWhisperCppMain F setting (wrapperPath paths ::
      (written (conversionAsks F (chineseScript args) (language args)) ++
        "--".toList :: inner.executable :: inner.args)) files =
      thenRewrite setting (inner.executable :: inner.args) (chineseScript args) (language args)
        output files := by
    intro setting files
    rw [hwritten]
    exact main_append F setting (wrapper_words paths args) (parseArgs_conversion args) hbase files
  refine ⟨inner, _, hinner, started_withScriptConversion (F := F) huv inner _ _, ?_⟩
  intro setting files
  rw [hmain]
  refine ⟨rfl, fun files' lines hcall hfile hne hlines hopenCC => ?_⟩
  exact thenRewrite_lines hcall hfile hne hlines hopenCC

end

def weeklyArgs : Args Int :=
  [("audioPath".toList, .string "C:\\calls\\weekly.wav".toList),
    ("language".toList, .string "yue".toList)]

def weeklyTranscript : Path :=
  Output.written samplePaths.toAppPaths .cppGpu (audioPath weeklyArgs) []

def weeklySetting : Setting where
  openCC _ text := text.map fun c => if c = '会' then '會' else c
  call _ files :=
    (some 0, Function.update files weeklyTranscript (some (lineEnd.intercalate
      ["会议".toList, "会議です".toList])))

theorem wrapped_transcript_weekly :
    ∃ spec argv, build sampleHost samplePaths weeklyArgs (Job.post .cppGpu).name = .ok spec ∧
      started sampleHandOver samplePaths spec = some (.postWhisperCpp, argv) ∧
      (postWhisperCppMain Int weeklySetting (wrapperPath samplePaths :: argv) fun _ => none).2
        weeklyTranscript = some (lineEnd.intercalate ["會议".toList, "会議です".toList]) := by
  obtain ⟨_, argv, -, hstarted, hmain⟩ := wrapped_transcript sampleHost samplePaths weeklyArgs
    sampleHandOver_takesOptions
    (show convertsCppScript (.post .cppGpu) (language weeklyArgs) = true from rfl) rfl
    (by decide) (show weeklyTranscript = _ from rfl)
  refine ⟨_, argv, rfl, hstarted, ?_⟩
  rw [(hmain weeklySetting fun _ => none).2 _ _ rfl (Function.update_self _ _ _) (by decide)
    (by decide) (by decide), Function.update_self]
  rfl

end Launch
end LocalMeetingStt
