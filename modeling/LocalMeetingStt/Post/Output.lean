import LocalMeetingStt.Captions.Text
import LocalMeetingStt.Lib.WinNames

/-!
# Where a transcript goes (`commands.rs`, `paths.rs`, `main.rs`, `app.js`)

A transcription writes one text file. The backend works out its path from the audio file
and the output folder with `std::path` (`transcript_output_path`); the page works it out
with regular expressions before the job starts (`expectOutput`), for its **Open
transcript** button, and `open_path` resolves what it got against the data root.

`Agrees` is when the two come to the same file wherever the data root is.
-/

namespace LocalMeetingStt
namespace Output

open WinPath

/-! ## The kinds of transcription -/

inductive Kind where
  | cppGpu
  | cppTurboGpu
  | sensevoiceCpu
  | sensevoiceGpu
  | cppCpu
  | cppVulkan
  | cppNpu
  | cppOpenvinoGpu
  | qwenGpu
  | qwenCpu
  | qwen17Gpu
  | qwen17Cpu
deriving DecidableEq, Repr

/-- `outputSuffixes` of the page. -/
def outputSuffixes : Kind → Text
  | .cppGpu => "cpp_gpu_transcript".toList
  | .cppTurboGpu => "cpp_turbo_gpu_transcript".toList
  | .sensevoiceCpu => "sensevoice_cpu_transcript".toList
  | .sensevoiceGpu => "sensevoice_gpu_transcript".toList
  | .cppCpu => "cpp_cpu_transcript".toList
  | .cppVulkan => "cpp_vulkan_transcript".toList
  | .cppNpu => "cpp_npu_transcript".toList
  | .cppOpenvinoGpu => "cpp_openvino_gpu_transcript".toList
  | .qwenGpu => "qwen_gpu_transcript".toList
  | .qwenCpu => "qwen_cpu_transcript".toList
  | .qwen17Gpu => "qwen17_gpu_transcript".toList
  | .qwen17Cpu => "qwen17_cpu_transcript".toList

/-- The suffix `build` hands to `transcript_output_path`. -/
def suffix : Kind → Text
  | .cppGpu => "cpp_gpu_transcript".toList
  | .cppTurboGpu => "cpp_turbo_gpu_transcript".toList
  | .cppCpu => "cpp_cpu_transcript".toList
  | .cppVulkan => "cpp_vulkan_transcript".toList
  | .cppNpu => "cpp_npu_transcript".toList
  | .cppOpenvinoGpu => "cpp_openvino_gpu_transcript".toList
  | .sensevoiceGpu => "sensevoice_gpu_transcript".toList
  | .sensevoiceCpu => "sensevoice_cpu_transcript".toList
  | .qwenGpu => "qwen_gpu_transcript".toList
  | .qwenCpu => "qwen_cpu_transcript".toList
  | .qwen17Gpu => "qwen17_gpu_transcript".toList
  | .qwen17Cpu => "qwen17_cpu_transcript".toList

/-- `whisper-cli -of <base>` writes `<base>.txt`; the other recognizers write the path they
    are given. -/
def Kind.addsTxt : Kind → Bool
  | .cppGpu | .cppTurboGpu | .cppCpu | .cppVulkan | .cppNpu | .cppOpenvinoGpu => true
  | _ => false

def txt : Text := ".txt".toList

/-- `name.to_lowercase() == "audio.wav"` there and `toLowerCase()` here: no character outside
    ASCII has one of these letters for its lower case. -/
def isSessionAudio (name : Text) : Bool := name.map Char.toLower == "audio.wav".toList

/-! ## The backend -/

/-- The data root is a folder: it holds `settings.json` or the scripts, so that its prefix
    has its share. -/
structure AppPaths where
  dataRoot : Path
  settled : Settled dataRoot

/-- A configured path is relative to the data root unless it is absolute. -/
def AppPaths.inDataRoot (paths : AppPaths) (configured : Text) : Path :=
  if isAbsolute configured then configured else push paths.dataRoot configured

def resolveOutputDir (paths : AppPaths) (outputDir : Text) : Path :=
  paths.inDataRoot (trim (if outputDir = [] then "outputs".toList else outputDir))

def transcriptOutputPath (audioPath outputDir : Path) (suffix : Text) : Path :=
  if isSessionAudio ((fileName audioPath).getD []) then
    withFileName audioPath (suffix ++ txt)
  else push outputDir ((fileStem audioPath).getD "audio".toList ++ '_' :: (suffix ++ txt))

def withoutTxt (path : Path) : Text :=
  if txt <:+ path then path.take (path.length - txt.length) else path

/-- The file the recognizer writes. -/
def written (paths : AppPaths) (kind : Kind) (audio outputDir : Text) : Path :=
  let output := transcriptOutputPath audio (resolveOutputDir paths outputDir) (suffix kind)
  if kind.addsTxt then withoutTxt output ++ txt else output

/-! ## The page -/

/-- What `trim()` takes in a script: as in Rust, but a byte order mark is white space and a
    next-line control is not. -/
def isSpace (c : Char) : Bool := (isWhitespace c && c != '\u0085') || c == '\uFEFF'

def scriptTrim (t : Text) : Text := (t.dropWhile isSpace).rdropWhile isSpace

def outputDirSetting (outputDir : Text) : Text :=
  if scriptTrim outputDir = [] then "outputs".toList else scriptTrim outputDir

/-- `path.split(/[\\/]/).pop() || path`. -/
def basename (path : Text) : Text :=
  if path.rtakeWhile (!isSep ·) = [] then path else path.rtakeWhile (!isSep ·)

/-- `.replace(/[\\/]audio\.wav$/i, "")`. -/
def dropSessionAudio (audio : Text) : Text :=
  match audio.drop (audio.length - 10) with
  | c :: name => if isSep c && isSessionAudio name then audio.take (audio.length - 10) else audio
  | [] => audio

/-- `.replace(/\.[^.\\/]+$/, "")`. -/
def dropExtension (name : Text) : Text :=
  let before := name.rdropWhile fun c => c != '.' && !isSep c
  if before.getLast? = some '.' ∧ before.length < name.length then before.dropLast else name

/-- `expectOutput`: what `state.lastOutputPath` becomes. -/
def expectOutput (lastOutputPath : Text) (kind : Kind) (audio outputDir : Text) : Text :=
  if outputSuffixes kind = [] ∨ audio = [] then lastOutputPath
  else if isSessionAudio (basename audio) then
    dropSessionAudio audio ++ '\\' :: (outputSuffixes kind ++ txt)
  else
    let source := dropExtension (basename audio)
    trimSep (outputDirSetting outputDir) ++
      '\\' :: ((if source = [] then "audio".toList else source) ++
        '_' :: (outputSuffixes kind ++ txt))

inductive Opened where
  | nothing
  | url (target : Text)
  | file (path : Path)
deriving DecidableEq, Repr

/-- `target.starts_with("https://") || target.starts_with("http://")`. -/
def isUrl (target : Text) : Bool :=
  decide ("https://".toList <+: target) || decide ("http://".toList <+: target)

def openPath (paths : AppPaths) (target : Text) : Opened :=
  if target = [] then .nothing
  else if isUrl target then .url target
  else .file (paths.inDataRoot target)

/-! ## Agreement -/

/-- The button opens the file the recognizer wrote. -/
def OpensWritten (paths : AppPaths) (lastOutputPath : Text) (kind : Kind)
    (audio outputDir : Text) : Prop :=
  match openPath paths (expectOutput lastOutputPath kind audio outputDir) with
  | .file path => SameFile path (written paths kind audio (outputDirSetting outputDir))
  | _ => False

instance (paths : AppPaths) (lastOutputPath : Text) (kind : Kind) (audio outputDir : Text) :
    Decidable (OpensWritten paths lastOutputPath kind audio outputDir) := by
  unfold OpensWritten
  split <;> infer_instance

/-- An absolute path that ends with its file name. -/
structure AudioFile where
  folder : Text
  sep : Char
  name : Text
  isSep : isSep sep = true
  unbroken : Unbroken name
  absolute : isAbsolute (folder ++ sep :: name) = true
  fileName : fileName (folder ++ sep :: name) = some name

def AudioFile.text (audio : AudioFile) : Text := audio.folder ++ audio.sep :: audio.name

/-- No dot in the name, or text before and after the last one. -/
def PlainStem (name : Text) : Prop :=
  match rsplitDot name with
  | some (before, after) => before ≠ [] ∧ after ≠ []
  | none => True

/-- Joining a name to the folder, and to the folder without a separator at its end, is
    the same. -/
def JoinsPlainly (folder : Path) : Prop :=
  match parsePrefix folder with
  | none => isServer (trimSep folder) = false
  | some p =>
    if p.isVerbatim then
      trimSep folder = folder.take (prefixLen folder) ∨
        p.Complete ∧ prefixLen folder + 1 < folder.length ∧ folder.getLast? ≠ some '/'
    else isBareDrive folder = false

/-- When the page and the backend agree on an output folder. -/
structure PlainFolder (folder : Path) : Prop where
  not_url : isUrl (trimSep folder) = false
  trimmed : trim folder = folder
  joins : JoinsPlainly folder

/-- When the page and the backend agree. -/
def Agrees (audio : AudioFile) (outputDir : Text) : Prop :=
  if isSessionAudio audio.name then ∀ p ∈ parsePrefix audio.text, p.Complete
  else
    PlainStem audio.name ∧ parseDrive audio.name = none ∧
      PlainFolder (outputDirSetting outputDir)

/-! ## Names -/

theorem outputSuffixes_eq (kind : Kind) : outputSuffixes kind = suffix kind := by
  cases kind <;> rfl

/-- The suffixes are plain text, and none is empty. -/
theorem suffix_plain (kind : Kind) :
    Unbroken (suffix kind) ∧ (suffix kind).length > 1 ∧ parseDrive (suffix kind) = none := by
  cases kind <;> exact ⟨by decide, by decide, rfl⟩

theorem unbroken_append {a b : Text} (ha : Unbroken a) (hb : Unbroken b) : Unbroken (a ++ b) :=
  fun c hc => (List.mem_append.mp hc).elim (ha c) (hb c)

/-- The name of a transcript beside the others. -/
def transcriptName (stem : Text) (kind : Kind) : Text := stem ++ '_' :: (suffix kind ++ txt)

/-- A text that ends with `.txt` and has no separator is a name. -/
theorem isName_txt {t : Text} (h : Unbroken t) (ht : t ≠ []) : IsName (t ++ txt) := by
  have hlen : 5 ≤ (t ++ txt).length := by
    have := List.length_pos_iff.mpr ht
    simp only [List.length_append, txt]
    simp
    omega
  have hne : ∀ u : Text, u.length < 5 → t ++ txt ≠ u := fun u hu he => by
    rw [he] at hlen
    omega
  exact ⟨unbroken_append h (by decide), hne _ (by simp), hne _ (by simp), hne _ (by simp)⟩

theorem isName_suffix (kind : Kind) : IsName (suffix kind ++ txt) :=
  isName_txt (suffix_plain kind).1 (List.ne_nil_of_length_pos (by have := suffix_plain kind; omega))

/-- What follows the first two characters of a name does not make it a drive. -/
theorem parseDrive_append {t : Text} {c : Char} (ht : t ≠ []) (hc : c ≠ ':') (y : Text) :
    parseDrive (t ++ c :: y) = parseDrive t := by
  rcases t with _ | ⟨a, _ | ⟨b, t⟩⟩
  · exact absurd rfl ht
  · rw [parseDrive_eq_none, parseDrive_eq_none]
    · intro d rest he
      simp at he
    · intro d rest he
      simp only [List.cons_append, List.nil_append, List.cons.injEq] at he
      exact absurd he.2.1 hc
  · exact parseDrive_two a b _ _

theorem parseDrive_suffix (kind : Kind) : parseDrive (suffix kind ++ txt) = none := by
  have hne : suffix kind ≠ [] :=
    List.ne_nil_of_length_pos (by have := suffix_plain kind; omega)
  rw [show txt = '.' :: "txt".toList from rfl, parseDrive_append hne (by decide)]
  exact (suffix_plain kind).2.2

theorem parseDrive_transcriptName {stem : Text} (h : stem ≠ []) (kind : Kind) :
    parseDrive (transcriptName stem kind) = parseDrive stem :=
  parseDrive_append h (by decide) _

theorem isName_transcriptName {stem : Text} (h : Unbroken stem) (kind : Kind) :
    IsName (transcriptName stem kind) := by
  have heq : transcriptName stem kind = (stem ++ '_' :: suffix kind) ++ txt := by
    simp [transcriptName]
  rw [heq]
  refine isName_txt (unbroken_append h fun c hc => ?_) (by simp)
  rcases List.mem_cons.mp hc with rfl | hc
  · rfl
  · exact (suffix_plain kind).1 c hc

theorem transcriptName_inj {stem stem' : Text} {kind : Kind} :
    transcriptName stem kind = transcriptName stem' kind ↔ stem = stem' :=
  List.append_left_inj _

theorem length_transcriptName (stem : Text) (kind : Kind) :
    (transcriptName stem kind).length = stem.length + (transcriptName [] kind).length := by
  simp [transcriptName]

theorem two_lt_transcriptName (stem : Text) (kind : Kind) :
    2 < (transcriptName stem kind).length := by
  have := (suffix_plain kind).2.1
  simp only [transcriptName, List.length_append, List.length_cons]
  omega

/-! ## Stems -/

theorem rsplitDot_cases (name : Text) :
    '.' ∉ name ∧ rsplitDot name = none ∨
      ∃ before after, '.' ∉ after ∧ name = before ++ '.' :: after ∧
        rsplitDot name = some (before, after) := by
  have hnot : ∀ n : Text, '.' ∉ n → ∀ a ∈ n, decide (a ≠ '.') = true := fun n hn a ha => by
    simpa using fun he : a = '.' => hn (he ▸ ha)
  rcases last_piece '.' name with h | ⟨b, a, ha, rfl⟩
  · refine .inl ⟨h, ?_⟩
    rw [rsplitDot, List.rdropWhile_eq_nil_iff.mpr (hnot name h)]
  · refine .inr ⟨b, a, ha, rfl, ?_⟩
    rw [rsplitDot, rdropWhile_sep b (by simp) (hnot a ha), rtakeWhile_sep b (by simp) (hnot a ha)]
    cases hb : b ++ ['.'] with
    | nil => simp at hb
    | cons c r =>
      show some ((c :: r).dropLast, a) = some (b, a)
      rw [← hb, List.dropLast_concat]

/-- What the page takes for the stem of a name. -/
def pageStem (name : Text) : Text :=
  if dropExtension name = [] then "audio".toList else dropExtension name

theorem dropExtension_of_not_mem {name : Text} (h : Unbroken name) (hdot : '.' ∉ name) :
    dropExtension name = name := by
  have hall : ∀ c ∈ name, (c != '.' && !isSep c) = true := fun c hc => by
    have hne : c ≠ '.' := fun he => hdot (he ▸ hc)
    simp [hne, h c hc]
  simp [dropExtension, List.rdropWhile_eq_nil_iff.mpr hall]

theorem dropExtension_dot {before after : Text} (h : Unbroken after) (hdot : '.' ∉ after) :
    dropExtension (before ++ '.' :: after) =
      if after = [] then before ++ ['.'] else before := by
  have hall : ∀ c ∈ after, (c != '.' && !isSep c) = true := fun c hc => by
    have hne : c ≠ '.' := fun he => hdot (he ▸ hc)
    simp [hne, h c hc]
  rw [dropExtension, rdropWhile_sep before (by simp) hall]
  cases after <;> simp

section

variable {name : Text} (hname : IsName name)
include hname

/-- The two stems are the same exactly for a plain name. -/
theorem pageStem_eq_iff : pageStem name = stemOf name ↔ PlainStem name := by
  rcases rsplitDot_cases name with ⟨hdot, hsplit⟩ | ⟨b, a, ha, rfl, hsplit⟩
  · have hpage : pageStem name = name := by
      rw [pageStem, dropExtension_of_not_mem hname.unbroken hdot, if_neg hname.ne_nil]
    have hstem : stemOf name = name := by
      rw [stemOf, if_neg hname.ne_dots, hsplit]
    simp [hpage, hstem, PlainStem, hsplit]
  · have hua : Unbroken a := fun c hc => hname.unbroken c (by simp [hc])
    have hstem : stemOf (b ++ '.' :: a) = if b = [] then b ++ '.' :: a else b := by
      rw [stemOf, if_neg hname.ne_dots, hsplit]
    rw [pageStem, hstem, dropExtension_dot hua ha, PlainStem, hsplit]
    by_cases hb : b = []
    · by_cases hempty : a = []
      · exact absurd (by rw [hb, hempty]; rfl) hname.ne_dot
      · simp [hb, hempty]
    · by_cases hempty : a = []
      · simp [hb, hempty]
      · simp [hb, hempty]

theorem stemOf_ne_nil : stemOf name ≠ [] := by
  rw [stemOf, if_neg hname.ne_dots]
  split
  · exact hname.ne_nil
  · split
    · exact hname.ne_nil
    · assumption

/-- The stem of a name is the name or what stands before its last dot. -/
theorem stemOf_cases : stemOf name = name ∨ ∃ after, name = stemOf name ++ '.' :: after := by
  rw [stemOf, if_neg hname.ne_dots]
  rcases rsplitDot_cases name with ⟨-, hsplit⟩ | ⟨b, a, -, heq, hsplit⟩
  · rw [hsplit]
    exact .inl rfl
  · rw [hsplit]
    by_cases hb : b = []
    · exact .inl (by simp [hb])
    · exact .inr ⟨a, by simpa [hb] using heq⟩

theorem unbroken_stemOf : Unbroken (stemOf name) := by
  rcases stemOf_cases hname with h | ⟨a, h⟩
  · rw [h]
    exact hname.unbroken
  · exact fun c hc => hname.unbroken c (by rw [h]; simp [hc])

theorem parseDrive_stemOf : parseDrive (stemOf name) = parseDrive name := by
  rcases stemOf_cases hname with h | ⟨a, h⟩
  · rw [h]
  · conv_rhs => rw [h, parseDrive_append (stemOf_ne_nil hname) (by decide)]

/-- The transcript's name is one, -/
theorem isName_written (kind : Kind) : IsName (transcriptName (stemOf name) kind) :=
  isName_transcriptName (unbroken_stemOf hname) kind

/-- and begins with a drive if the audio file's does. -/
theorem parseDrive_written (kind : Kind) :
    parseDrive (transcriptName (stemOf name) kind) = parseDrive name := by
  rw [parseDrive_transcriptName (stemOf_ne_nil hname), parseDrive_stemOf hname]

theorem unbroken_pageStem : Unbroken (pageStem name) := by
  have hdrop : Unbroken (dropExtension name) := by
    rcases rsplitDot_cases name with ⟨hdot, -⟩ | ⟨b, a, ha, rfl, -⟩
    · rw [dropExtension_of_not_mem hname.unbroken hdot]
      exact hname.unbroken
    · rw [dropExtension_dot (fun c hc => hname.unbroken c (by simp [hc])) ha]
      split
      · exact fun c hc => hname.unbroken c (by
          rcases List.mem_append.mp hc with hc | hc
          · simp [hc]
          · rw [List.mem_singleton.mp hc]
            simp)
      · exact fun c hc => hname.unbroken c (by simp [hc])
  rw [pageStem]
  split
  · decide
  · exact hdrop

/-- Where they differ, the page's is not the shorter one, or the name begins with its dot. -/
theorem stem_length (h : parseDrive (stemOf name) ≠ none) :
    (stemOf name).length ≤ (pageStem name).length := by
  rcases rsplitDot_cases name with ⟨hdot, hsplit⟩ | ⟨b, a, ha, rfl, hsplit⟩
  · have hplain : PlainStem name := by rw [PlainStem, hsplit]; trivial
    rw [(pageStem_eq_iff hname).mpr hplain]
  · by_cases hb : b = []
    · refine absurd ?_ h
      rw [parseDrive_stemOf hname, hb]
      exact parseDrive_eq_none fun d rest he => by
        rw [← (List.cons.inj he).1]
        rfl
    · have hstem : stemOf (b ++ '.' :: a) = b := by
        rw [stemOf, if_neg hname.ne_dots, hsplit]
        simp [hb]
      have hpage : b <+: dropExtension (b ++ '.' :: a) := by
        rw [dropExtension_dot (fun c hc => hname.unbroken c (by simp [hc])) ha]
        split
        · exact List.prefix_append _ _
        · exact List.prefix_refl _
      have hne : dropExtension (b ++ '.' :: a) ≠ [] := fun he => by
        rw [he] at hpage
        exact hb (List.prefix_nil.mp hpage)
      rw [hstem, pageStem, if_neg hne]
      exact hpage.length_le

end

end Output
end LocalMeetingStt
