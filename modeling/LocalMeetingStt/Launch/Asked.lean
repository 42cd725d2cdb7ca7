import LocalMeetingStt.Launch.Scripts
import Mathlib.Algebra.Ring.Int.Defs

/-!
# What the scripts are asked for

The settings of each job, from the arguments of the page alone: without options, launchers
and command lines (`Job.settings`), and what the reader at the other end has to make of them
(`Job.Taken`). Numbers travel as texts that Rust writes and Python reads; `Documented` is
what their documentation says about these.
-/

namespace LocalMeetingStt
namespace Launch

open Argparse Argparse.Parser WinPath
open Jobs (CommandSpec)

/-! ## The texts of numbers -/

/-- What the documentation of Rust and of Python says about these texts. -/
class Documented (F : Type) [Doubles F] : Prop where
  isDecimal_ascii (c : Char) (h : c.toNat < 128) : Doubles.isDecimal F c = c.isDigit
  whole_range (x : F) (n : Int) (h : Doubles.whole x = some n) : -2 ^ 63 ≤ n ∧ n < 2 ^ 63
  float_int (n : Int) (hlo : -2 ^ 63 ≤ n) (hhi : n < 2 ^ 63) :
    Doubles.float (toString n).toList = some (Doubles.literal n : F)
  int_int (n : Int) (hlo : -2 ^ 63 ≤ n) (hhi : n < 2 ^ 63) :
    Doubles.int F (toString n).toList = some n
  /-- `Display` writes no exponent. -/
  display_eq (x : F) (h : Doubles.isFinite x = true) (hwhole : Doubles.whole x = none) :
    ∃ sign units fraction, Doubles.display x = sign ++ units ++ '.' :: fraction ∧
      (sign = [] ∨ sign = ['-']) ∧ units ≠ [] ∧ fraction ≠ [] ∧
      ∀ c ∈ units ++ fraction, c.isDigit = true
  float_display (x : F) (h : Doubles.isFinite x = true) (hwhole : Doubles.whole x = none) :
    Doubles.float (Doubles.display x) = some x
  int_display (x : F) (h : Doubles.isFinite x = true) (hwhole : Doubles.whole x = none) :
    Doubles.int F (Doubles.display x) = none

section

variable {F : Type} [Doubles F] (args : Args F)

/-- A finite number among the arguments. -/
def numeric (key : String) : Option F :=
  match get args key with
  | some (.number x) => if Doubles.isFinite x then some x else none
  | _ => none

theorem number_eq (key : String) : number args key = (numeric args key).map numberText := by
  unfold number numeric
  cases get args key with
  | none => rfl
  | some value =>
    cases value with
    | number x => cases hx : Doubles.isFinite x <;> simp [hx]
    | null | bool | string | composite => rfl

theorem isFinite_of_numeric {key : String} {x : F} (h : numeric args key = some x) :
    Doubles.isFinite x = true := by
  unfold numeric at h
  split at h
  · split at h
    · cases h
      assumption
    · cases h
  · cases h

/-- A number as it is read from its text; what is whole is cut to 64 bits on the way. -/
def reread (x : F) : F :=
  match Doubles.whole x with
  | some n => Doubles.literal n
  | none => x

theorem float_numberText [Documented F] {x : F} (h : Doubles.isFinite x = true) :
    Doubles.float (numberText x) = some (reread x) := by
  unfold numberText reread
  cases hwhole : Doubles.whole x with
  | some n =>
    obtain ⟨hlo, hhi⟩ := Documented.whole_range x n hwhole
    exact Documented.float_int n hlo hhi
  | none => exact Documented.float_display x h hwhole

theorem int_numberText [Documented F] {x : F} (h : Doubles.isFinite x = true) :
    Doubles.int F (numberText x) = Doubles.whole x := by
  unfold numberText
  cases hwhole : Doubles.whole x with
  | some n =>
    obtain ⟨hlo, hhi⟩ := Documented.whole_range x n hwhole
    exact Documented.int_int n hlo hhi
  | none => exact Documented.int_display x h hwhole

/-- A sign or none, and digits with a point among them or none. -/
theorem exists_numberText [Documented F] {x : F} (h : Doubles.isFinite x = true) :
    ∃ sign digits rest, numberText x = sign ++ digits ++ rest ∧ (sign = [] ∨ sign = ['-']) ∧
      digits ≠ [] ∧ (∀ c ∈ digits, c.isDigit = true) ∧
      (rest = [] ∨ ∃ fraction, rest = '.' :: fraction ∧ fraction ≠ [] ∧
        ∀ c ∈ fraction, c.isDigit = true) := by
  unfold numberText
  cases hwhole : Doubles.whole x with
  | some n =>
    have hdigit : ∀ (m : Nat), ∀ c ∈ Nat.toDigits 10 m, c.isDigit = true := by
      intro m c hc
      exact Nat.isDigit_of_mem_toDigits (by decide) (by decide) hc
    cases n with
    | ofNat m =>
      refine ⟨[], Nat.toDigits 10 m, [], ?_, Or.inl rfl, Nat.toDigits_ne_nil, hdigit m,
        Or.inl rfl⟩
      simp [Int.toString_eq_repr, Int.repr, Nat.toList_repr]
    | negSucc m =>
      refine ⟨['-'], Nat.toDigits 10 (m + 1), [], ?_, Or.inr rfl, Nat.toDigits_ne_nil,
        hdigit (m + 1), Or.inl rfl⟩
      simp [Int.toString_eq_repr, Int.repr, Nat.toList_repr]
  | none =>
    obtain ⟨sign, units, fraction, htext, hsign, hunits, hfraction, hdigit⟩ :=
      Documented.display_eq x h hwhole
    refine ⟨sign, units, '.' :: fraction, htext, hsign, hunits, ?_, Or.inr
      ⟨fraction, rfl, hfraction, ?_⟩⟩
    · exact fun c hc => hdigit c (List.mem_append_left _ hc)
    · exact fun c hc => hdigit c (List.mem_append_right _ hc)

variable {p : Parser Dest (Value F)}

/-- So it is never taken for an option. -/
theorem isArgument_numberText [Documented F] (hdigit : p.digit = Doubles.isDecimal F)
    (hworded : p.Worded) {x : F} (h : Doubles.isFinite x = true) :
    p.IsArgument (numberText x) := by
  obtain ⟨sign, digits, rest, htext, hsign, hne, hdigits, hrest⟩ := exists_numberText h
  obtain ⟨d, digits, rfl⟩ := List.exists_cons_of_ne_nil hne
  have hascii : ∀ c : Char, c.isDigit = true → p.digit c = true := by
    intro c hc
    have hlt : c.toNat < 128 := by
      simp only [Char.isDigit, Bool.and_eq_true, decide_eq_true_eq] at hc
      have := hc.2
      exact Nat.lt_of_le_of_lt (UInt32.le_iff_toNat_le.mp this) (by decide)
    rw [hdigit, Documented.isDecimal_ascii c hlt, hc]
  have hother : ∀ c : Char, c.toNat < 128 → c.isDigit = false → p.digit c = false := by
    intro c hlt hc
    rw [hdigit, Documented.isDecimal_ascii c hlt, hc]
  have hd := hdigits d List.mem_cons_self
  rcases hsign with rfl | rfl
  · refine p.isArgument_of_head ?_
    rw [htext]
    intro heq
    rw [Option.some.inj heq] at hd
    exact absurd hd (by decide)
  · have hdigit' : ∀ c ∈ d :: digits, p.digit c = true := fun c hc => hascii c (hdigits c hc)
    have hrest' : rest = [] ∨ ∃ fraction, rest = '.' :: fraction ∧ fraction ≠ [] ∧
        ∀ c ∈ fraction, p.digit c = true := by
      refine hrest.imp_right fun ⟨fraction, heq, hne, hfraction⟩ => ⟨fraction, heq, hne, ?_⟩
      exact fun c hc => hascii c (hfraction c hc)
    have hnumber := p.isNegativeNumber_digits (hother '.' (by decide) (by decide))
      (hother '\n' (by decide) (by decide)) (List.cons_ne_nil d digits) hdigit' hrest'
    have hequals : '=' ∉ '-' :: d :: (digits ++ rest) := by
      intro hmem
      rcases List.mem_cons.mp hmem with heq | hmem
      · cases heq
      rcases List.mem_append.mp (show '=' ∈ (d :: digits) ++ rest from hmem) with hmem | hmem
      · exact absurd (hdigits '=' hmem) (by decide)
      · obtain rfl | ⟨fraction, rfl, -, hfraction⟩ := hrest
        · cases hmem
        · rcases List.mem_cons.mp hmem with heq | hmem
          · cases heq
          · exact absurd (hfraction '=' hmem) (by decide)
    rw [htext]
    exact hworded.isArgument (hother '-' (by decide) (by decide)) (hascii d hd) hnumber hequals

theorem worded [Documented F] (hdigit : p.digit = Doubles.isDecimal F)
    (h : (p.spellings.all fun s =>
      match s.1 with
      | '-' :: c :: _ => !c.isDigit && c != '.' && decide (c.toNat < 128)
      | _ => false) = true) : p.Worded := by
  intro s hs
  have hs' := List.all_eq_true.mp h s hs
  split at hs'
  · rename_i c rest hflag
    simp only [Bool.and_eq_true, Bool.not_eq_true', bne_iff_ne, ne_eq, decide_eq_true_eq] at hs'
    obtain ⟨⟨hc, hpoint⟩, hlt⟩ := hs'
    exact ⟨c, rest, hflag, by rw [hdigit, Documented.isDecimal_ascii c hlt, hc], hpoint⟩
  · cases hs'

/-! ## What is asked for -/

variable (host : Host) (paths : AppPaths)

/-- The folder a job writes to. -/
def outputDir : Path :=
  Output.resolveOutputDir paths.toAppPaths ((text args "outputDir").getD [])

/-- The folder of a recording, and of captions without one. -/
def sessionDir (pre : String) : Path :=
  push (outputDir args paths) (pre.toList ++ '_' :: host.stamp)

/-- A number with a default, for an option that takes a `float`. -/
def floatOf (key : String) (default : Int) : F :=
  ((numeric args key).map reread).getD (Doubles.literal default)

/-- The same for an option that takes an `int`. -/
def intOf (key : String) (default : Int) : Int :=
  match numeric args key with
  | some x => (Doubles.whole x).getD 0
  | none => default

/-- The number under a key, if there is one, is a whole one. -/
def IsWhole (key : String) : Prop :=
  ∀ x, numeric args key = some x → (Doubles.whole x).isSome = true

/-- The preview interval, if the page sends one. -/
def previewSettings : List (Dest × Value F) :=
  ((numeric args "previewSeconds").map fun x =>
    (Dest.previewSeconds, Value.float (reread x))).toList

/-- The devices of a capture. -/
def deviceSettings : List (Dest × Value F) :=
  ((text args "systemDevice").map fun device => (Dest.systemDevice, Value.text device)).toList ++
  if boolean args "includeMic" = some true then
    (.includeMic, .flag true) ::
      ((text args "micDevice").map fun device => (Dest.micDevice, Value.text device)).toList
  else []

/-- The language and the Chinese script. -/
def recognitionSettings : List (Dest × Value F) :=
  [(.language, .text (language args)), (.chineseScript, .text (chineseScript args))]

/-- What a live SenseVoice job asks for. -/
def liveSensevoiceSettings (gpu : Bool) : List (Dest × Value F) :=
  [(.engine, path "sensevoice")] ++
  (if gpu then [(.provider, path "cuda")] else []) ++
  [(.streaming, .flag true)] ++
  (if (boolean args "saveWav").getD true then
    [(.saveRecording, .flag true), (.recordingDir, .text (outputDir args paths)),
      (.sessionPrefix, path "sensevoice_live")]
  else
    [(.output, .text (push (sessionDir args host paths "sensevoice_text")
      "live_transcript.txt".toList))]) ++
  [(.sensevoiceModel, .text (sensevoiceModel paths gpu))] ++
  previewSettings args ++ deviceSettings args ++ recognitionSettings args

/-- What the live Turbo job asks for. -/
def liveCppTurboGpuSettings : List (Dest × Value F) :=
  [(.server, .flag true), (.streaming, .flag true), (.saveRecording, .flag true),
    (.beamSize, .int 1), (.bestOf, .int 1), (.recordingDir, .text (outputDir args paths)),
    (.model, path "models/ggml-large-v3-turbo.bin"), (.sessionPrefix, path "cpp_turbo_live")] ++
  previewSettings args ++ deviceSettings args ++ recognitionSettings args

/-- A recording: until a time is over, or until it is stopped. -/
def recordSettings (timed : Bool) : List (Dest × Value F) :=
  [if timed then (.duration, .float (floatOf args "durationSeconds" 3600))
    else (.untilEnter, .flag true),
    (.output, .text (push (sessionDir args host paths "meeting") "audio.wav".toList))] ++
  deviceSettings args

/-- The file to be transcribed. -/
def audioPath : Text := (text args "audioPath").getD []

/-- The file its transcript is written to. -/
def transcriptPath (kind : Output.Kind) : Path :=
  Output.transcriptOutputPath (audioPath args) (outputDir args paths) (Output.suffix kind)

/-- What a SenseVoice transcription asks for. -/
def postSensevoiceSettings (kind : Output.Kind) (gpu : Bool) : List (Dest × Value F) :=
  (if gpu then [(.provider, path "cuda")] else []) ++
  [(.audio, .text (audioPath args)), (.output, .text (transcriptPath args paths kind)),
    (.model, .text (sensevoiceModel paths gpu))] ++ recognitionSettings args

/-- What a Qwen transcription asks for. -/
def postQwenSettings (kind : Output.Kind) (large gpu : Bool) : List (Dest × Value F) :=
  [(.audio, .text (audioPath args)), (.output, .text (transcriptPath args paths kind)),
    (.device, path (if gpu then "cuda:0" else "cpu")),
    (.language, .text (qwenLanguage (language args))), (.model, .text (qwenModel paths large)),
    (.maxNewTokens, .int (intOf args "qwenTokens" 4096)),
    (.chunkSeconds, .float (floatOf args "chunkSeconds" 60)),
    (.batchSize, .int (intOf args "qwenBatch" 16)),
    (.chineseScript, .text (chineseScript args))] ++
  ((qwenContext args).map fun context => (Dest.context, Value.text context)).toList

/-- The script of a job, if it is one of those in Python. -/
def Job.script : Job → Option Script
  | .liveSensevoice _ => some .liveTranscribe
  | .liveCppTurboGpu => some .liveCpp
  | .recordEnter | .recordTimed => some .recordAudio
  | .post .sensevoiceCpu | .post .sensevoiceGpu => some .postTranscribeSensevoice
  | .post .qwenCpu | .post .qwenGpu | .post .qwen17Cpu | .post .qwen17Gpu =>
    some .postTranscribeQwen
  | .post _ => none

/-- What each job asks for. -/
def Job.settings : Job → List (Dest × Value F)
  | .liveSensevoice gpu => liveSensevoiceSettings args host paths gpu
  | .liveCppTurboGpu => liveCppTurboGpuSettings args paths
  | .recordEnter => recordSettings args host paths false
  | .recordTimed => recordSettings args host paths true
  | .post .sensevoiceCpu => postSensevoiceSettings args paths .sensevoiceCpu false
  | .post .sensevoiceGpu => postSensevoiceSettings args paths .sensevoiceGpu true
  | .post .qwenCpu => postQwenSettings args paths .qwenCpu false false
  | .post .qwenGpu => postQwenSettings args paths .qwenGpu false true
  | .post .qwen17Cpu => postQwenSettings args paths .qwen17Cpu true false
  | .post .qwen17Gpu => postQwenSettings args paths .qwen17Gpu true true
  | .post _ => []

variable (p)

/-- The reader takes it as it is written: a text that is no option, a count that is whole. -/
def Fits : Dest × Value F → Prop
  | (_, .text word) => p.IsArgument word
  | (.maxNewTokens, _) => IsWhole args "qwenTokens"
  | (.batchSize, _) => IsWhole args "qwenBatch"
  | _ => True

/-- The script takes everything that is asked for. A recording has no previews, and its
    script no option for them. -/
def Job.Taken (job : Job) : Prop :=
  (∀ entry ∈ job.settings args host paths, Fits args p entry) ∧
    (job = .recordEnter ∨ job = .recordTimed → numeric args "previewSeconds" = none)

end

end Launch
end LocalMeetingStt
