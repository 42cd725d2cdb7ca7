import LocalMeetingStt.Lib.Json
import LocalMeetingStt.Lib.Transition

/-!
# The settings (`app.js`, `persist` and `loadSettings`; `settings.rs`)

The page reads `settings.json` once, as it opens, and writes it a moment after each change.
Reader and writer are two lists of fields kept by hand. The reader checks every value and
falls back to the page's own where it does not know one; the writer starts from what was
read, so that what another version or the earlier shell wrote next to the page's keys is
not lost.

`Valid` is what the reader establishes and every user action keeps: each choice is one the
page offers, so the reader will accept it again. `Origin` follows the object that was read
through any number of writes. The theorem at the end puts the two together, and shows where
the writer forgets: of the six objects the page has keys in, it spreads only `live` and
`ui` into what it writes, and rebuilds the other four.

The page's numbers are the finite ones of JSON and one that stands for NaN and the
infinities, which `JSON.stringify` writes as `null`. What `serde_json` makes of the rest on the
way to the file and back is a parameter, `Transport`.
-/

namespace LocalMeetingStt
namespace Ui

open Js Transition

/-! ## Catalog -/

/-- A live mode, with the model it runs. -/
structure LiveMode where
  id : Str
  model : Str
deriving DecidableEq

/-- The live modes the page offers. -/
def liveModes : List LiveMode :=
  [⟨str "live-cpp-turbo-gpu", str "turbo"⟩, ⟨str "live-sensevoice-cpu", str "sensevoice"⟩,
    ⟨str "live-sensevoice-gpu", str "sensevoice"⟩]

/-- `isLanguage` -/
def languages : List Str := [str "auto", str "zh", str "yue", str "en", str "ja"]

/-- The scripts the page offers for Chinese. -/
def chineseScripts : List Str := [str "traditional", str "simplified"]

/-- `isLocale` -/
def locales : List Str := [str "zh-TW", str "en", str "ja"]

/-- The themes the page offers. -/
def themes : List Str := [str "system", str "light", str "dark"]

/-- The post models, each with its backends. -/
def postBackends : List (Str × List Str) :=
  [(str "small",
      [str "cpp-cpu", str "cpp-gpu", str "cpp-vulkan", str "cpp-npu", str "cpp-openvino-gpu"]),
    (str "turbo", [str "cpp-turbo-gpu"]),
    (str "sensevoice", [str "sensevoice-cpu", str "sensevoice-gpu"]),
    (str "qwen", [str "qwen-cpu", str "qwen-gpu"]),
    (str "qwen17", [str "qwen17-cpu", str "qwen17-gpu"])]

/-- `isPostKind` -/
def postKinds : List Str := (postBackends.map Prod.snd).flatten

/-- Switching models keeps the CPU/CUDA choice; Turbo runs on CUDA only. -/
def switchPostModel (current model : Str) : Str :=
  if model = str "turbo" then str "cpp-turbo-gpu"
  else
    let cuda := includes [str "cpp-gpu", str "cpp-turbo-gpu", str "sensevoice-gpu",
      str "qwen-gpu", str "qwen17-gpu"] current
    let pre := ([(str "small", str "cpp"), (str "sensevoice", str "sensevoice"),
      (str "qwen", str "qwen"), (str "qwen17", str "qwen17")].lookup model).getD (str "cpp")
    pre ++ str "-" ++ (if cuda then str "gpu" else str "cpu")

/-! ## The fields of `state` that are kept -/

/-- A number field of the page. -/
inductive Number where
  | finite (value : ℚ)
  | nonFinite

/-- What `JSON.stringify` writes for it. -/
def Number.toValue : Number → Value
  | finite value => .num value
  | nonFinite => .null

def Number.IsFinite (n : Number) : Prop := ∃ value, n = finite value

/-- `typeof v === "number"`, with the number. -/
def numberOf : Option Value → Option Number
  | some (.num value) => some (.finite value)
  | _ => none

/-- `typeof v === "boolean"`, with the switch. -/
def boolOf : Option Value → Option Bool
  | some (.bool b) => some b
  | _ => none

/-- `typeof v === "string"`, with the text. -/
def stringOf : Option Value → Option Str
  | some (.str s) => some s
  | _ => none

/-- `v === s` -/
def isStr (v : Option Value) (s : Str) : Bool := decide (stringOf v = some s)

/-- `state.qwen` -/
structure Qwen where
  chunkSeconds : Number := .finite 60
  tokens : Number := .finite 4096
  batch : Number := .finite 16
  context : Str := []

/-- The output folder and the devices are what the file had there, if anything. -/
structure Preferences where
  locale : Str := str "en"
  theme : Str := str "system"
  settingsLoaded : Bool := false
  saved : Fields := []
  liveModeId : Str := str "live-sensevoice-cpu"
  language : Str := str "auto"
  chineseScript : Str := str "traditional"
  saveWav : Bool := true
  systemDevice : Value := .str []
  micDevice : Value := .str []
  includeMic : Bool := false
  outputDir : Value := .str (str "outputs")
  postKind : Str := str "sensevoice-cpu"
  qwen : Qwen := {}

/-- The object `persist` writes. -/
def Preferences.settings (s : Preferences) : Fields :=
  s.saved
    |>.set "outputDir" s.outputDir
    |>.set "capture" (.obj [("systemDevice", s.systemDevice), ("micDevice", s.micDevice),
        ("includeMic", .bool s.includeMic)])
    |>.set "live" (.obj ((spread (s.saved.get "live")).set "mode" (.str s.liveModeId)
        |>.set "saveWav" (.bool s.saveWav)))
    |>.set "recognition" (.obj [("language", .str s.language),
        ("chineseScript", .str s.chineseScript)])
    |>.set "post" (.obj [("kind", .str s.postKind)])
    |>.set "qwen" (.obj [("chunkSeconds", s.qwen.chunkSeconds.toValue),
        ("tokens", s.qwen.tokens.toValue), ("batch", s.qwen.batch.toValue),
        ("context", .str s.qwen.context)])
    |>.set "ui" (.obj ((spread (s.saved.get "ui")).set "locale" (.str s.locale)
        |>.set "theme" (.str s.theme)))

/-- What is written, unless the settings have not been read. -/
def Preferences.persist (s : Preferences) : Option Fields :=
  if s.settingsLoaded then some s.settings else none

/-- No saved choice: transcribe with the live model where it can; an older CUDA Whisper
    live setup starts on Whisper small CUDA. -/
def postKindOf (settings : Fields) (postKind : Str) : Str :=
  let mode := member (settings.get "live") "mode"
  match oneOf postKinds (member (settings.get "post") "kind") with
  | some kind => kind
  | none =>
    if isStr mode (str "live-cpp-turbo-gpu") then str "cpp-turbo-gpu"
    else if isStr mode (str "live-sensevoice-gpu") then str "sensevoice-gpu"
    else if isStr mode (str "live-cpp-gpu") then str "cpp-gpu"
    else postKind

/-- `loadSettings` of a page, once it has the object. -/
def Preferences.loadSettings (settings : Fields) (s : Preferences) : Preferences :=
  let capture := settings.get "capture"
  let live := settings.get "live"
  let recognition := settings.get "recognition"
  let qwen := settings.get "qwen"
  { saved := settings
    locale := (oneOf locales (member (settings.get "ui") "locale")).getD s.locale
    theme := (oneOf themes (member (settings.get "ui") "theme")).getD s.theme
    postKind := postKindOf settings s.postKind
    systemDevice :=
      if capture.any Value.truthy then orElse (member capture "systemDevice") (.str [])
      else s.systemDevice
    micDevice :=
      if capture.any Value.truthy then orElse (member capture "micDevice") (.str [])
      else s.micDevice
    includeMic :=
      if capture.any Value.truthy then decide (boolOf (member capture "includeMic") = some true)
      else s.includeMic
    liveModeId := (oneOf (liveModes.map LiveMode.id) (member live "mode")).getD s.liveModeId
    saveWav := (boolOf (member live "saveWav")).getD s.saveWav
    language := (oneOf languages (member recognition "language")).getD s.language
    chineseScript :=
      (oneOf chineseScripts (member recognition "chineseScript")).getD s.chineseScript
    outputDir := orElse (settings.get "outputDir") s.outputDir
    qwen :=
      { chunkSeconds := (numberOf (member qwen "chunkSeconds")).getD s.qwen.chunkSeconds
        tokens := (numberOf (member qwen "tokens")).getD s.qwen.tokens
        batch := (numberOf (member qwen "batch")).getD s.qwen.batch
        context := (stringOf (member qwen "context")).getD s.qwen.context }
    settingsLoaded := true }

/-! ## The file (`settings.rs`) -/

/-- The text of a file, as far as `serde_json` can tell. -/
inductive File where
  | absent
  /-- The file system does not give it. -/
  | unreadable (error : String)
  | unparsable
  | holds (value : Value)

/-- `settings.json`, and the copy kept of one that could not be parsed. -/
structure Disk where
  path : String
  settings : File
  aside : File

/-- `default_settings` -/
def defaultSettings : Fields :=
  [("outputDir", .str (str "outputs")),
    ("qwen", .obj [("chunkSeconds", .num 60), ("tokens", .num 4096), ("batch", .num 16)]),
    ("ui", .obj [("locale", .str (str "en")), ("theme", .str (str "system"))])]

def Disk.write (d : Disk) (settings : Value) : Disk := { d with settings := .holds settings }

/-- `read`, with the file set aside by the extension its caller gives it. -/
def Disk.read (aside : String) (d : Disk) : Disk × Except String Fields :=
  match d.settings with
  | .absent => (d.write (.obj defaultSettings), .ok defaultSettings)
  | .unreadable error => (d, .error (d.path ++ ": " ++ error))
  | .holds (.obj fields) => (d, .ok fields)
  | other =>
    -- Keep the unreadable file aside before anything writes over it.
    ({ d with aside := other },
      .error (d.path ++ " could not be parsed; a copy was kept at " ++ aside))

/-- The way of an argument of `save_settings`: through `JSON.stringify` and `serde_json` into
    the file, and out of it to a page. `serde_json` sorts the members of an object and refuses
    what it cannot represent, a lone surrogate for one. -/
structure Transport where
  carry : Value → Except String Value

/-- `save_settings` -/
def Disk.saveSettings (transport : Transport) (d : Disk) (settings : Value) :
    Disk × Except String Unit :=
  match transport.carry settings with
  | .error error => (d, .error error)
  | .ok (.obj fields) => (d.write (.obj fields), .ok ())
  | .ok _ => (d, .error "Settings must be an object.")

/-- `loadSettings` with its `catch`: a page that is answered an error stays as it is. -/
def Preferences.load (aside : String) (d : Disk) (s : Preferences) : Preferences :=
  match (d.read aside).2 with
  | .ok settings => s.loadSettings settings
  | .error _ => s

/-! ## What the user does -/

/-- An action of the user, or the timer of `persist` coming up. A choice is one of those
    the page shows. -/
inductive Action (s : Preferences) : Preferences → Prop
  | outputDir (value : Str) : Action s { s with outputDir := .str value }
  | systemDevice (value : Str) : Action s { s with systemDevice := .str value }
  | micDevice (value : Str) : Action s { s with micDevice := .str value }
  | includeMic (checked : Bool) : Action s { s with includeMic := checked }
  | liveModel {model : Str} {mode : LiveMode}
      (found : liveModes.find? (·.model = model) = some mode) :
      Action s { s with liveModeId := mode.id }
  | liveBackend {mode : LiveMode} (shown : mode ∈ liveModes) :
      Action s { s with liveModeId := mode.id }
  | saveWav (checked : Bool) : Action s { s with saveWav := checked }
  | postModel {model : Str} (shown : model ∈ postBackends.map Prod.fst) :
      Action s { s with postKind := switchPostModel s.postKind model }
  | postBackend {kind : Str} (shown : kind ∈ postKinds) : Action s { s with postKind := kind }
  | chunkSeconds (value : Number) : Action s { s with qwen.chunkSeconds := value }
  | tokens (value : Number) : Action s { s with qwen.tokens := value }
  | batch (value : Number) : Action s { s with qwen.batch := value }
  | context (value : Str) : Action s { s with qwen.context := value }
  | language {value : Str} (shown : value ∈ languages) : Action s { s with language := value }
  | chineseScript {value : Str} (shown : value ∈ chineseScripts) :
      Action s { s with chineseScript := value }
  | theme {value : Str} (shown : value ∈ themes) : Action s { s with theme := value }
  | locale {value : Str} (shown : value ∈ locales) : Action s { s with locale := value }
  | save {settings : Fields} (written : s.persist = some settings) :
      Action s { s with saved := settings }

/-- The page that opens on `loaded`. -/
def opened (loaded : Fields) : System Preferences where
  init s := s = Preferences.loadSettings loaded {}
  next := Action

/-! ## The page's own keys -/

/-- The objects the page has keys in, with those keys. -/
def parts : List (String × List String) :=
  [("capture", ["systemDevice", "micDevice", "includeMic"]), ("live", ["mode", "saveWav"]),
    ("recognition", ["language", "chineseScript"]), ("post", ["kind"]),
    ("qwen", ["chunkSeconds", "tokens", "batch", "context"]), ("ui", ["locale", "theme"])]

/-- The keys of the top level that are the page's. -/
def owned : List String := "outputDir" :: parts.map Prod.fst

/-- The parts that are spread into what is written. -/
def spreadParts : List String := ["live", "ui"]

/-- What is not the page's is in `written` as it is in `loaded`: the other keys, and in each
    part the other sub-keys. -/
structure Keeps (loaded written : Fields) : Prop where
  keys : ∀ {key value}, key ∉ owned → loaded.get key = some value → written.get key = some value
  subkeys : ∀ {name names key value}, (name, names) ∈ parts → key ∉ names →
    member (loaded.get name) key = some value → member (written.get name) key = some value

/-- In the parts that are not spread there is nothing but the page's sub-keys. -/
def NothingForeign (loaded : Fields) : Prop :=
  ∀ {name names key}, (name, names) ∈ parts → name ∉ spreadParts → key ∉ names →
    member (loaded.get name) key = none

theorem settings_get_foreign (s : Preferences) {key : String} (h : key ∉ owned) :
    s.settings.get key = s.saved.get key := by
  simp only [owned, parts, List.map_cons, List.map_nil, List.mem_cons, List.not_mem_nil,
    or_false, not_or] at h
  obtain ⟨houtput, hcapture, hlive, hrecognition, hpost, hqwen, hui⟩ := h
  simp [Preferences.settings, Ne.symm houtput, Ne.symm hcapture, Ne.symm hlive,
    Ne.symm hrecognition, Ne.symm hpost, Ne.symm hqwen, Ne.symm hui]

theorem member_settings_spread (s : Preferences) {name key : String} {names : List String}
    (hpart : (name, names) ∈ parts) (hspread : name ∈ spreadParts) (hkey : key ∉ names) :
    member (s.settings.get name) key = member (s.saved.get name) key := by
  simp only [spreadParts, List.mem_cons, List.not_mem_nil, or_false] at hspread
  rcases hspread with rfl | rfl
  all_goals
    simp only [parts, List.mem_cons, List.not_mem_nil, or_false, Prod.mk.injEq] at hpart
    simp at hpart
    subst hpart
    simp only [List.mem_cons, List.not_mem_nil, or_false, not_or] at hkey
    simp [Preferences.settings, Ne.symm hkey.1, Ne.symm hkey.2]
    rfl

/-- A part that is rebuilt has the page's sub-keys only. -/
theorem member_settings_rebuilt (s : Preferences) {name key : String} {names : List String}
    (hpart : (name, names) ∈ parts) (hspread : name ∉ spreadParts) (hkey : key ∉ names) :
    member (s.settings.get name) key = none := by
  simp only [spreadParts, List.mem_cons, List.not_mem_nil, or_false, not_or] at hspread
  simp only [parts, List.mem_cons, List.not_mem_nil, or_false, Prod.mk.injEq] at hpart
  rcases hpart with ⟨rfl, rfl⟩ | ⟨rfl, -⟩ | ⟨rfl, rfl⟩ | ⟨rfl, rfl⟩ | ⟨rfl, rfl⟩ | ⟨rfl, -⟩
  · simp only [List.mem_cons, List.not_mem_nil, or_false, not_or] at hkey
    simp [Preferences.settings, Ne.symm hkey.1, Ne.symm hkey.2.1, Ne.symm hkey.2.2]
  · exact absurd rfl hspread.1
  · simp only [List.mem_cons, List.not_mem_nil, or_false, not_or] at hkey
    simp [Preferences.settings, Ne.symm hkey.1, Ne.symm hkey.2]
  · simp only [List.mem_cons, List.not_mem_nil, or_false] at hkey
    simp [Preferences.settings, Ne.symm hkey]
  · simp only [List.mem_cons, List.not_mem_nil, or_false, not_or] at hkey
    simp [Preferences.settings, Ne.symm hkey.1, Ne.symm hkey.2.1, Ne.symm hkey.2.2.1,
      Ne.symm hkey.2.2.2]
  · exact absurd rfl hspread.2

/-! ## What every page state has -/

/-- Each choice is one the reader accepts. -/
structure Valid (s : Preferences) : Prop where
  settingsLoaded : s.settingsLoaded = true
  outputDir : Settled s.outputDir
  systemDevice : Settled s.systemDevice
  micDevice : Settled s.micDevice
  liveModeId : s.liveModeId ∈ liveModes.map LiveMode.id
  language : s.language ∈ languages
  chineseScript : s.chineseScript ∈ chineseScripts
  postKind : s.postKind ∈ postKinds
  locale : s.locale ∈ locales
  theme : s.theme ∈ themes

/-- What the page keeps of the object it opened on. -/
structure Origin (loaded saved : Fields) : Prop where
  keys : ∀ {key}, key ∉ owned → saved.get key = loaded.get key
  subkeys : ∀ {name names key}, (name, names) ∈ parts → name ∈ spreadParts → key ∉ names →
    member (saved.get name) key = member (loaded.get name) key

theorem switchPostModel_mem (current : Str) {model : Str}
    (h : model ∈ postBackends.map Prod.fst) : switchPostModel current model ∈ postKinds := by
  unfold switchPostModel
  generalize includes _ current = cuda
  simp only [postBackends, List.map_cons, List.map_nil, List.mem_cons, List.not_mem_nil,
    or_false] at h
  rcases h with rfl | rfl | rfl | rfl | rfl <;> cases cuda <;> decide

theorem postKindOf_mem (settings : Fields) {postKind : Str} (h : postKind ∈ postKinds) :
    postKindOf settings postKind ∈ postKinds := by
  unfold postKindOf
  dsimp only
  split
  · next kind hkind => exact oneOf_mem hkind
  · split_ifs
    · decide
    · decide
    · decide
    · exact h

theorem settled_orElse_of {v : Option Value} {other : Value} (h : Settled other) :
    Settled (orElse v other) := by
  unfold orElse
  cases hv : v.filter Value.truthy with
  | none => exact h
  | some found => exact .inr (Option.filter_eq_some_iff.mp hv).2

theorem valid_loadSettings (settings : Fields) : Valid (Preferences.loadSettings settings {}) where
  settingsLoaded := rfl
  outputDir := settled_orElse_of (settled_str _)
  systemDevice := by
    simp only [Preferences.loadSettings]
    split_ifs
    · exact orElse_settled _
    · exact settled_str _
  micDevice := by
    simp only [Preferences.loadSettings]
    split_ifs
    · exact orElse_settled _
    · exact settled_str _
  liveModeId := getD_oneOf_mem (by decide) _
  language := getD_oneOf_mem (by decide) _
  chineseScript := getD_oneOf_mem (by decide) _
  postKind := postKindOf_mem settings (by decide)
  locale := getD_oneOf_mem (by decide) _
  theme := getD_oneOf_mem (by decide) _

theorem Valid.action {s s' : Preferences} (h : Valid s) (haction : Action s s') : Valid s' := by
  cases haction with
  | outputDir value => exact { h with outputDir := settled_str value }
  | systemDevice value => exact { h with systemDevice := settled_str value }
  | micDevice value => exact { h with micDevice := settled_str value }
  | liveModel found =>
    exact { h with liveModeId := List.mem_map_of_mem (List.mem_of_find?_eq_some found) }
  | liveBackend shown => exact { h with liveModeId := List.mem_map_of_mem shown }
  | postModel shown => exact { h with postKind := switchPostModel_mem s.postKind shown }
  | postBackend shown => exact { h with postKind := shown }
  | language shown => exact { h with language := shown }
  | chineseScript shown => exact { h with chineseScript := shown }
  | theme shown => exact { h with theme := shown }
  | locale shown => exact { h with locale := shown }
  | includeMic | saveWav | chunkSeconds | tokens | batch | context | save => exact { h with }

theorem Origin.settings {loaded : Fields} {s : Preferences} (h : Origin loaded s.saved) :
    Origin loaded s.settings where
  keys hkey := (settings_get_foreign s hkey).trans (h.keys hkey)
  subkeys hpart hspread hkey :=
    (member_settings_spread s hpart hspread hkey).trans (h.subkeys hpart hspread hkey)

theorem persist_eq {s : Preferences} {settings : Fields} (h : s.persist = some settings) :
    settings = s.settings := by
  unfold Preferences.persist at h
  split_ifs at h
  exact (Option.some.inj h).symm

theorem Origin.action {loaded : Fields} {s s' : Preferences} (h : Origin loaded s.saved)
    (haction : Action s s') : Origin loaded s'.saved := by
  cases haction with
  | save written => rw [persist_eq written]; exact h.settings
  | _ => exact h

theorem reachable_valid {loaded : Fields} {s : Preferences} (h : (opened loaded).Reachable s) :
    Valid s ∧ Origin loaded s.saved :=
  System.Inductive.reachable (I := fun s => Valid s ∧ Origin loaded s.saved)
    { start := by
        rintro s rfl
        exact ⟨valid_loadSettings loaded, ⟨fun _ => rfl, fun _ _ _ => rfl⟩⟩
      step := fun _ hI haction => ⟨hI.1.action haction, hI.2.action haction⟩ } h

/-! ## What a fresh page has again -/

/-- Every kept field of `s`, but an empty output folder, which opens as `outputs`. -/
structure Restores (s s' : Preferences) : Prop where
  outputDir : s'.outputDir = s.outputDir ∨
    s.outputDir = .str [] ∧ s'.outputDir = .str (str "outputs")
  systemDevice : s'.systemDevice = s.systemDevice
  micDevice : s'.micDevice = s.micDevice
  includeMic : s'.includeMic = s.includeMic
  liveModeId : s'.liveModeId = s.liveModeId
  saveWav : s'.saveWav = s.saveWav
  language : s'.language = s.language
  chineseScript : s'.chineseScript = s.chineseScript
  postKind : s'.postKind = s.postKind
  qwen : s'.qwen = s.qwen
  locale : s'.locale = s.locale
  theme : s'.theme = s.theme

structure Qwen.IsFinite (q : Qwen) : Prop where
  chunkSeconds : q.chunkSeconds.IsFinite
  tokens : q.tokens.IsFinite
  batch : q.batch.IsFinite

theorem Number.IsFinite.numberOf_toValue {n : Number} (h : n.IsFinite) :
    numberOf (some n.toValue) = some n := by
  obtain ⟨value, rfl⟩ := h
  rfl

section

variable (s : Preferences)

@[simp] theorem settings_get_outputDir : s.settings.get "outputDir" = some s.outputDir := by
  simp [Preferences.settings]

@[simp] theorem settings_get_capture : s.settings.get "capture" = some (.obj
    [("systemDevice", s.systemDevice), ("micDevice", s.micDevice),
      ("includeMic", .bool s.includeMic)]) := by
  simp [Preferences.settings]

@[simp] theorem settings_get_recognition : s.settings.get "recognition" = some (.obj
    [("language", .str s.language), ("chineseScript", .str s.chineseScript)]) := by
  simp [Preferences.settings]

@[simp] theorem settings_get_post :
    s.settings.get "post" = some (.obj [("kind", .str s.postKind)]) := by
  simp [Preferences.settings]

@[simp] theorem settings_get_qwen : s.settings.get "qwen" = some (.obj
    [("chunkSeconds", s.qwen.chunkSeconds.toValue), ("tokens", s.qwen.tokens.toValue),
      ("batch", s.qwen.batch.toValue), ("context", .str s.qwen.context)]) := by
  simp [Preferences.settings]

theorem settings_get_live : s.settings.get "live" = some (.obj
    ((spread (s.saved.get "live")).set "mode" (.str s.liveModeId)
      |>.set "saveWav" (.bool s.saveWav))) := by
  simp [Preferences.settings]

theorem settings_get_ui : s.settings.get "ui" = some (.obj
    ((spread (s.saved.get "ui")).set "locale" (.str s.locale) |>.set "theme" (.str s.theme))) := by
  simp [Preferences.settings]

@[simp] theorem member_settings_mode :
    member (s.settings.get "live") "mode" = some (.str s.liveModeId) := by
  simp [settings_get_live]

@[simp] theorem member_settings_saveWav :
    member (s.settings.get "live") "saveWav" = some (.bool s.saveWav) := by
  simp [settings_get_live]

@[simp] theorem member_settings_locale :
    member (s.settings.get "ui") "locale" = some (.str s.locale) := by
  simp [settings_get_ui]

@[simp] theorem member_settings_theme :
    member (s.settings.get "ui") "theme" = some (.str s.theme) := by
  simp [settings_get_ui]

end

/-- **A fresh page on what `persist` writes.** Each field is read where it was written, and
    the reader's check passes. -/
theorem Valid.restores {s : Preferences} (h : Valid s) (hfinite : s.qwen.IsFinite) :
    Restores s (Preferences.loadSettings s.settings {}) where
  outputDir := by
    simp only [Preferences.loadSettings, settings_get_outputDir]
    rcases h.outputDir with hempty | htrue
    · exact .inr ⟨hempty, by rw [hempty]; rfl⟩
    · exact .inl (by simp [orElse, Option.filter, htrue])
  systemDevice := by
    simpa [Preferences.loadSettings, Value.truthy] using h.systemDevice.orElse
  micDevice := by
    simpa [Preferences.loadSettings, Value.truthy] using h.micDevice.orElse
  includeMic := by simp [Preferences.loadSettings, Value.truthy, boolOf]
  liveModeId := by simp [Preferences.loadSettings, oneOf_str h.liveModeId]
  saveWav := by simp [Preferences.loadSettings, boolOf]
  language := by simp [Preferences.loadSettings, oneOf_str h.language]
  chineseScript := by simp [Preferences.loadSettings, oneOf_str h.chineseScript]
  postKind := by simp [Preferences.loadSettings, postKindOf, oneOf_str h.postKind]
  qwen := by
    simp [Preferences.loadSettings, hfinite.chunkSeconds.numberOf_toValue,
      hfinite.tokens.numberOf_toValue, hfinite.batch.numberOf_toValue, stringOf]
  locale := by simp [Preferences.loadSettings, oneOf_str h.locale]
  theme := by simp [Preferences.loadSettings, oneOf_str h.theme]

theorem Origin.keeps_iff {loaded : Fields} {s : Preferences} (h : Origin loaded s.saved) :
    Keeps loaded s.settings ↔ NothingForeign loaded := by
  constructor
  · intro hkeeps name names key hpart hspread hkey
    by_contra hsome
    obtain ⟨value, hvalue⟩ := Option.ne_none_iff_exists'.mp hsome
    have hwritten := hkeeps.subkeys hpart hkey hvalue
    rw [member_settings_rebuilt s hpart hspread hkey] at hwritten
    cases hwritten
  · intro hnothing
    refine ⟨fun hkey hvalue => (h.settings.keys hkey).trans hvalue, ?_⟩
    intro name names key value hpart hkey hvalue
    by_cases hspread : name ∈ spreadParts
    · exact (h.settings.subkeys hpart hspread hkey).trans hvalue
    · rw [hnothing hpart hspread hkey] at hvalue
      cases hvalue

/-! ## The way through the file -/

/-- The same settings: the page's objects have the same members, in any order, and everything
    else is the same. -/
structure SameMembers (f g : Fields) : Prop where
  values : ∀ key, key ∉ parts.map Prod.fst → g.get key = f.get key
  objects : ∀ name fields, name ∈ parts.map Prod.fst → f.get name = some (.obj fields) →
    ∃ fields', g.get name = some (.obj fields') ∧
      ∀ key, Fields.get fields' key = Fields.get fields key

/-- What is relied on: the settings come back as they were sent. -/
def Transport.Carries (transport : Transport) (settings : Fields) : Prop :=
  ∃ stored, transport.carry (.obj settings) = .ok (.obj stored) ∧ SameMembers settings stored

/-- The parts that `persist` writes are objects. -/
theorem settings_get_part (s : Preferences) {name : String} (h : name ∈ parts.map Prod.fst) :
    ∃ fields, s.settings.get name = some (.obj fields) := by
  simp only [parts, List.map_cons, List.map_nil, List.mem_cons, List.not_mem_nil, or_false] at h
  rcases h with rfl | rfl | rfl | rfl | rfl | rfl
  · exact ⟨_, settings_get_capture s⟩
  · exact ⟨_, settings_get_live s⟩
  · exact ⟨_, settings_get_recognition s⟩
  · exact ⟨_, settings_get_post s⟩
  · exact ⟨_, settings_get_qwen s⟩
  · exact ⟨_, settings_get_ui s⟩

theorem SameMembers.member {s : Preferences} {g : Fields} (h : SameMembers s.settings g)
    (name : String) (hname : name ∈ parts.map Prod.fst) (key : String) :
    member (g.get name) key = member (s.settings.get name) key := by
  obtain ⟨fields, hfields⟩ := settings_get_part s hname
  obtain ⟨fields', hfields', hsame⟩ := h.objects name fields hname hfields
  rw [hfields, hfields']
  exact hsame key

/-- The page reads the same from the same settings. -/
theorem SameMembers.loadSettings {s : Preferences} {g : Fields} (h : SameMembers s.settings g)
    (fresh : Preferences) :
    fresh.loadSettings g = { fresh.loadSettings s.settings with saved := g } := by
  have hcapture : (g.get "capture").any Value.truthy =
      (s.settings.get "capture").any Value.truthy := by
    obtain ⟨fields', hfields', -⟩ := h.objects "capture" _ (by decide) (settings_get_capture s)
    rw [hfields', settings_get_capture]
    rfl
  have hcapture' := h.member "capture" (by decide)
  have hlive := h.member "live" (by decide)
  have hrecognition := h.member "recognition" (by decide)
  have hpost := h.member "post" (by decide)
  have hqwen := h.member "qwen" (by decide)
  have hui := h.member "ui" (by decide)
  have houtput := h.values "outputDir" (by decide)
  simp only [Preferences.loadSettings, postKindOf, hcapture, hcapture', hlive, hrecognition,
    hpost, hqwen, hui, houtput]

/-- What does not look at the object the page was given. -/
theorem Restores.saved {s s' : Preferences} (h : Restores s s') (saved : Fields) :
    Restores s { s' with saved } :=
  { h with }

/-! ## The round trip -/

/-- What `persist` writes in the state `s` of a page that opened on `loaded`, saved to the
    disk and read by a fresh page, restores `s`, and keeps what is not the page's. -/
def Survives (transport : Transport) (aside : String) (d : Disk) (loaded : Fields)
    (s : Preferences) : Prop :=
  ∃ settings, s.persist = some settings ∧
    Restores s (({} : Preferences).load aside (d.saveSettings transport (.obj settings)).1) ∧
    Keeps loaded settings

/-- **Everything survives exactly where the rebuilt parts held nothing foreign.** In every
    state the user can bring the page to, the fields come back, if `serde_json` brings back
    what it was given; a sub-key that is not the page's is lost if it stands in `capture`,
    `recognition`, `post` or `qwen`, and only there. -/
theorem survives_iff (transport : Transport) (aside : String) (d : Disk) {loaded : Fields}
    {s : Preferences} (h : (opened loaded).Reachable s) (hfinite : s.qwen.IsFinite)
    (hcarries : transport.Carries s.settings) :
    Survives transport aside d loaded s ↔ NothingForeign loaded := by
  obtain ⟨hvalid, horigin⟩ := reachable_valid h
  have hpersist : s.persist = some s.settings := if_pos hvalid.settingsLoaded
  obtain ⟨stored, hcarry, hsame⟩ := hcarries
  rw [← horigin.keeps_iff]
  constructor
  · rintro ⟨settings, hwritten, -, hkeeps⟩
    rw [persist_eq hwritten] at hkeeps
    exact hkeeps
  · intro hkeeps
    refine ⟨s.settings, hpersist, ?_, hkeeps⟩
    have hload : ({} : Preferences).load aside (d.saveSettings transport (.obj s.settings)).1 =
        ({} : Preferences).loadSettings stored := by
      simp [Preferences.load, Disk.saveSettings, hcarry, Disk.read, Disk.write]
    rw [hload, hsame.loadSettings]
    exact (hvalid.restores hfinite).saved stored

/-! ## Objects that come back sorted -/

/-- A member put before the first that does not come before it. -/
def insertMember (name : String) (value : Value) : Fields → Fields
  | [] => [(name, value)]
  | (other, old) :: rest =>
    if other < name then (other, old) :: insertMember name value rest
    else (name, value) :: (other, old) :: rest

mutual

/-- The members of every object in the order of their names. -/
def sorted : Value → Value
  | .arr items => .arr (sortedItems items)
  | .obj fields => .obj (sortedFields fields)
  | v => v

def sortedItems : List Value → List Value
  | [] => []
  | v :: rest => sorted v :: sortedItems rest

def sortedFields : List (String × Value) → List (String × Value)
  | [] => []
  | (name, v) :: rest => insertMember name (sorted v) (sortedFields rest)

end

/-- `serde_json`, with strings and numbers that it takes as they are. -/
def sorting : Transport where
  carry v := .ok (sorted v)

theorem get_insertMember (name key : String) (value : Value) (f : Fields) :
    (insertMember name value f).get key = if name = key then some value else f.get key := by
  induction f with
  | nil => rfl
  | cons entry rest ih =>
    obtain ⟨other, old⟩ := entry
    unfold insertMember
    by_cases hlt : other < name
    · rw [if_pos hlt, Fields.get_cons, ih, Fields.get_cons]
      by_cases hkey : other = key
      · subst hkey
        have hne : name ≠ other := by
          rintro rfl
          exact String.lt_irrefl _ hlt
        simp [hne]
      · simp [hkey]
    · rw [if_neg hlt, Fields.get_cons]

theorem get_sortedFields (f : Fields) (key : String) :
    Fields.get (sortedFields f) key = (f.get key).map sorted := by
  induction f with
  | nil => rfl
  | cons entry rest ih =>
    obtain ⟨name, value⟩ := entry
    rw [sortedFields, get_insertMember, ih, Fields.get_cons]
    split_ifs <;> rfl

/-- Neither an array nor an object. -/
def isPlain : Value → Bool
  | .arr _ | .obj _ => false
  | _ => true

/-- The only objects are the page's, and nothing is nested in them. -/
def isShallow : String × Value → Bool
  | (name, .obj fields) => decide (name ∈ parts.map Prod.fst) && fields.all (isPlain ·.2)
  | (_, v) => isPlain v

theorem sorted_plain {v : Value} (h : isPlain v = true) : sorted v = v := by
  cases v with
  | arr | obj => cases h
  | _ => rfl

theorem get_mem {f : Fields} {key : String} {value : Value} (h : f.get key = some value) :
    (key, value) ∈ f := by
  induction f with
  | nil => cases h
  | cons entry rest ih =>
    obtain ⟨name, other⟩ := entry
    rw [Fields.get_cons] at h
    split_ifs at h with hname
    · cases h
      rw [hname]
      exact List.mem_cons_self
    · exact List.mem_cons_of_mem _ (ih h)

theorem sorting_carries {settings : Fields} (h : settings.all isShallow = true) :
    sorting.Carries settings := by
  rw [List.all_eq_true] at h
  refine ⟨sortedFields settings, rfl, fun key hkey => ?_, fun name fields _ hfields => ?_⟩
  · rw [get_sortedFields]
    cases hget : settings.get key with
    | none => rfl
    | some value =>
      have hshallow := h _ (get_mem hget)
      cases value with
      | obj fields =>
        rw [isShallow, Bool.and_eq_true, decide_eq_true_iff] at hshallow
        exact absurd hshallow.1 hkey
      | arr items => cases hshallow
      | _ => rfl
  · refine ⟨sortedFields fields, by rw [get_sortedFields, hfields]; rfl, fun key => ?_⟩
    have hshallow := h _ (get_mem hfields)
    rw [isShallow, Bool.and_eq_true, List.all_eq_true] at hshallow
    rw [get_sortedFields]
    cases hget : Fields.get fields key with
    | none => rfl
    | some value => exact congrArg some (sorted_plain (hshallow.2 _ (get_mem hget)))

/-- Settings of another version: a key of its own, and a sub-key in `live` and in `ui`. -/
def withForeign : Fields :=
  [("live", .obj [("mode", .str (str "live-sensevoice-gpu")), ("preview", .bool true)]),
    ("ui", .obj [("locale", .str (str "ja")), ("zoom", .num 2)]), ("version", .num 3)]

/-- The page that opened on them has saved a theme, and a chunk length is being changed. -/
def afterChanges : Preferences :=
  let opened := Preferences.loadSettings withForeign {}
  let themed := { opened with theme := str "dark" }
  { themed with saved := themed.settings, qwen.chunkSeconds := .finite 90 }

theorem afterChanges_reachable : (opened withForeign).Reachable afterChanges := by
  have hopened := System.Reachable.start (S := opened withForeign) rfl
  have hdark : str "dark" ∈ themes := by decide
  have hthemed := hopened.next (.theme hdark)
  have hsaved := hthemed.next (.save rfl)
  exact hsaved.next (.chunkSeconds (.finite 90))

theorem withForeign_nothingForeign : NothingForeign withForeign := by
  intro name names key hpart hspread hkey
  simp only [parts, List.mem_cons, List.not_mem_nil, or_false, Prod.mk.injEq] at hpart
  rcases hpart with ⟨rfl, -⟩ | ⟨rfl, -⟩ | ⟨rfl, -⟩ | ⟨rfl, -⟩ | ⟨rfl, -⟩ | ⟨rfl, -⟩
  · rfl
  · exact absurd (by decide) hspread
  · rfl
  · rfl
  · rfl
  · exact absurd (by decide) hspread

theorem survives_iff_afterChanges :
    Survives sorting "settings.json.unreadable" ⟨"settings.json", .absent, .absent⟩ withForeign
      afterChanges :=
  (survives_iff _ _ _ afterChanges_reachable ⟨⟨90, rfl⟩, ⟨4096, rfl⟩, ⟨16, rfl⟩⟩
    (sorting_carries rfl)).mpr withForeign_nothingForeign

/-- Settings with a sub-key of another version in `capture`. -/
def withGain : Fields := [("capture", .obj [("gain", .num 2)])]

/-- **A sub-key in `capture` does not survive**, however the file comes back. -/
theorem gain_does_not_survive : ¬∀ (transport : Transport) (aside : String) (d : Disk)
    (loaded : Fields) (s : Preferences), (opened loaded).Reachable s → s.qwen.IsFinite →
      transport.Carries s.settings → Survives transport aside d loaded s := by
  intro hclaim
  have hfinite : (Preferences.loadSettings withGain {}).qwen.IsFinite :=
    ⟨⟨60, rfl⟩, ⟨4096, rfl⟩, ⟨16, rfl⟩⟩
  have hcarried : sorting.Carries (Preferences.loadSettings withGain {}).settings :=
    sorting_carries rfl
  obtain ⟨settings, hwritten, -, hkeeps⟩ := hclaim sorting "" ⟨"", .absent, .absent⟩ withGain
    (Preferences.loadSettings withGain {}) (.start rfl) hfinite hcarried
  have hpart : ("capture", ["systemDevice", "micDevice", "includeMic"]) ∈ parts := by decide
  have hgain : member (settings.get "capture") "gain" = some (.num 2) :=
    hkeeps.subkeys hpart (by decide) rfl
  rw [persist_eq hwritten, settings_get_capture] at hgain
  simp at hgain

end Ui
end LocalMeetingStt
