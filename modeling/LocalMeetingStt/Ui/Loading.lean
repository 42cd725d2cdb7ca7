import LocalMeetingStt.Ui.Settings

/-!
# What the page opens with (`app.js`, `loadSettings`)

`settings.json` may hold any object. Most members are looked up in their catalog or asked
for their type, and one that is neither is as good as absent. The output folder and the two
devices are only asked whether they are *there*: a number or an object is, the page keeps
it, and the next `trim` raises.

`Opens` is what the page needs of any object: every field in its domain, every ill-typed
member as good as absent, and the two functions that trim able to. `opens_iff` says that
the three members without a type test are all that stands in its way, once `serde_json` has
parsed the file. It refuses some texts that are JSON (a number past the largest double, half a
surrogate pair, nesting over 128), and a page that is told so opens without settings.
-/

namespace LocalMeetingStt
namespace Ui

open Js

/-! ## The domains -/

/-- `typeof v === "string"` -/
def IsString (v : Value) : Prop := ∃ s, v = .str s

/-- A folder that was chosen; an empty text chooses none. -/
def IsFolder (v : Value) : Prop := ∃ s, s ≠ [] ∧ v = .str s

/-- `typeof v === "boolean"` -/
def IsBoolean (v : Value) : Prop := ∃ b, v = .bool b

/-- `typeof v === "number"` -/
def IsNumber (v : Value) : Prop := ∃ n, v = .num n

/-- One of the texts of a catalog. -/
def IsMember (catalog : List Str) (v : Value) : Prop := ∃ s ∈ catalog, v = .str s

/-- A field has the member if that is in the domain, and the default otherwise. -/
def FallsBack (domain : Value → Prop) (member : Option Value) (field default : Value) : Prop :=
  (member = some field ∧ domain field) ∨
    ((∀ v, member = some v → ¬domain v) ∧ field = default)

/-- The kind a live mode stands for where none is saved. -/
def impliedPostKind (mode : Option Value) : Str :=
  if isStr mode (str "live-cpp-turbo-gpu") then str "cpp-turbo-gpu"
  else if isStr mode (str "live-sensevoice-gpu") then str "sensevoice-gpu"
  else if isStr mode (str "live-cpp-gpu") then str "cpp-gpu"
  else str "sensevoice-cpu"

/-! ## Later uses -/

/-- `state.outputDir.trim() || "outputs"` -/
def outputDirSetting (s : Preferences) : Option Str := do
  let dir ← s.outputDir.trim
  return if dir = [] then str "outputs" else dir

/-- What a capture job is given of the devices. -/
structure CaptureSettings where
  systemDevice : Str
  includeMic : Bool
  micDevice : Str

/-- `captureSettings`, where no `trim` raises. -/
def captureSettings (s : Preferences) : Option CaptureSettings := do
  let systemDevice ← s.systemDevice.trim
  let micDevice ← s.micDevice.trim
  return { systemDevice, includeMic := s.includeMic, micDevice }

theorem trim_isSome_iff (v : Value) : v.trim.isSome = true ↔ IsString v := by
  cases v <;> simp [Value.trim, IsString]

theorem outputDirSetting_isSome_iff (s : Preferences) :
    (outputDirSetting s).isSome = true ↔ IsString s.outputDir := by
  rw [← trim_isSome_iff, outputDirSetting]
  cases s.outputDir.trim <;> simp

theorem captureSettings_isSome_iff (s : Preferences) :
    (captureSettings s).isSome = true ↔ IsString s.systemDevice ∧ IsString s.micDevice := by
  rw [← trim_isSome_iff, ← trim_isSome_iff, captureSettings]
  cases s.systemDevice.trim <;> cases s.micDevice.trim <;> simp

/-! ## What the page needs -/

/-- The file is a JSON text of `object`, which `serde_json` parses or refuses. -/
def File.IsText (object : Fields) (f : File) : Prop :=
  f = .holds (.obj object) ∨ f = .unparsable

/-- The page that opened on `settings` can be used. -/
structure Opens (settings : Fields) (s : Preferences) : Prop where
  settingsLoaded : s.settingsLoaded = true
  outputDir : FallsBack IsFolder (settings.get "outputDir") s.outputDir (.str (str "outputs"))
  systemDevice :
    FallsBack IsString (member (settings.get "capture") "systemDevice") s.systemDevice (.str [])
  micDevice :
    FallsBack IsString (member (settings.get "capture") "micDevice") s.micDevice (.str [])
  includeMic : FallsBack IsBoolean (member (settings.get "capture") "includeMic")
    (.bool s.includeMic) (.bool false)
  saveWav : FallsBack IsBoolean (member (settings.get "live") "saveWav")
    (.bool s.saveWav) (.bool true)
  liveModeId : FallsBack (IsMember (liveModes.map LiveMode.id))
    (member (settings.get "live") "mode") (.str s.liveModeId) (.str (str "live-sensevoice-cpu"))
  language : FallsBack (IsMember languages) (member (settings.get "recognition") "language")
    (.str s.language) (.str (str "auto"))
  chineseScript : FallsBack (IsMember chineseScripts)
    (member (settings.get "recognition") "chineseScript") (.str s.chineseScript)
    (.str (str "traditional"))
  postKind : FallsBack (IsMember postKinds) (member (settings.get "post") "kind")
    (.str s.postKind) (.str (impliedPostKind (member (settings.get "live") "mode")))
  locale : FallsBack (IsMember locales) (member (settings.get "ui") "locale")
    (.str s.locale) (.str (str "en"))
  theme : FallsBack (IsMember themes) (member (settings.get "ui") "theme")
    (.str s.theme) (.str (str "system"))
  chunkSeconds : FallsBack IsNumber (member (settings.get "qwen") "chunkSeconds")
    s.qwen.chunkSeconds.toValue (.num 60)
  tokens : FallsBack IsNumber (member (settings.get "qwen") "tokens")
    s.qwen.tokens.toValue (.num 4096)
  batch : FallsBack IsNumber (member (settings.get "qwen") "batch")
    s.qwen.batch.toValue (.num 16)
  context : FallsBack IsString (member (settings.get "qwen") "context")
    (.str s.qwen.context) (.str [])
  catalogs : s.liveModeId ∈ liveModes.map LiveMode.id ∧ s.language ∈ languages ∧
    s.chineseScript ∈ chineseScripts ∧ s.postKind ∈ postKinds ∧ s.locale ∈ locales ∧
    s.theme ∈ themes
  numbers : s.qwen.IsFinite
  outputDirSetting : (outputDirSetting s).isSome = true
  captureSettings : (captureSettings s).isSome = true

/-- A member a script would not take for absent is a string. -/
def TextOrFalsy (v : Option Value) : Prop := ∀ x, v = some x → x.truthy = true → IsString x

/-! ## The guards -/

theorem fallsBack_oneOf {catalog : List Str} (v : Option Value) (s : Str) :
    FallsBack (IsMember catalog) v (.str ((oneOf catalog v).getD s)) (.str s) := by
  cases hv : oneOf catalog v with
  | some found =>
    refine .inl ⟨?_, found, oneOf_mem hv, rfl⟩
    unfold oneOf at hv
    split at hv
    · split_ifs at hv
      cases hv
      rfl
    · cases hv
  | none =>
    refine .inr ⟨?_, rfl⟩
    rintro _ rfl ⟨found, hmem, rfl⟩
    rw [oneOf_str hmem] at hv
    cases hv

theorem fallsBack_numberOf (v : Option Value) (n : ℚ) :
    FallsBack IsNumber v ((numberOf v).getD (.finite n)).toValue (.num n) := by
  rcases v with - | v
  · exact .inr ⟨nofun, rfl⟩
  · cases v with
    | num value => exact .inl ⟨rfl, value, rfl⟩
    | _ => exact .inr ⟨by rintro _ ⟨⟩ ⟨value, ⟨⟩⟩, rfl⟩

theorem fallsBack_stringOf (v : Option Value) (s : Str) :
    FallsBack IsString v (.str ((stringOf v).getD s)) (.str s) := by
  rcases v with - | v
  · exact .inr ⟨nofun, rfl⟩
  · cases v with
    | str units => exact .inl ⟨rfl, units, rfl⟩
    | _ => exact .inr ⟨by rintro _ ⟨⟩ ⟨units, ⟨⟩⟩, rfl⟩

theorem fallsBack_boolOf (v : Option Value) (b : Bool) :
    FallsBack IsBoolean v (.bool ((boolOf v).getD b)) (.bool b) := by
  rcases v with - | v
  · exact .inr ⟨nofun, rfl⟩
  · cases v with
    | bool value => exact .inl ⟨rfl, value, rfl⟩
    | _ => exact .inr ⟨by rintro _ ⟨⟩ ⟨value, ⟨⟩⟩, rfl⟩

/-- What `||` lets through. Of the domain only the texts matter, and of the default only
    that it is what the empty text stands for. -/
theorem fallsBack_orElse_iff {domain : Value → Prop} {default : Value}
    (strings : ∀ x, domain x → IsString x) (chosen : ∀ s, s ≠ [] → domain (.str s))
    (empty : domain (.str []) → default = .str []) (hdefault : IsString default)
    (v : Option Value) :
    FallsBack domain v (orElse v default) default ↔ TextOrFalsy v := by
  rcases v with - | v
  · exact iff_of_true (.inr ⟨nofun, rfl⟩) nofun
  cases htrue : v.truthy with
  | true =>
    have heq : orElse (some v) default = v := by simp [orElse, Option.filter, htrue]
    rw [heq]
    constructor
    · rintro (⟨-, hdomain⟩ | ⟨-, rfl⟩) x ⟨⟩ -
      · exact strings _ hdomain
      · exact hdefault
    · intro h
      obtain ⟨s, rfl⟩ := h v rfl htrue
      exact .inl ⟨rfl, chosen s (by simpa [Value.truthy] using htrue)⟩
  | false =>
    have heq : orElse (some v) default = default := by simp [orElse, Option.filter, htrue]
    rw [heq]
    refine iff_of_true ?_ fun x hx hx' => ?_
    · by_cases hdomain : domain v
      · -- the empty text is in the domain of a device, and the default is the empty text
        obtain ⟨s, rfl⟩ := strings v hdomain
        obtain rfl : s = [] := by simpa [Value.truthy] using htrue
        rw [empty hdomain]
        exact .inl ⟨rfl, hdomain⟩
      · refine .inr ⟨?_, rfl⟩
        rintro _ ⟨⟩
        exact hdomain
    · cases hx
      rw [htrue] at hx'
      cases hx'

theorem fallsBack_folder_iff (v : Option Value) :
    FallsBack IsFolder v (orElse v (.str (str "outputs"))) (.str (str "outputs")) ↔ TextOrFalsy v :=
  fallsBack_orElse_iff (fun _ ⟨s, _, heq⟩ => ⟨s, heq⟩) (fun s hs => ⟨s, hs, rfl⟩)
    (fun ⟨_, hs, heq⟩ => absurd (Value.str.inj heq).symm hs) ⟨_, rfl⟩ v

theorem fallsBack_device_iff (v : Option Value) :
    FallsBack IsString v (orElse v (.str [])) (.str []) ↔ TextOrFalsy v :=
  fallsBack_orElse_iff (fun _ h => h) (fun s _ => ⟨s, rfl⟩) (fun _ => rfl) ⟨_, rfl⟩ v

/-- A field whose domain and default are texts is one. -/
theorem FallsBack.isString {domain : Value → Prop} {v : Option Value} {field default : Value}
    (h : FallsBack domain v field default) (strings : ∀ x, domain x → IsString x)
    (hdefault : IsString default) : IsString field := by
  rcases h with ⟨-, hdomain⟩ | ⟨-, rfl⟩
  · exact strings _ hdomain
  · exact hdefault

/-- `if (settings.capture)` lets nothing pass that a lookup would not. -/
theorem member_of_falsy {v : Option Value} (h : v.any Value.truthy = false) (key : String) :
    member v key = none := by
  rcases v with - | v
  · rfl
  · cases v with
    | str units =>
      obtain rfl : units = [] := by simpa [Value.truthy] using h
      rfl
    | arr items => simp [Value.truthy] at h
    | obj fields => simp [Value.truthy] at h
    | _ => rfl

/-- The devices of the loaded page. -/
theorem capture_orElse (capture : Option Value) (key : String) :
    (if capture.any Value.truthy then orElse (member capture key) (.str []) else .str []) =
      orElse (member capture key) (.str []) := by
  split_ifs with htrue
  · rfl
  · rw [member_of_falsy (by simpa using htrue)]
    rfl

theorem capture_includeMic (capture : Option Value) :
    (if capture.any Value.truthy then
        decide (boolOf (member capture "includeMic") = some true) else false) =
      (boolOf (member capture "includeMic")).getD false := by
  split_ifs with htrue
  · rcases boolOf (member capture "includeMic") with - | _ | _ <;> rfl
  · rw [member_of_falsy (by simpa using htrue)]
    rfl

theorem fallsBack_postKind (settings : Fields) :
    FallsBack (IsMember postKinds) (member (settings.get "post") "kind")
      (.str (postKindOf settings (str "sensevoice-cpu")))
      (.str (impliedPostKind (member (settings.get "live") "mode"))) := by
  have heq : postKindOf settings (str "sensevoice-cpu") =
      (oneOf postKinds (member (settings.get "post") "kind")).getD
        (impliedPostKind (member (settings.get "live") "mode")) := by
    unfold postKindOf
    cases oneOf postKinds (member (settings.get "post") "kind") <;> rfl
  rw [heq]
  exact fallsBack_oneOf _ _

theorem numberOf_finite {v : Option Value} {n : Number} (h : n.IsFinite) :
    ((numberOf v).getD n).IsFinite := by
  unfold numberOf
  split
  · exact ⟨_, rfl⟩
  · exact h

/-- What a page has after `loadSettings`: the fields in their domains, if the output folder and
    the devices are texts. -/
theorem opens_loadSettings_iff (settings : Fields) :
    Opens settings (Preferences.loadSettings settings {}) ↔
      TextOrFalsy (settings.get "outputDir") ∧
        TextOrFalsy (member (settings.get "capture") "systemDevice") ∧
        TextOrFalsy (member (settings.get "capture") "micDevice") := by
  have hsystem : (Preferences.loadSettings settings {}).systemDevice =
      orElse (member (settings.get "capture") "systemDevice") (.str []) := capture_orElse _ _
  have hmic : (Preferences.loadSettings settings {}).micDevice =
      orElse (member (settings.get "capture") "micDevice") (.str []) := capture_orElse _ _
  have hinclude : (Preferences.loadSettings settings {}).includeMic =
      (boolOf (member (settings.get "capture") "includeMic")).getD false := capture_includeMic _
  have hvalid := valid_loadSettings settings
  constructor
  · intro h
    have hsystem' := h.systemDevice
    have hmic' := h.micDevice
    rw [hsystem] at hsystem'
    rw [hmic] at hmic'
    exact ⟨(fallsBack_folder_iff _).mp h.outputDir, (fallsBack_device_iff _).mp hsystem',
      (fallsBack_device_iff _).mp hmic'⟩
  · rintro ⟨houtput, hsystem', hmic'⟩
    have hdir' := (fallsBack_folder_iff _).mpr houtput
    have hsystem'' := (fallsBack_device_iff _).mpr hsystem'
    have hmic'' := (fallsBack_device_iff _).mpr hmic'
    exact {
      settingsLoaded := rfl
      outputDir := hdir'
      systemDevice := hsystem ▸ hsystem''
      micDevice := hmic ▸ hmic''
      includeMic := hinclude ▸ fallsBack_boolOf _ _
      saveWav := fallsBack_boolOf _ _
      liveModeId := fallsBack_oneOf _ _
      language := fallsBack_oneOf _ _
      chineseScript := fallsBack_oneOf _ _
      postKind := fallsBack_postKind settings
      locale := fallsBack_oneOf _ _
      theme := fallsBack_oneOf _ _
      chunkSeconds := fallsBack_numberOf _ _
      tokens := fallsBack_numberOf _ _
      batch := fallsBack_numberOf _ _
      context := fallsBack_stringOf _ _
      catalogs := ⟨hvalid.liveModeId, hvalid.language, hvalid.chineseScript, hvalid.postKind,
        hvalid.locale, hvalid.theme⟩
      numbers := ⟨numberOf_finite ⟨60, rfl⟩, numberOf_finite ⟨4096, rfl⟩,
        numberOf_finite ⟨16, rfl⟩⟩
      outputDirSetting := (outputDirSetting_isSome_iff _).mpr
        (hdir'.isString (fun _ ⟨s, _, heq⟩ => ⟨s, heq⟩) ⟨_, rfl⟩)
      captureSettings := (captureSettings_isSome_iff _).mpr
        ⟨hsystem ▸ hsystem''.isString (fun _ h => h) ⟨_, rfl⟩,
          hmic ▸ hmic''.isString (fun _ h => h) ⟨_, rfl⟩⟩ }

theorem load_holds (aside : String) {d : Disk} {object : Fields} (s : Preferences)
    (h : d.settings = .holds (.obj object)) : s.load aside d = s.loadSettings object := by
  simp [Preferences.load, Disk.read, h]

/-- A page that is refused its settings stays as it was. -/
theorem load_unparsable (aside : String) {d : Disk} (s : Preferences)
    (h : d.settings = .unparsable) : s.load aside d = s := by
  simp [Preferences.load, Disk.read, h]

/-- **Which settings the page opens with.** Those, and only those, that `serde_json` parses and
    whose output folder and devices are texts, if they are anything a script takes for present.
    Every other member may be of any type and value. -/
theorem opens_iff (aside : String) (d : Disk) {object : Fields} (h : d.settings.IsText object) :
    Opens object (({} : Preferences).load aside d) ↔
      d.settings = .holds (.obj object) ∧ TextOrFalsy (object.get "outputDir") ∧
        TextOrFalsy (member (object.get "capture") "systemDevice") ∧
        TextOrFalsy (member (object.get "capture") "micDevice") := by
  rcases h with hholds | hrefused
  · rw [load_holds aside _ hholds, opens_loadSettings_iff]
    exact (and_iff_right hholds).symm
  · rw [load_unparsable aside _ hrefused, hrefused]
    constructor
    · intro hopens
      cases hopens.settingsLoaded
    · rintro ⟨hholds, -⟩
      cases hholds

/-- Members of every wrong type, and a language that is in its catalog. -/
def mistyped : Fields :=
  [("outputDir", .null), ("capture", .str (str "none")), ("live", .arr [.bool true]),
    ("recognition", .obj [("language", .str (str "ja")), ("chineseScript", .num 1)]),
    ("post", .num 5), ("qwen", .obj [("tokens", .str (str "4096")), ("batch", .null)]),
    ("ui", .bool false)]

theorem opens_iff_mistyped :
    Opens mistyped (({} : Preferences).load "settings.json.unreadable"
      ⟨"settings.json", .holds (.obj mistyped), .absent⟩) := by
  refine (opens_iff _ _ (.inl rfl)).mpr ⟨rfl, ?_, ?_, ?_⟩
  · rintro _ ⟨⟩ ⟨⟩
  · rintro _ ⟨⟩
  · rintro _ ⟨⟩

/-- **A number for the output folder**: the page keeps it, and the next `trim` raises. -/
theorem numeric_folder_breaks_page :
    ¬∀ (aside : String) (d : Disk) (object : Fields), d.settings = .holds (.obj object) →
      Opens object (({} : Preferences).load aside d) := by
  intro hclaim
  have hsome := (hclaim "" ⟨"", .holds (.obj [("outputDir", .num 5)]), .absent⟩
    [("outputDir", .num 5)] rfl).outputDirSetting
  cases hsome

end Ui
end LocalMeetingStt
