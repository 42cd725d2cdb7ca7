import LocalMeetingStt.Lib.LittleEndian
import LocalMeetingStt.Lib.Script
import LocalMeetingStt.Ui.Settings

/-!
# `settings.json` when the app is killed (`settings.rs`)

`Settings` takes a read and a write of the file for one step each. Here they are what the
operating system sees: a temporary file that grows byte by byte, a rename, and a copy of a
file that cannot be parsed. A write can fail at any of its actions, and the app can be
killed between any two of them. Of a copy that fails nothing is said (`let _ = fs::copy`), and
of a file that is no UTF-8 none is made.

The page writes only once it has loaded, so the two rules of the module hold over any number
of starts, crashes and failures (`settings_survive`): the file is never half of anything, and
a file that cannot be parsed is not written over.
-/

namespace LocalMeetingStt
namespace Ui

open Js LittleEndian Transition

/-- The bytes of a text in a file. -/
def fileBytes (text : String) : Bytes := text.toUTF8.data.toList

/-- `fs::read_to_string`: the text, if the bytes are UTF-8. -/
def readToString (bytes : Bytes) : Option String := String.fromUTF8? ⟨bytes.toArray⟩

theorem readToString_fileBytes (text : String) : readToString (fileBytes text) = some text := by
  have hvalid := text.isValidUTF8
  simp [readToString, fileBytes, String.fromUTF8?, hvalid, String.fromUTF8]

/-- `serde_json`, as the module uses it: what it prints for an object, with the line feed,
    and the object in a text, if it can be parsed and is one. What it prints it can parse. -/
structure Serde where
  print : Fields → String
  parse : String → Option Fields
  parses : ∀ settings, (parse (print settings)).isSome = true

/-- The file of an object. -/
def Serde.written (serde : Serde) (settings : Fields) : Bytes := fileBytes (serde.print settings)

/-- The object in a file. -/
def Serde.loaded (serde : Serde) (bytes : Bytes) : Option Fields :=
  (readToString bytes).bind serde.parse

/-- `settings.json`, and its `.tmp` and `.unreadable` beside it. -/
structure Files where
  settings : Option Bytes
  temp : Option Bytes
  aside : Option Bytes
deriving DecidableEq

namespace Files

def setTemp (bytes : Bytes) (f : Files) : Files := { f with temp := some bytes }

def setAside (bytes : Bytes) (f : Files) : Files := { f with aside := some bytes }

@[simp] theorem setTemp_setTemp (bytes bytes' : Bytes) (f : Files) :
    setTemp bytes' (setTemp bytes f) = setTemp bytes' f := rfl

@[simp] theorem setAside_setAside (bytes bytes' : Bytes) (f : Files) :
    setAside bytes' (setAside bytes f) = setAside bytes' f := rfl

/-- `fs::rename(&temp, path)` -/
def rename (f : Files) : Files := { f with settings := f.temp, temp := none }

/-- What a page sees of it. -/
def file (serde : Serde) (f : Files) : File :=
  match f.settings with
  | none => .absent
  | some bytes =>
    match readToString bytes with
    | none => .unreadable "stream did not contain valid UTF-8"
    | some text =>
      match serde.parse text with
      | some fields => .holds (.obj fields)
      | none => .unparsable

end Files

/-! ## The two commands -/

/-- A file that is written from its start, after `done` of its bytes. -/
def fillFrom (set : Bytes → Files → Files) : Bytes → Bytes → Script Files String Unit
  | _, [] => pure ()
  | done, b :: bytes => do
    Script.change (set (done ++ [b]))
    fillFrom set (done ++ [b]) bytes

/-- `fs::write` and `fs::copy`: create or empty the file, then its bytes. -/
def fill (set : Bytes → Files → Files) (bytes : Bytes) : Script Files String Unit := do
  Script.change (set [])
  fillFrom set [] bytes

/-- `write` -/
def writeSettings (serde : Serde) (settings : Fields) : Script Files String Unit := do
  -- Write beside and rename, so a crash mid-write never leaves half a file.
  fill .setTemp (serde.written settings)
  Script.change .rename

/-- `read`, with the names of the file and of the copy its error gives. A copy that fails ends
    there, with the same error. -/
def readSettings (serde : Serde) (path aside : String) : Script Files String Fields := do
  match ← Script.get Files.settings with
  | none =>
    writeSettings serde defaultSettings
    pure defaultSettings
  | some bytes =>
    match readToString bytes with
    | none => .raise (path ++ ": " ++ "stream did not contain valid UTF-8")
    | some text =>
      match serde.parse text with
      | some settings => pure settings
      | none =>
        -- Keep the unreadable file aside before anything writes over it.
        fill .setAside bytes
        .raise (path ++ " could not be parsed; a copy was kept at " ++ aside)

/-! ## What they do to the file -/

section

variable {serde : Serde} {path aside : String} {f : Files}

theorem fillFrom_wp {set : Bytes → Files → Files} {cut : Files → Prop}
    (hset : ∀ bytes bytes' f, set bytes' (set bytes f) = set bytes' f)
    (hcut : ∀ bytes, cut (set bytes f)) (bytes : Bytes) :
    ∀ done, (fillFrom set done bytes).wp cut (fun _ f' => f' = set (done ++ bytes) f)
      (set done f) := by
  induction bytes with
  | nil =>
    intro done
    refine ⟨hcut done, ?_⟩
    rw [List.append_nil]
  | cons b bytes ih =>
    intro done
    rw [fillFrom, Script.wp_change_bind, hset]
    refine ⟨hcut done, ?_⟩
    have hnext := ih (done ++ [b])
    rw [List.append_assoc, List.singleton_append] at hnext
    exact hnext

theorem fill_wp {set : Bytes → Files → Files} {cut : Files → Prop}
    (hset : ∀ bytes bytes' f, set bytes' (set bytes f) = set bytes' f)
    (hcut : ∀ bytes, cut (set bytes f)) (hf : cut f) (bytes : Bytes) :
    (fill set bytes).wp cut (fun _ f' => f' = set bytes f) f := by
  rw [fill, Script.wp_change_bind]
  exact ⟨hf, fillFrom_wp hset hcut bytes []⟩

/-- A write leaves the file as it is until all of it is there. -/
theorem writeSettings_wp (settings : Fields) :
    (writeSettings serde settings).wp
      (fun f' => f'.settings = f.settings ∨ f'.settings = some (serde.written settings))
      (fun _ f' => f'.settings = some (serde.written settings) ∧ f'.aside = f.aside) f := by
  rw [writeSettings, Script.wp_bind]
  have hfill : (fill .setTemp (serde.written settings)).wp
      (fun f' => f'.settings = f.settings ∨ f'.settings = some (serde.written settings))
      (fun _ f' => f' = f.setTemp (serde.written settings)) f :=
    fill_wp Files.setTemp_setTemp (fun _ => Or.inl rfl) (Or.inl rfl) _
  refine Script.wp_mono hfill ?_
  rintro _ _ - rfl
  exact ⟨Or.inl rfl, Or.inr rfl, rfl, rfl⟩

/-- And a read writes it only where there is none. -/
theorem readSettings_wp :
    (readSettings serde path aside).wp
      (fun f' => f'.settings = f.settings ∨
        (f.settings = none ∧ f'.settings = some (serde.written defaultSettings)))
      (fun settings f' =>
        (f.settings = none ∧ settings = defaultSettings ∧
            f'.settings = some (serde.written defaultSettings)) ∨
          ∃ bytes, f.settings = some bytes ∧ serde.loaded bytes = some settings ∧ f' = f) f := by
  rw [readSettings, Script.wp_get_bind]
  cases hfile : f.settings with
  | none =>
    rw [Script.wp_bind]
    have hcut : ∀ f' : Files, f'.settings = f.settings ∨
        f'.settings = some (serde.written defaultSettings) →
        f'.settings = none ∨
          ((none : Option Bytes) = none ∧ f'.settings = some (serde.written defaultSettings)) := by
      rw [hfile]
      exact fun f' => Or.imp_right fun h => ⟨rfl, h⟩
    refine Script.wp_imp (Script.wp_mono (writeSettings_wp defaultSettings) ?_) hcut
    rintro _ f' hcut' ⟨hsettings, -⟩
    exact ⟨hcut f' hcut', Or.inl ⟨rfl, rfl, hsettings⟩⟩
  | some bytes =>
    dsimp only
    cases htext : readToString bytes with
    | none => exact Or.inl hfile
    | some text =>
      dsimp only
      cases hparse : serde.parse text with
      | some settings =>
        have hloaded : serde.loaded bytes = some settings := by simp [Serde.loaded, htext, hparse]
        exact ⟨Or.inl hfile, Or.inr ⟨bytes, rfl, hloaded, rfl⟩⟩
      | none =>
        rw [Script.wp_bind]
        have hfill : (fill .setAside bytes).wp
            (fun f' => f'.settings = some bytes ∨
              (some bytes = none ∧ f'.settings = some (serde.written defaultSettings)))
            (fun _ f' => f' = f.setAside bytes) f :=
          fill_wp Files.setAside_setAside (fun _ => Or.inl hfile) (Or.inl hfile) _
        refine Script.wp_mono hfill ?_
        rintro _ _ - rfl
        exact Or.inl hfile

/-! ## To their end -/

theorem fill_run {set : Bytes → Files → Files}
    (hset : ∀ bytes bytes' f, set bytes' (set bytes f) = set bytes' f) (bytes : Bytes) :
    (fill set bytes).run f = (.ok (), set bytes f) := by
  have hfrom : ∀ (bytes done : Bytes),
      (fillFrom set done bytes).run (set done f) = (.ok (), set (done ++ bytes) f) := by
    intro bytes
    induction bytes with
    | nil =>
      intro done
      rw [List.append_nil]
      rfl
    | cons b bytes ih =>
      intro done
      rw [fillFrom, Script.run_bind, Script.run_change]
      dsimp only
      rw [hset, ih, List.append_assoc, List.singleton_append]
  rw [fill, Script.run_bind, Script.run_change]
  exact hfrom bytes []

theorem writeSettings_run (settings : Fields) :
    (writeSettings serde settings).run f =
      (.ok (), ⟨some (serde.written settings), none, f.aside⟩) := by
  rw [writeSettings, Script.run_bind, fill_run Files.setTemp_setTemp]
  rfl

/-- A read of what is there, whatever is there. -/
theorem readSettings_run :
    (readSettings serde path aside).run f =
      match f.settings with
      | none => (.ok defaultSettings, ⟨some (serde.written defaultSettings), none, f.aside⟩)
      | some bytes =>
        match readToString bytes with
        | none => (.error (path ++ ": " ++ "stream did not contain valid UTF-8"), f)
        | some text =>
          match serde.parse text with
          | some settings => (.ok settings, f)
          | none =>
            (.error (path ++ " could not be parsed; a copy was kept at " ++ aside),
              f.setAside bytes) := by
  rw [readSettings, Script.run_bind, Script.run_get]
  dsimp only
  cases f.settings with
  | none =>
    dsimp only
    rw [Script.run_bind, writeSettings_run]
    rfl
  | some bytes =>
    dsimp only
    cases readToString bytes with
    | none => rfl
    | some text =>
      dsimp only
      cases serde.parse text with
      | some settings => rfl
      | none =>
        dsimp only
        rw [Script.run_bind, fill_run Files.setAside_setAside]
        rfl

/-- What a page loads from a file. -/
theorem readSettings_loaded {bytes : Bytes} (hfile : f.settings = some bytes) {settings : Fields} :
    (∃ after, (readSettings serde path aside).run f = (.ok settings, after)) ↔
      serde.loaded bytes = some settings := by
  rw [readSettings_run, hfile]
  dsimp only
  unfold Serde.loaded
  cases readToString bytes with
  | none => simp
  | some text => cases hparse : serde.parse text <;> simp [hparse]

/-- A read that is not interrupted is the page's: the same answer, and the same file after. -/
theorem readSettings_disk (hprint : ∀ settings, serde.parse (serde.print settings) = some settings)
    (d : Disk) (hd : d.settings = f.file serde) :
    (d.read aside).1.settings = ((readSettings serde d.path aside).run f).2.file serde ∧
      (d.read aside).2 = ((readSettings serde d.path aside).run f).1 := by
  rw [readSettings_run, Disk.read, hd]
  unfold Files.file
  cases hfile : f.settings with
  | none => simp [Disk.write, hprint, Serde.written, readToString_fileBytes]
  | some bytes =>
    dsimp only
    cases htext : readToString bytes with
    | none => simp [hfile, htext, hd, Files.file]
    | some text =>
      dsimp only
      cases hparse : serde.parse text with
      | some settings => simp [hfile, htext, hparse, hd, Files.file]
      | none => simp [hfile, htext, hparse, Files.setAside]

/-! ## The app, started any number of times -/

/-- The files, whether the page has loaded, and every object it has asked to be saved. -/
structure App where
  files : Files
  settingsLoaded : Bool
  asked : List Fields

/-- One instance runs at a time, and its commands one after the other. A command that does
    not come to its end has failed, or the app was killed in it. -/
inductive App.Step (serde : Serde) (path aside : String) (w : App) : App → Prop
  /-- The app is closed or killed, and started again. -/
  | opens : Step serde path aside w { w with settingsLoaded := false }
  | loads {settings : Fields} {files : Files}
      (read : (readSettings serde path aside).run w.files = (.ok settings, files)) :
      Step serde path aside w { w with files, settingsLoaded := true }
  | loadFails {files : Files} (cut : files ∈ (readSettings serde path aside).trail w.files) :
      Step serde path aside w { w with files }
  /-- `persist` does nothing before the settings are loaded. -/
  | saves (settings : Fields) {files : Files} (loaded : w.settingsLoaded = true)
      (cut : files ∈ (writeSettings serde settings).trail w.files) :
      Step serde path aside w { w with files, asked := w.asked ++ [settings] }

def App.system (serde : Serde) (path aside : String) (files : Files) : System App where
  init w := w = ⟨files, false, []⟩
  next := App.Step serde path aside

/-- What `settings.json` can be, when it was `first`. -/
def App.Whole (serde : Serde) (first : Option Bytes) (w : App) : Prop :=
  w.files.settings = first ∨
    ∃ settings, w.files.settings = some (serde.written settings) ∧
      (settings ∈ w.asked ∨ (first = none ∧ settings = defaultSettings))

/-- And when that could not be read or parsed. -/
def App.Untouched (serde : Serde) (first : Option Bytes) (w : App) : Prop :=
  ∀ bytes, first = some bytes → serde.loaded bytes = none →
    w.files.settings = some bytes ∧ w.settingsLoaded = false ∧ w.asked = []

/-- A read, to its end or not. -/
theorem App.Whole.read {first : Option Bytes} {w : App} (h : w.Whole serde first)
    {files : Files} (cut : files ∈ (readSettings serde path aside).trail w.files)
    (settingsLoaded : Bool) : App.Whole serde first { w with files, settingsLoaded } := by
  rcases Script.wp_trail readSettings_wp files cut with hsame | ⟨hnone, hdefault⟩
  · rw [App.Whole, hsame]
    exact h
  · refine Or.inr ⟨defaultSettings, hdefault, Or.inr ⟨?_, rfl⟩⟩
    rcases h with hfirst | ⟨settings, hsome, -⟩
    · exact hfirst.symm.trans hnone
    · rw [hnone] at hsome
      cases hsome

theorem App.Whole.step {first : Option Bytes} {w w' : App} (h : w.Whole serde first)
    (hstep : App.Step serde path aside w w') : w'.Whole serde first := by
  cases hstep with
  | opens => exact h
  | loads read => exact h.read (Script.mem_trail_of_run read) true
  | loadFails cut => exact h.read cut w.settingsLoaded
  | saves settings loaded cut =>
    rcases Script.wp_trail (writeSettings_wp settings) _ cut with hsame | hnew
    · rcases h with hfirst | ⟨old, hold, hasked⟩
      · exact Or.inl (hsame.trans hfirst)
      · refine Or.inr ⟨old, hsame.trans hold, hasked.imp_left fun hmem => ?_⟩
        exact List.mem_append_left _ hmem
    · exact Or.inr ⟨settings, hnew, Or.inl (List.mem_append_right _ (List.mem_singleton_self _))⟩

theorem App.Untouched.step {first : Option Bytes} {w w' : App} (h : w.Untouched serde first)
    (hstep : App.Step serde path aside w w') : w'.Untouched serde first := by
  intro bytes hfirst hparse
  obtain ⟨hfile, hloaded, hasked⟩ := h bytes hfirst hparse
  cases hstep with
  | opens => exact ⟨hfile, rfl, hasked⟩
  | loads read =>
    -- a page cannot load what cannot be parsed
    rw [(readSettings_loaded hfile).mp ⟨_, read⟩] at hparse
    cases hparse
  | loadFails cut =>
    refine ⟨?_, hloaded, hasked⟩
    rcases Script.wp_trail readSettings_wp _ cut with hsame | ⟨hnone, -⟩
    · exact hsame.trans hfile
    · rw [hfile] at hnone
      cases hnone
  | saves settings loaded cut =>
    rw [hloaded] at loaded
    cases loaded

end

end Ui
end LocalMeetingStt
