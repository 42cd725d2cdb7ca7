import LocalMeetingStt.Lib.Transition
import LocalMeetingStt.Post.Opened
import Mathlib.Order.Lattice

/-!
# The list of recordings and what is chosen from it (`sessions.rs`, `main.rs`, `app.js`)

A list is asked for when the page is ready, by its button, when a job exits, and 300 ms after
the output folder was last edited. The requests overlap: each is answered from the folder as
it is at that moment, and the answers come back in any order. `sessionsRequest` numbers them,
and only the answer to the last one is shown.

What is to be transcribed is a recording of the list or a file from elsewhere. `Stands` says
how the two and the list go together. A click goes to the list as it was drawn: one step is
left out of the theorem, a click on a recording that a list just arrived no longer has
(`Drawn`), and `click_overtaken` is a run with it.
-/

namespace LocalMeetingStt
namespace Ui
namespace Recordings

open WinPath
open Output (AppPaths outputDirSetting)
open Transition

variable {τ : Type}

/-! ## The backend's side (`sessions.rs`, `main.rs`) -/

/-- The recording of a session folder. -/
def audioWav : Path := "audio.wav".toList

theorem audioWav_isName : IsName audioWav := ⟨by decide, by decide, by decide, by decide⟩

/-- An entry of the output folder. -/
structure Entry (τ : Type) where
  name : Path
  isDir : Bool
  /-- When the `audio.wav` in it was modified, if that is a file. -/
  audio : Option τ
  named : IsName name

/-- A folder with an `audio.wav` in it, as it goes to the page. -/
structure Session (τ : Type) where
  id : Path
  name : Text
  folderPath : Path
  audioPath : Path
  modifiedTime : τ
  named : id ≠ []
  audio : audioPath = push id audioWav

theorem push_ne_nil (base : Path) {name : Path} (h : IsName name) : push base name ≠ [] := by
  intro hnil
  have hsuffix := push_suffix base h
  rw [hnil] at hsuffix
  exact h.ne_nil (List.suffix_nil.mp hsuffix)

theorem Session.audioPath_ne_nil (session : Session τ) : session.audioPath ≠ [] := by
  rw [session.audio]
  exact push_ne_nil session.id audioWav_isName

def Session.ofEntry (outputDir : Path) (entry : Entry τ) : Option (Session τ) :=
  entry.audio.map fun modified =>
    { id := push outputDir entry.name
      name := entry.name
      folderPath := push outputDir entry.name
      audioPath := push (push outputDir entry.name) audioWav
      modifiedTime := modified
      named := push_ne_nil outputDir entry.named
      audio := rfl }

section Listing

variable [LinearOrder τ]

/-- `sessions::list`: the newest first, and none where the folder cannot be read. -/
def list (outputDir : Path) (entries : Option (List (Entry τ))) : List (Session τ) :=
  (((entries.getD []).filter (·.isDir)).filterMap (Session.ofEntry outputDir)).mergeSort
    fun left right => right.modifiedTime ≤ left.modifiedTime

def listOutputSessions (paths : AppPaths) (disk : Path → Option (List (Entry τ)))
    (outputDir : Text) : List (Session τ) :=
  let configured := if trim outputDir = [] then "outputs".toList else trim outputDir
  list (paths.inDataRoot configured) (disk (paths.inDataRoot configured))

theorem list_pairwise (outputDir : Path) (entries : Option (List (Entry τ))) :
    (list outputDir entries).Pairwise fun left right => right.modifiedTime ≤ left.modifiedTime := by
  have h : (list outputDir entries).Pairwise fun left right =>
      decide (right.modifiedTime ≤ left.modifiedTime) = true :=
    List.pairwise_mergeSort
      (fun _ _ _ hab hbc => decide_eq_true ((of_decide_eq_true hbc).trans (of_decide_eq_true hab)))
      (fun a b => by simpa using le_total b.modifiedTime a.modifiedTime) _
  exact h.imp fun hle => of_decide_eq_true hle

theorem list_newest {outputDir : Path} {entries : Option (List (Entry τ))} {newest : Session τ}
    (h : (list outputDir entries).head? = some newest) :
    ∀ session ∈ list outputDir entries, session.modifiedTime ≤ newest.modifiedTime := by
  have hsorted := list_pairwise outputDir entries
  cases hlist : list outputDir entries with
  | nil => exact nofun
  | cons first rest =>
    rw [hlist] at h hsorted
    obtain rfl := Option.some.inj h
    intro session hmem
    rcases List.mem_cons.mp hmem with rfl | hrest
    · exact le_rfl
    · exact List.rel_of_pairwise_cons hsorted hrest

end Listing

/-! ## The page's side (`app.js`) -/

/-- What the page keeps of its recordings. -/
structure Page (τ : Type) where
  outputDir : Text := "outputs".toList
  sessions : List (Session τ) := []
  selectedSessionId : Path := []
  audioPath : Path := []
  error : Text := []
  sessionsRequest : Nat := 0

namespace Page

/-- `selectedSession` -/
def selectedSession (page : Page τ) : Option (Session τ) :=
  page.sessions.find? fun session => session.id = page.selectedSessionId

/-- `selectedAudioPath` -/
def selectedAudioPath (page : Page τ) : Path :=
  let audioPath := (page.selectedSession.map (·.audioPath)).getD []
  if audioPath = [] then page.audioPath else audioPath

/-- `settings.outputDir`, if the settings have one. -/
def loadOutputDir (page : Page τ) (outputDir : Text) : Page τ :=
  if outputDir = [] then page else { page with outputDir }

/-- `setOutputDir` -/
def setOutputDir (page : Page τ) (value : Text) : Page τ := { page with outputDir := value }

/-- A click on a recording, here or by **Transcribe** after a job. -/
def select (page : Page τ) (id : Path) : Page τ :=
  { page with selectedSessionId := id, audioPath := [] }

/-- `chooseExternalAudio` -/
def chooseExternalAudio (page : Page τ) (path : Path) : Page τ :=
  { page with audioPath := path, selectedSessionId := [] }

/-- What `refreshSessions` does before its `await`. -/
def refreshSessions (page : Page τ) : Page τ :=
  { page with sessionsRequest := page.sessionsRequest + 1 }

/-- And after it. -/
def onSessions (page : Page τ) (request : Nat) : Except Text (List (Session τ)) → Page τ
  | .error error => { page with error := "無法讀取錄音列表：".toList ++ error }
  | .ok found =>
    if request ≠ page.sessionsRequest then page
    else if ¬(page.selectedSessionId ≠ [] ∧
        found.any fun session => session.id = page.selectedSessionId) ∧ page.audioPath = [] then
      { page with sessions := found, selectedSessionId := ((found.head?).map (·.id)).getD [] }
    else { page with sessions := found }

end Page

/-! ## What can happen -/

/-- Where a request stands. -/
inductive RequestPc (τ : Type) where
  | idle
  | asked (outputDir : Text)
  /-- Its answer is on its way. -/
  | answered (outputDir : Text) (found : Except Text (List (Session τ)))
  | returned (outputDir : Text) (found : Except Text (List (Session τ)))

def RequestPc.outputDir : RequestPc τ → Option Text
  | .idle => none
  | .asked outputDir | .answered outputDir _ | .returned outputDir _ => some outputDir

/-- The list the backend has sent. -/
def RequestPc.found : RequestPc τ → Option (List (Session τ))
  | .answered _ (.ok found) | .returned _ (.ok found) => some found
  | _ => none

/-- The page, its timer, and the requests on their way. -/
structure Tab (τ : Type) where
  page : Page τ
  /-- The recordings of the last drawing. -/
  drawn : List (Session τ)
  requests : Nat → RequestPc τ
  sessionsTimer : Bool
  /-- The settings are loaded. -/
  ready : Bool
  /-- What the folders hold. -/
  disk : Path → Option (List (Entry τ))

namespace Tab

def start (disk : Path → Option (List (Entry τ))) : Tab τ where
  page := {}
  drawn := []
  requests _ := .idle
  sessionsTimer := false
  ready := false
  disk := disk

def setRequest (w : Tab τ) (n : Nat) (pc : RequestPc τ) : Tab τ :=
  { w with requests := Function.update w.requests n pc }

def refreshSessions (w : Tab τ) : Tab τ :=
  { w.setRequest (w.page.sessionsRequest + 1) (.asked (outputDirSetting w.page.outputDir)) with
    page := w.page.refreshSessions }

/-- A click on a recording of the list. -/
def click (w : Tab τ) (item : Session τ) : Tab τ := { w with page := w.page.select item.id }

end Tab

/-- A click goes to a recording that is listed still. -/
def Drawn (w w' : Tab τ) : Prop :=
  ∀ item ∈ w.drawn, w' = w.click item → ∃ session ∈ w.page.sessions, session.id = item.id

section Steps

variable [LinearOrder τ]

/-- Any one thing that happens. -/
inductive Step (paths : AppPaths) (w : Tab τ) : Tab τ → Prop
  /-- `init`, when the settings are there. -/
  | init (outputDir : Text) (loading : w.ready = false) :
      Step paths w
        { w with ready := true, page := w.page.loadOutputDir outputDir }.refreshSessions
  /-- The button, or a job has exited. -/
  | refresh : Step paths w w.refreshSessions
  | edit (value : Text) :
      Step paths w { w with page := w.page.setOutputDir value, sessionsTimer := true }
  | elapsed (armed : w.sessionsTimer = true) :
      Step paths w { w with sessionsTimer := false }.refreshSessions
  | serve (n : Nat) (outputDir : Text) (at_ : w.requests n = .asked outputDir) :
      Step paths w
        (w.setRequest n (.answered outputDir (.ok (listOutputSessions paths w.disk outputDir))))
  | fail (n : Nat) (outputDir error : Text) (at_ : w.requests n = .asked outputDir) :
      Step paths w (w.setRequest n (.answered outputDir (.error error)))
  | reply (n : Nat) (outputDir : Text) (found : Except Text (List (Session τ)))
      (at_ : w.requests n = .answered outputDir found) :
      Step paths w
        { w.setRequest n (.returned outputDir found) with page := w.page.onSessions n found }
  | draw : Step paths w { w with drawn := w.page.sessions }
  | click (item : Session τ) (shown : item ∈ w.drawn) : Step paths w (w.click item)
  /-- `finishedRecording` is one of the sessions. -/
  | transcribe (item : Session τ) (listed : item ∈ w.page.sessions) : Step paths w (w.click item)
  /-- A file that was picked or dropped. -/
  | pick (path : Path) (given : path ≠ []) :
      Step paths w { w with page := w.page.chooseExternalAudio path }
  | write (disk : Path → Option (List (Entry τ))) : Step paths w { w with disk }

/-- The page from its opening, and the folders it is asked to list. -/
def system (paths : AppPaths) : System (Tab τ) where
  init w := ∃ disk, w = .start disk
  next := Step paths

/-- A step that leaves the folders as they are. -/
def Quiet (paths : AppPaths) (w w' : Tab τ) : Prop :=
  ((system paths).restrict Drawn).next w w' ∧ w'.disk = w.disk
end Steps

/-! ## The list and the choice -/

/-- What is chosen: nothing while nothing is listed, a recording of the list, or a file. -/
inductive Stands (page : Page τ) : Prop
  | nothing (unselected : page.selectedSessionId = []) (noFile : page.audioPath = [])
      (empty : page.sessions = [])
  | recording (session : Session τ) (selected : page.selectedSession = some session)
      (noFile : page.audioPath = [])
  | file (unselected : page.selectedSessionId = []) (given : page.audioPath ≠ [])

variable {page page' : Page τ}

theorem Stands.of_eq (h : Stands page) (hsessions : page'.sessions = page.sessions)
    (hselected : page'.selectedSessionId = page.selectedSessionId)
    (hfile : page'.audioPath = page.audioPath) : Stands page' := by
  have hsession : page'.selectedSession = page.selectedSession := by
    rw [Page.selectedSession, hsessions, hselected]
    rfl
  cases h with
  | nothing unselected noFile empty =>
    exact .nothing (hselected.trans unselected) (hfile.trans noFile) (hsessions.trans empty)
  | recording session selected noFile =>
    exact .recording session (hsession.trans selected) (hfile.trans noFile)
  | file unselected given =>
    rw [← hfile] at given
    exact .file (hselected.trans unselected) given

theorem selectedSession_isSome (page : Page τ)
    (h : ∃ session ∈ page.sessions, session.id = page.selectedSessionId) :
    ∃ session, page.selectedSession = some session := by
  obtain ⟨session, hmem, hid⟩ := h
  exact Option.isSome_iff_exists.mp
    (List.find?_isSome.mpr ⟨session, hmem, decide_eq_true hid⟩)

/-- No recording has the empty id. -/
theorem selectedSession_nil (h : page.selectedSessionId = []) : page.selectedSession = none := by
  refine List.find?_eq_none.mpr fun session _ => ?_
  rw [h]
  exact fun hid => session.named (of_decide_eq_true hid)

theorem selectedSession_id {session : Session τ} (h : page.selectedSession = some session) :
    session.id = page.selectedSessionId := by
  unfold Page.selectedSession at h
  have hid := List.find?_some h
  exact of_decide_eq_true hid

theorem Stands.select {item : Session τ}
    (h : ∃ session ∈ page.sessions, session.id = item.id) : Stands (page.select item.id) := by
  obtain ⟨session, hselected⟩ := selectedSession_isSome (page.select item.id) h
  exact .recording session hselected rfl

theorem selectedAudioPath_recording {session : Session τ}
    (h : page.selectedSession = some session) :
    page.selectedAudioPath = push page.selectedSessionId audioWav := by
  have hpath : page.selectedAudioPath = session.audioPath := by
    rw [Page.selectedAudioPath, h]
    exact if_neg session.audioPath_ne_nil
  rw [hpath, session.audio, selectedSession_id h]

theorem selectedAudioPath_file (h : page.selectedSessionId = []) :
    page.selectedAudioPath = page.audioPath := by
  rw [Page.selectedAudioPath, selectedSession_nil h]
  exact if_pos rfl

/-- There is something to transcribe as soon as something is listed. -/
theorem Stands.selectedAudioPath_ne_nil (h : Stands page) (hlisted : page.sessions ≠ []) :
    page.selectedAudioPath ≠ [] := by
  cases h with
  | nothing unselected noFile empty => exact absurd empty hlisted
  | recording session selected noFile =>
    rw [selectedAudioPath_recording selected]
    exact push_ne_nil _ audioWav_isName
  | file unselected given =>
    rw [selectedAudioPath_file unselected]
    exact given

/-! ### A list comes in -/

/-- The choice outlasts a list: it is a file, or a recording the list has, too. -/
def Page.Keeps (page : Page τ) (found : List (Session τ)) : Prop :=
  page.audioPath ≠ [] ∨ ∃ session ∈ found, session.id = page.selectedSessionId

theorem onSessions_late {request : Nat} (h : request ≠ page.sessionsRequest)
    (found : List (Session τ)) : page.onSessions request (.ok found) = page :=
  if_pos h

theorem onSessions_keeps {found : List (Session τ)} (h : page.Keeps found) :
    page.onSessions page.sessionsRequest (.ok found) = { page with sessions := found } := by
  rw [Page.onSessions, if_neg (not_not.mpr rfl), if_neg]
  rintro ⟨hunlisted, hnoFile⟩
  obtain hgiven | ⟨session, hmem, hid⟩ := h
  · exact hgiven hnoFile
  · refine hunlisted ⟨?_, List.any_eq_true.mpr ⟨session, hmem, decide_eq_true hid⟩⟩
    rw [← hid]
    exact session.named

theorem onSessions_drops {found : List (Session τ)} (h : ¬page.Keeps found) :
    page.onSessions page.sessionsRequest (.ok found) =
      { page with sessions := found, selectedSessionId := ((found.head?).map (·.id)).getD [] } := by
  rw [Page.onSessions, if_neg (not_not.mpr rfl), if_pos]
  refine ⟨fun ⟨_, hany⟩ => ?_, ?_⟩
  · obtain ⟨session, hmem, hid⟩ := List.any_eq_true.mp hany
    exact h (.inr ⟨session, hmem, of_decide_eq_true hid⟩)
  · by_contra hgiven
    exact h (.inl hgiven)

/-- The first of the list is chosen where the choice before is not in it. -/
theorem selectedSession_drops {found : List (Session τ)} (h : ¬page.Keeps found) :
    (page.onSessions page.sessionsRequest (.ok found)).selectedSession = found.head? := by
  rw [onSessions_drops h]
  cases found with
  | nil => rfl
  | cons session found => exact List.find?_cons_of_pos (decide_eq_true rfl)

theorem Stands.onSessions (h : Stands page) (request : Nat)
    (found : Except Text (List (Session τ))) : Stands (page.onSessions request found) := by
  cases found with
  | error error => exact h.of_eq rfl rfl rfl
  | ok found =>
    by_cases hlast : request = page.sessionsRequest
    · subst hlast
      by_cases hkeeps : page.Keeps found
      · rw [onSessions_keeps hkeeps]
        cases h with
        | nothing unselected noFile empty =>
          rcases hkeeps with hgiven | ⟨session, -, hid⟩
          · exact absurd noFile hgiven
          · exact absurd (hid.trans unselected) session.named
        | recording session selected noFile =>
          have hlisted := hkeeps.resolve_left (not_not.mpr noFile)
          obtain ⟨session', hselected⟩ :=
            selectedSession_isSome { page with sessions := found } hlisted
          exact .recording session' hselected noFile
        | file unselected given => exact .file unselected given
      · have hnoFile : page.audioPath = [] := by
          by_contra hgiven
          exact hkeeps (.inl hgiven)
        have hselected := selectedSession_drops hkeeps
        rw [onSessions_drops hkeeps] at hselected ⊢
        cases found with
        | nil => exact .nothing rfl hnoFile rfl
        | cons session found => exact .recording session hselected hnoFile
    · rw [onSessions_late hlast]
      exact h

/-- A list that has the choice leaves it where it is. -/
theorem Stands.selectedAudioPath_onSessions (h : Stands page) {found : List (Session τ)}
    (hkeeps : page.Keeps found) (request : Nat) :
    (page.onSessions request (.ok found)).selectedAudioPath = page.selectedAudioPath := by
  by_cases hlast : request = page.sessionsRequest
  · subst hlast
    have hstands := h.onSessions page.sessionsRequest (.ok found)
    rw [onSessions_keeps hkeeps] at hstands ⊢
    cases hstands with
    | nothing unselected _ _ =>
      exact (selectedAudioPath_file unselected).trans
        (selectedAudioPath_file (show page.selectedSessionId = [] from unselected)).symm
    | recording session selected noFile =>
      rw [selectedAudioPath_recording selected]
      cases h with
      | nothing unselected _ _ =>
        exact absurd ((selectedSession_id selected).trans unselected) session.named
      | recording session selected _ => rw [selectedAudioPath_recording selected]
      | file _ given => exact absurd noFile given
    | file unselected _ =>
      exact (selectedAudioPath_file unselected).trans
        (selectedAudioPath_file (show page.selectedSessionId = [] from unselected)).symm
  · rw [onSessions_late hlast]

theorem onSessions_sessions (page : Page τ) (found : List (Session τ)) :
    (page.onSessions page.sessionsRequest (.ok found)).sessions = found := by
  by_cases hkeeps : page.Keeps found
  · rw [onSessions_keeps hkeeps]
  · rw [onSessions_drops hkeeps]

theorem onSessions_other {request : Nat} (h : request ≠ page.sessionsRequest)
    (found : Except Text (List (Session τ))) :
    (page.onSessions request found).sessions = page.sessions := by
  cases found with
  | error error => rfl
  | ok found => rw [onSessions_late h]

/-- A list asks for nothing and edits nothing. -/
theorem onSessions_frame (page : Page τ) (request : Nat) (found : Except Text (List (Session τ))) :
    (page.onSessions request found).sessionsRequest = page.sessionsRequest ∧
      (page.onSessions request found).outputDir = page.outputDir := by
  cases found with
  | error error => exact ⟨rfl, rfl⟩
  | ok found =>
    unfold Page.onSessions
    dsimp only
    split_ifs <;> exact ⟨rfl, rfl⟩

theorem loadOutputDir_frame (page : Page τ) (outputDir : Text) :
    (page.loadOutputDir outputDir).sessions = page.sessions ∧
      (page.loadOutputDir outputDir).selectedSessionId = page.selectedSessionId ∧
      (page.loadOutputDir outputDir).audioPath = page.audioPath ∧
      (page.loadOutputDir outputDir).sessionsRequest = page.sessionsRequest := by
  unfold Page.loadOutputDir
  split_ifs <;> exact ⟨rfl, rfl, rfl, rfl⟩

/-! ## The requests and the last one -/

variable {w w' : Tab τ}

theorem requests_refreshSessions (w : Tab τ) (n : Nat) :
    w.refreshSessions.requests n =
      if n = w.page.sessionsRequest + 1 then .asked (outputDirSetting w.page.outputDir)
      else w.requests n :=
  Function.update_apply ..

theorem requests_setRequest (w : Tab τ) (n : Nat) (pc : RequestPc τ) (m : Nat) :
    (w.setRequest n pc).requests m = if m = n then pc else w.requests m :=
  Function.update_apply ..

/-- The last request, next to what the page shows. -/
structure Follows (w : Tab τ) : Prop where
  unasked : ∀ n, w.page.sessionsRequest < n → w.requests n = .idle
  latest : ∀ outputDir found,
    w.requests w.page.sessionsRequest = .returned outputDir (.ok found) → w.page.sessions = found
  folder : w.sessionsTimer = false → ∀ outputDir,
    (w.requests w.page.sessionsRequest).outputDir = some outputDir →
      outputDir = outputDirSetting w.page.outputDir

theorem follows_start (disk : Path → Option (List (Entry τ))) : Follows (.start disk) where
  unasked _ _ := rfl
  latest _ _ h := by cases h
  folder _ _ h := by cases h

/-- A new request is the last one, and is for the folder of now. -/
theorem follows_refreshSessions
    (hunasked : ∀ n, w.page.sessionsRequest < n → w.requests n = .idle) :
    Follows w.refreshSessions := by
  have hself : w.refreshSessions.requests w.refreshSessions.page.sessionsRequest =
      .asked (outputDirSetting w.page.outputDir) := Function.update_self ..
  refine ⟨fun n hn => ?_, fun outputDir found h => ?_, fun _ outputDir h => ?_⟩
  · have hlt : w.page.sessionsRequest + 1 < n := hn
    rw [requests_refreshSessions, if_neg (Nat.ne_of_gt hlt)]
    exact hunasked n (Nat.lt_of_succ_lt hlt)
  · rw [hself] at h
    cases h
  · rw [hself] at h
    exact (Option.some.inj h).symm

/-- Nothing about the requests has changed, and the folder only under a timer. -/
theorem Follows.frame (h : Follows w) (hrequests : w'.requests = w.requests)
    (hlast : w'.page.sessionsRequest = w.page.sessionsRequest)
    (hsessions : w'.page.sessions = w.page.sessions)
    (hfolder : w'.sessionsTimer = false →
      w.sessionsTimer = false ∧ w'.page.outputDir = w.page.outputDir) : Follows w' := by
  refine ⟨?_, ?_, fun htimer => ?_⟩
  · rw [hrequests, hlast]
    exact h.unasked
  · rw [hrequests, hlast, hsessions]
    exact h.latest
  · obtain ⟨htimer, houtput⟩ := hfolder htimer
    rw [hrequests, hlast, houtput]
    exact h.folder htimer

/-- A request goes on, and the page may take its answer. -/
theorem Follows.request (h : Follows w) {n : Nat} {pc : RequestPc τ}
    (hasked : w.requests n ≠ .idle) (hdir : pc.outputDir = (w.requests n).outputDir)
    (hrequests : w'.requests = Function.update w.requests n pc)
    (hlast : w'.page.sessionsRequest = w.page.sessionsRequest)
    (htimer : w'.sessionsTimer = w.sessionsTimer)
    (houtput : w'.page.outputDir = w.page.outputDir)
    (hanswer : ∀ outputDir found, n = w.page.sessionsRequest →
      pc = .returned outputDir (.ok found) → w'.page.sessions = found)
    (hother : n ≠ w.page.sessionsRequest → w'.page.sessions = w.page.sessions) : Follows w' := by
  refine ⟨fun m hm => ?_, fun outputDir found hm => ?_, fun hoff outputDir hm => ?_⟩
  · rw [hlast] at hm
    have hne : m ≠ n := by
      rintro rfl
      exact hasked (h.unasked m hm)
    rw [hrequests, Function.update_of_ne hne]
    exact h.unasked m hm
  · rw [hrequests, hlast] at hm
    by_cases hn : n = w.page.sessionsRequest
    · rw [← hn, Function.update_self] at hm
      exact hanswer outputDir found hn hm
    · rw [Function.update_of_ne (Ne.symm hn)] at hm
      rw [hother hn]
      exact h.latest outputDir found hm
  · rw [hrequests, hlast] at hm
    rw [houtput]
    refine h.folder (htimer ▸ hoff) outputDir ?_
    by_cases hn : n = w.page.sessionsRequest
    · rw [← hn, Function.update_self, hdir] at hm
      rw [← hn]
      exact hm
    · rw [Function.update_of_ne (Ne.symm hn)] at hm
      exact hm

/-- An answer sets out, and the page does not know of it. -/
theorem Follows.answer (h : Follows w) {n : Nat} {outputDir : Text}
    (hat : w.requests n = .asked outputDir) (found : Except Text (List (Session τ))) :
    Follows (w.setRequest n (.answered outputDir found)) := by
  refine h.request (n := n) ?_ ?_ rfl rfl rfl rfl nofun fun _ => rfl
  · rw [hat]
    exact nofun
  · rw [hat]
    rfl

/-! ## Every step -/

variable [LinearOrder τ] {paths : AppPaths}

/-- What the backend has sent is what the folders would hold. -/
def RequestPc.Shows (paths : AppPaths) (disk : Path → Option (List (Entry τ)))
    (pc : RequestPc τ) : Prop :=
  ∀ found, pc.found = some found →
    ∃ outputDir, pc.outputDir = some outputDir ∧ found = listOutputSessions paths disk outputDir

theorem shows_refreshSessions {disk : Path → Option (List (Entry τ))} {n : Nat}
    (h : (w.requests n).Shows paths disk) : (w.refreshSessions.requests n).Shows paths disk := by
  rw [requests_refreshSessions]
  split_ifs
  · exact nofun
  · exact h

/-- What was sent stays as it was sent; what is sent shows the folders of now. -/
theorem shows_step (hstep : Step paths w w') (n : Nat) :
    (∀ disk, (w.requests n).Shows paths disk → (w'.requests n).Shows paths disk) ∨
      (w'.requests n).Shows paths w.disk := by
  cases hstep with
  | init outputDir loading => exact .inl fun _ h => shows_refreshSessions h
  | refresh => exact .inl fun _ h => shows_refreshSessions h
  | elapsed armed => exact .inl fun _ h => shows_refreshSessions h
  | edit value => exact .inl fun _ h => h
  | draw => exact .inl fun _ h => h
  | click item shown => exact .inl fun _ h => h
  | transcribe item listed => exact .inl fun _ h => h
  | pick path given => exact .inl fun _ h => h
  | write disk => exact .inl fun _ h => h
  | serve m outputDir at_ =>
    rw [requests_setRequest]
    split_ifs
    · exact .inr fun found h => ⟨outputDir, rfl, (Option.some.inj h).symm⟩
    · exact .inl fun _ h => h
  | fail m outputDir error at_ =>
    rw [requests_setRequest]
    split_ifs
    · exact .inr nofun
    · exact .inl fun _ h => h
  | reply m outputDir found at_ =>
    left
    intro disk h
    change ((w.setRequest m (.returned outputDir found)).requests n).Shows paths disk
    rw [requests_setRequest]
    split_ifs with hn
    · subst hn
      rw [at_] at h
      cases found with
      | error error => exact nofun
      | ok found => exact h
    · exact h

theorem Follows.step (h : Follows w) (hstep : Step paths w w') : Follows w' := by
  cases hstep with
  | init outputDir loading =>
    refine follows_refreshSessions ?_
    rw [show ({ w with ready := true, page := w.page.loadOutputDir outputDir } :
      Tab τ).page.sessionsRequest = _ from (loadOutputDir_frame w.page outputDir).2.2.2]
    exact h.unasked
  | refresh => exact follows_refreshSessions h.unasked
  | elapsed armed => exact follows_refreshSessions h.unasked
  | edit value => exact h.frame rfl rfl rfl nofun
  | draw => exact h.frame rfl rfl rfl fun htimer => ⟨htimer, rfl⟩
  | click item shown => exact h.frame rfl rfl rfl fun htimer => ⟨htimer, rfl⟩
  | transcribe item listed => exact h.frame rfl rfl rfl fun htimer => ⟨htimer, rfl⟩
  | pick path given => exact h.frame rfl rfl rfl fun htimer => ⟨htimer, rfl⟩
  | write disk => exact h.frame rfl rfl rfl fun htimer => ⟨htimer, rfl⟩
  | serve n outputDir at_ => exact h.answer at_ _
  | fail n outputDir error at_ => exact h.answer at_ _
  | reply n outputDir found at_ =>
    obtain ⟨hlast, houtput⟩ := onSessions_frame w.page n found
    refine h.request (n := n) ?_ ?_ rfl hlast rfl houtput
      ?_ fun hn => onSessions_other hn found
    · rw [at_]
      exact nofun
    · rw [at_]
      rfl
    · rintro _ sessions rfl hpc
      obtain ⟨rfl, rfl⟩ := RequestPc.returned.inj hpc
      exact onSessions_sessions w.page sessions

theorem Stands.step (h : Stands w.page) (hstep : Step paths w w') (hdrawn : Drawn w w') :
    Stands w'.page := by
  cases hstep with
  | init outputDir loading =>
    obtain ⟨hsessions, hselected, hfile, -⟩ := loadOutputDir_frame w.page outputDir
    exact h.of_eq hsessions hselected hfile
  | refresh => exact h.of_eq rfl rfl rfl
  | elapsed armed => exact h.of_eq rfl rfl rfl
  | edit value => exact h.of_eq rfl rfl rfl
  | serve n outputDir at_ => exact h
  | fail n outputDir error at_ => exact h
  | reply n outputDir found at_ => exact h.onSessions n found
  | draw => exact h
  | click item shown => exact .select (hdrawn item shown rfl)
  | transcribe item listed => exact .select ⟨item, listed, rfl⟩
  | pick path given => exact .file rfl given
  | write disk => exact h

theorem reachable_follows (hw : ((system paths).restrict Drawn).Reachable w) :
    Stands w.page ∧ Follows w ∧ ∀ n, ∃ disk, (w.requests n).Shows paths disk := by
  refine System.Inductive.reachable (I := fun w => Stands w.page ∧ Follows w ∧
    ∀ n, ∃ disk, (w.requests n).Shows paths disk) ⟨?_, ?_⟩ hw
  · rintro _ ⟨disk, rfl⟩
    exact ⟨.nothing rfl rfl rfl, follows_start disk, fun _ => ⟨disk, nofun⟩⟩
  · rintro w w' _ ⟨hstands, hfollows, hshows⟩ ⟨hstep, hdrawn⟩
    refine ⟨hstands.step hstep hdrawn, hfollows.step hstep, fun n => ?_⟩
    rcases shows_step hstep n with hkept | hsent
    · obtain ⟨disk, hdisk⟩ := hshows n
      exact ⟨disk, hkept disk hdisk⟩
    · exact ⟨w.disk, hsent⟩

theorem reachable_quiet (hw : ((system paths).restrict Drawn).Reachable w)
    (hquiet : Relation.ReflTransGen (Quiet paths) w w') :
    ((system paths).restrict Drawn).Reachable w' :=
  hw.stretch (Relation.ReflTransGen.mono (fun _ _ h => h.1) _ _ hquiet)

/-- What is asked for in a stretch in which no folder changes shows the folders of its end. -/
theorem shows_quiet (hw : Follows w) (hquiet : Relation.ReflTransGen (Quiet paths) w w') {n : Nat}
    (hn : w.page.sessionsRequest < n) : (w'.requests n).Shows paths w'.disk := by
  refine System.stretch_keeps (I := fun w => (w.requests n).Shows paths w.disk) ?_ hquiet ?_
  · rintro w w' hshows ⟨⟨hstep, -⟩, hdisk⟩
    show (w'.requests n).Shows paths w'.disk
    rw [hdisk]
    rcases shows_step hstep n with hkept | hsent
    · exact hkept w.disk hshows
    · exact hsent
  · rw [hw.unasked n hn]
    exact nofun

/-- **The list is the last one asked for, and the choice goes with it.** In every run whose
    clicks go to what is listed: something is chosen as soon as something is listed, and it is
    either a recording of the list or a file from elsewhere. Once the last request is answered,
    the page shows its answer, whatever comes in behind it; with no edit waiting for its timer
    it is the answer for the folder that is set, and it is what that folder holds if no folder
    has changed since before it was asked for. An answer that comes in leaves what is to be
    transcribed alone as long as it has it; otherwise the newest recording is chosen. -/
theorem recordings_follow (hw : ((system paths).restrict Drawn).Reachable w)
    (hquiet : Relation.ReflTransGen (Quiet paths) w w') :
    Stands w'.page ∧ (w'.page.sessions ≠ [] → w'.page.selectedAudioPath ≠ []) ∧
      (∀ outputDir found, w'.requests w'.page.sessionsRequest = .returned outputDir (.ok found) →
        w'.page.sessions = found ∧
          (w'.sessionsTimer = false → outputDir = outputDirSetting w'.page.outputDir) ∧
          (w.page.sessionsRequest < w'.page.sessionsRequest →
            found = listOutputSessions paths w'.disk outputDir)) ∧
      ∀ n outputDir found, w'.requests n = .answered outputDir (.ok found) →
        (w'.page.Keeps found →
          (w'.page.onSessions n (.ok found)).selectedAudioPath = w'.page.selectedAudioPath) ∧
        (¬w'.page.Keeps found → n = w'.page.sessionsRequest →
          (w'.page.onSessions n (.ok found)).selectedSession = found.head? ∧
            ∀ newest, found.head? = some newest →
              ∀ session ∈ found, session.modifiedTime ≤ newest.modifiedTime) := by
  obtain ⟨hstands, hfollows, hshows⟩ := reachable_follows (reachable_quiet hw hquiet)
  refine ⟨hstands, hstands.selectedAudioPath_ne_nil, fun outputDir found hlast => ?_,
    fun n outputDir found hat => ⟨fun hkeeps => ?_, fun hdrops hlast => ?_⟩⟩
  · refine ⟨hfollows.latest outputDir found hlast, fun hoff => ?_, fun hlt => ?_⟩
    · refine hfollows.folder hoff outputDir ?_
      rw [hlast]
      rfl
    · have hnow := shows_quiet (reachable_follows hw).2.1 hquiet hlt
      rw [hlast] at hnow
      obtain ⟨_, hdir, hfound⟩ := hnow found rfl
      obtain rfl := Option.some.inj hdir
      exact hfound
  · exact hstands.selectedAudioPath_onSessions hkeeps n
  · subst hlast
    refine ⟨selectedSession_drops hdrops, fun newest hnewest => ?_⟩
    obtain ⟨disk, hdisk⟩ := hshows w'.page.sessionsRequest
    rw [hat] at hdisk
    obtain ⟨_, _, rfl⟩ := hdisk found rfl
    exact list_newest hnewest

/-- A folder with a recording of the given time in it. -/
def meeting (name : Path) (time : Nat) (named : IsName name) : Entry Nat :=
  { name, isDir := true, audio := some time, named }

def monday : Entry Nat := meeting "monday".toList 1 ⟨by decide, by decide, by decide, by decide⟩

def tuesday : Entry Nat := meeting "tuesday".toList 2 ⟨by decide, by decide, by decide, by decide⟩

theorem list_meeting (outputDir name : Path) (time : Nat) (named : IsName name) :
    ∃ session, list outputDir (some [meeting name time named]) = [session] ∧
      session.id = push outputDir name ∧ session.name = name :=
  ⟨_, List.mergeSort_singleton _, rfl, rfl⟩

/-- The page comes up, and lists the only recording. -/
theorem recordings_follow_monday :
    ∃ w : Tab Nat, ((system Output.dataRoot).restrict Drawn).Reachable w ∧
      w.page.sessions.map (·.name) = ["monday".toList] ∧ w.page.selectedAudioPath ≠ [] := by
  have hstart := System.Reachable.start (S := (system Output.dataRoot).restrict Drawn)
    ⟨fun _ => some [monday], rfl⟩
  have hquiet := Relation.ReflTransGen.refl (r := Quiet Output.dataRoot)
    (a := Tab.start fun _ => some [monday])
  have hquiet := hquiet.tail ⟨⟨.init [] rfl, nofun⟩, rfl⟩
  have hquiet := hquiet.tail ⟨⟨.serve 1 _ rfl, nofun⟩, rfl⟩
  have hquiet := hquiet.tail ⟨⟨.reply 1 _ _ rfl, nofun⟩, rfl⟩
  have hfollow := recordings_follow hstart hquiet
  have hlist := (hfollow.2.2.1 _ _ rfl).1
  obtain ⟨session, hsession, -, hname⟩ := list_meeting
    (Output.dataRoot.inDataRoot "outputs".toList) "monday".toList 1 monday.named
  have hlist := hlist.trans hsession
  refine ⟨_, reachable_quiet hstart hquiet, ?_, hfollow.2.1 ?_⟩
  · rw [hlist, List.map_singleton, hname]
  · rw [hlist]
    exact List.cons_ne_nil _ _

/-- A refresh with nothing between it and its answer. -/
theorem reachable_refreshed (hw : (system paths).Reachable w) :
    ∃ w', (system paths).Reachable w' ∧ w'.drawn = w.drawn ∧
      w'.page.outputDir = w.page.outputDir ∧
      w'.page.sessions = listOutputSessions paths w.disk (outputDirSetting w.page.outputDir) := by
  have hasked := hw.next .refresh
  have hserved := hasked.next (.serve (w.page.sessionsRequest + 1) _ (Function.update_self ..))
  have hreplied := hserved.next (.reply (w.page.sessionsRequest + 1) _ _ (Function.update_self ..))
  refine ⟨_, hreplied, rfl, ?_, ?_⟩
  · exact (onSessions_frame w.page.refreshSessions _ _).2
  · exact onSessions_sessions w.page.refreshSessions _

/-- **A click that a list overtakes**: the recording is drawn, a list without it arrives, and the
    click is on its way. What is chosen is not listed: there is a list, and nothing to
    transcribe. -/
theorem click_overtaken :
    ∃ w : Tab Nat, (system Output.dataRoot).Reachable w ∧ w.page.sessions ≠ [] ∧
      w.page.selectedAudioPath = [] := by
  have h := System.Reachable.start (S := system Output.dataRoot) ⟨fun _ => some [monday], rfl⟩
  obtain ⟨w, h, -, houtput, hmonday⟩ := reachable_refreshed h
  obtain ⟨item, hitem, hid, -⟩ := list_meeting
    (Output.dataRoot.inDataRoot "outputs".toList) "monday".toList 1 monday.named
  have hlist := hmonday.trans hitem
  have h := h.next .draw
  have h := h.next (.write fun _ => some [tuesday])
  obtain ⟨w', h, hdrawn, -, htuesday⟩ := reachable_refreshed h
  obtain ⟨other, hother, hid', -⟩ := list_meeting
    (Output.dataRoot.inDataRoot "outputs".toList) "tuesday".toList 2 tuesday.named
  have hlist' : w'.page.sessions = [other] := by
    rw [htuesday, ← hother]
    dsimp only
    rw [houtput]
    rfl
  -- the list has come, its drawing has not
  have hshown : item ∈ w'.drawn := by
    rw [hdrawn]
    dsimp only
    rw [hlist]
    exact List.mem_singleton_self item
  refine ⟨_, h.next (.click item hshown), ?_, ?_⟩
  · show w'.page.sessions ≠ []
    rw [hlist']
    exact List.cons_ne_nil _ _
  · have hne : other.id ≠ item.id := by
      rw [hid, hid']
      decide
    have hnone : (w'.page.select item.id).selectedSession = none := by
      show w'.page.sessions.find? (fun session => session.id = item.id) = none
      rw [hlist']
      exact List.find?_eq_none.mpr fun session hmem heq =>
        hne (List.mem_singleton.mp hmem ▸ of_decide_eq_true heq)
    show (w'.page.select item.id).selectedAudioPath = []
    rw [Page.selectedAudioPath, hnone]
    rfl

end Recordings
end Ui
end LocalMeetingStt
