import LocalMeetingStt.Jobs.Closing
import LocalMeetingStt.Ui.Jobs

/-!
# The Download button and the download it speaks for

A click asks for a start or for a stop, whichever the page believes to be due; the page
learns what runs from `asset-download-event` alone. Behind it stand the thread that has
accepted a start and announces it, the readers of the child's output, the thread that
waits for the child, and the stops. Each says what it says when it comes to it, and what it
says is a while on its way.

What an entry of the page will be is decided by what is on its way and what is still to be
said (`awaited`). `button_agrees` says that this entry is running exactly while the table of
downloads has the asset. One kind of step is left out of it: a start that is accepted when the
download before it has left the table and not said so yet (`Orderly`). `exit_overtakes` is the
run in which a second click is so late, and the page takes a download for paused that runs.
-/

namespace LocalMeetingStt
namespace Ui
namespace Downloads

open Jobs (startDownload endDownload startDownload_accepted startDownload_refused)
open Transition

/-! ## The page's side (`app.js`) -/

/-- What `asset-download-event` brings. -/
inductive AssetEvent where
  | start (assetId label : Text)
  | progress (assetId : Text) (percent : Nat) (text : Text)
  | exit (assetId : Text) (code : Option Int)
deriving DecidableEq

def AssetEvent.assetId : AssetEvent → Text
  | .start assetId _ | .progress assetId _ _ | .exit assetId _ => assetId

/-- An entry of `state.downloads`. -/
structure Shown where
  running : Bool
  percent : Nat
  text : Text
  exitCode : Option (Option Int)
deriving DecidableEq

/-- `state.downloads` -/
abbrev Page := Text → Option Shown

def exitText (code : Option Int) : Text := if code = some 0 then "Done".toList else "Paused".toList

/-- What an event makes of the entry of its asset. -/
def Shown.after (current : Option Shown) : AssetEvent → Shown
  | .start _ _ => ⟨true, 1, "Starting".toList, none⟩
  | .progress _ percent text =>
    { running := (current.map (·.running)).getD true, percent, text
      exitCode := current.bind (·.exitCode) }
  | .exit _ code =>
    { running := false
      percent := if code = some 0 then 100 else (current.map (·.percent)).getD 0
      text := exitText code
      exitCode := some code }

def Page.onAssetEvent (page : Page) (event : AssetEvent) : Page :=
  Function.update page event.assetId (some (Shown.after (page event.assetId) event))

/-- `state.downloads[assetId]?.running` -/
def Page.isRunning (page : Page) (assetId : Text) : Bool :=
  (page assetId).any (·.running)

/-! ## The backend's side (`jobs.rs`) -/

/-- What `start_download` says before it reads anything. -/
def announcement (assetId label : Text) : List AssetEvent :=
  [.start assetId label, .progress assetId 1 "Starting".toList]

/-- What the waiter says when it has taken the asset from the table. -/
def farewell (assetId : Text) (code : Option Int) : List AssetEvent :=
  (if code = some 0 then [.progress assetId 100 "Done".toList] else []) ++ [.exit assetId code]

/-- Where a `stop_download` call stands. -/
inductive StopPc where
  | idle
  /-- The request is on its way. -/
  | asked (assetId : Text)
  /-- Inside `kill_tree`. -/
  | killing (assetId : Text) (pid : Nat)
  | killed (assetId : Text)
  | returned
deriving DecidableEq

structure Desk where
  page : Page
  /-- The events on their way, in order. -/
  channel : List AssetEvent
  /-- The start requests on their way. -/
  starts : List Text
  stops : Nat → StopPc
  state : Jobs.State
  /-- What is left of the announcement of an asset in the table. -/
  toAnnounce : Text → List AssetEvent
  /-- What the waiters of an asset that has left the table have still to say. -/
  leaving : Text → List (List AssetEvent)

def Desk.start : Desk where
  page _ := none
  channel := []
  starts := []
  stops _ := .idle
  state := .new
  toAnnounce _ := []
  leaving _ := []

namespace Desk

def emit (w : Desk) (event : AssetEvent) : Desk := { w with channel := w.channel ++ [event] }

def setStop (w : Desk) (n : Nat) (pc : StopPc) : Desk :=
  { w with stops := Function.update w.stops n pc }

def setAnnounce (w : Desk) (assetId : Text) (events : List AssetEvent) : Desk :=
  { w with toAnnounce := Function.update w.toAnnounce assetId events }

def setLeaving (w : Desk) (assetId : Text) (waiters : List (List AssetEvent)) : Desk :=
  { w with leaving := Function.update w.leaving assetId waiters }

/-- The pid of an asset's download. -/
def download (w : Desk) (assetId : Text) : Option Nat := w.state.downloads.lookup assetId

end Desk

/-- Any one thing that happens. -/
inductive Step (w : Desk) : Desk → Prop
  /-- `toggleDownload` or `downloadMissing`, of an asset that does not run on the page. -/
  | clickStart (assetId : Text) (shown : w.page.isRunning assetId = false) :
      Step w { w with starts := w.starts ++ [assetId] }
  | clickStop (n : Nat) (assetId : Text) (shown : w.page.isRunning assetId = true)
      (at_ : w.stops n = .idle) : Step w (w.setStop n (.asked assetId))
  | refuse (assetId executable : Text) (child : Except Text Nat) (asked : assetId ∈ w.starts)
      (refused : (startDownload w.state assetId executable child).2 ≠ .ok true) :
      Step w { w with
        starts := w.starts.erase assetId
        state := (startDownload w.state assetId executable child).1 }
  | accept (assetId executable label : Text) (pid : Nat) (asked : assetId ∈ w.starts)
      (accepted : (startDownload w.state assetId executable (.ok pid)).2 = .ok true) :
      Step w { w.setAnnounce assetId (announcement assetId label) with
        starts := w.starts.erase assetId
        state := (startDownload w.state assetId executable (.ok pid)).1 }
  | announce (assetId : Text) (event : AssetEvent) (events : List AssetEvent)
      (at_ : w.toAnnounce assetId = event :: events) :
      Step w ((w.emit event).setAnnounce assetId events)
  /-- A line of the child's output that is one of its progress. -/
  | read (assetId : Text) (pid percent : Nat) (text : Text)
      (running : w.download assetId = some pid) (at_ : w.toAnnounce assetId = []) :
      Step w (w.emit (.progress assetId percent text))
  | ends (assetId : Text) (pid : Nat) (code : Option Int)
      (running : w.download assetId = some pid) (at_ : w.toAnnounce assetId = []) :
      Step w { w.setLeaving assetId (w.leaving assetId ++ [farewell assetId code]) with
        state := endDownload w.state assetId }
  | leave (assetId : Text) (front back : List (List AssetEvent)) (event : AssetEvent)
      (events : List AssetEvent)
      (at_ : w.leaving assetId = front ++ (event :: events) :: back) :
      Step w ((w.emit event).setLeaving assetId
        (front ++ (if events = [] then [] else [events]) ++ back))
  | stopAbsent (n : Nat) (assetId : Text) (at_ : w.stops n = .asked assetId)
      (absent : w.download assetId = none) : Step w (w.setStop n .returned)
  | stopFinds (n : Nat) (assetId : Text) (pid : Nat) (at_ : w.stops n = .asked assetId)
      (found : w.download assetId = some pid) : Step w (w.setStop n (.killing assetId pid))
  | killFails (n : Nat) (assetId : Text) (pid : Nat) (at_ : w.stops n = .killing assetId pid) :
      Step w (w.setStop n .returned)
  | kills (n : Nat) (assetId : Text) (pid : Nat) (at_ : w.stops n = .killing assetId pid) :
      Step w (w.setStop n (.killed assetId))
  | paused (n : Nat) (assetId : Text) (at_ : w.stops n = .killed assetId) :
      Step w ((w.emit (.progress assetId 0 "Paused".toList)).setStop n .returned)
  | deliver (event : AssetEvent) (events : List AssetEvent) (at_ : w.channel = event :: events) :
      Step w { w with channel := events, page := w.page.onAssetEvent event }

def system : System Desk where
  init w := w = .start
  next := Step

/-- A start is accepted only when the download before it has said that it is over. -/
def Orderly (w w' : Desk) : Prop :=
  ∀ assetId, w.download assetId = none → w'.download assetId ≠ none → w.leaving assetId = []

/-! ## What an event does to the switch of an entry -/

/-- What there is of an entry to a button: none yet, or running or not. -/
def flag (current : Option Bool) : AssetEvent → Option Bool
  | .start _ _ => some true
  | .progress _ _ _ => some (current.getD true)
  | .exit _ _ => some false

def Page.switch (page : Page) (assetId : Text) : Option Bool :=
  (page assetId).map (·.running)

/-- The events of one asset. -/
def eventsOf (assetId : Text) (events : List AssetEvent) : List AssetEvent :=
  events.filter fun event => event.assetId = assetId

theorem eventsOf_append (assetId : Text) (events events' : List AssetEvent) :
    eventsOf assetId (events ++ events') = eventsOf assetId events ++ eventsOf assetId events' :=
  List.filter_append events events'

theorem eventsOf_cons_self (event : AssetEvent) (events : List AssetEvent) :
    eventsOf event.assetId (event :: events) = event :: eventsOf event.assetId events :=
  List.filter_cons_of_pos (decide_eq_true rfl)

theorem eventsOf_cons_ne {assetId : Text} {event : AssetEvent} (h : event.assetId ≠ assetId)
    (events : List AssetEvent) : eventsOf assetId (event :: events) = eventsOf assetId events :=
  List.filter_cons_of_neg (by simpa using h)

theorem isRunning_iff (page : Page) (assetId : Text) :
    page.isRunning assetId = true ↔ page.switch assetId = some true := by
  unfold Page.isRunning Page.switch
  cases page assetId <;> simp

theorem switch_onAssetEvent_self (page : Page) (event : AssetEvent) :
    (page.onAssetEvent event).switch event.assetId = flag (page.switch event.assetId) event := by
  unfold Page.switch Page.onAssetEvent
  rw [Function.update_self]
  cases event <;> rfl

theorem switch_onAssetEvent_ne {page : Page} {event : AssetEvent} {assetId : Text}
    (h : event.assetId ≠ assetId) :
    (page.onAssetEvent event).switch assetId = page.switch assetId := by
  unfold Page.switch Page.onAssetEvent
  rw [Function.update_of_ne (Ne.symm h)]

/-- A progress changes no switch that is there. -/
theorem flag_progress {current : Option Bool} (h : current.isSome = true) (assetId : Text)
    (percent : Nat) (text : Text) : flag current (.progress assetId percent text) = current := by
  obtain ⟨running, rfl⟩ := Option.isSome_iff_exists.mp h
  rfl

theorem flag_isSome (current : Option Bool) (event : AssetEvent) :
    (flag current event).isSome = true := by
  cases event <;> rfl

theorem foldl_flag_isSome {current : Option Bool} (h : current.isSome = true)
    (events : List AssetEvent) : (events.foldl flag current).isSome = true := by
  induction events generalizing current with
  | nil => exact h
  | cons event events ih => exact ih (flag_isSome current event)

/-! ## What the entry of an asset will be -/

namespace Desk

/-- The switch of an entry when all that is on its way is delivered. -/
def delivered (w : Desk) (assetId : Text) : Option Bool :=
  (eventsOf assetId w.channel).foldl flag (w.page.switch assetId)

/-- What is still to be said about an asset. -/
def unsaid (w : Desk) (assetId : Text) : List AssetEvent :=
  w.toAnnounce assetId ++ (w.leaving assetId).flatten

/-- The switch when that is said and delivered, too. -/
def awaited (w : Desk) (assetId : Text) : Option Bool :=
  (w.unsaid assetId).foldl flag (w.delivered assetId)

end Desk

def StopPc.assetId : StopPc → Option Text
  | .asked assetId | .killing assetId _ | .killed assetId => some assetId
  | .idle | .returned => none

/-- What holds about one asset, whatever happens. -/
structure Agrees (w : Desk) (assetId : Text) : Prop where
  alone : w.leaving assetId = [] ∨
    w.download assetId = none ∧ ∃ events, w.leaving assetId = [events]
  announced : w.download assetId = none → w.toAnnounce assetId = []
  announcing : ∀ event ∈ w.toAnnounce assetId, event.assetId = assetId
  farewells : ∀ events ∈ w.leaving assetId, ∀ event ∈ events, event.assetId = assetId
  awaited : w.awaited assetId = some true ↔ (w.download assetId).isSome = true
  stops : ∀ n, (w.stops n).assetId = some assetId → (w.page.switch assetId).isSome = true

theorem agrees_start (assetId : Text) : Agrees .start assetId where
  alone := .inl rfl
  announced _ := rfl
  announcing := nofun
  farewells := nofun
  awaited := by
    constructor
    · intro h
      cases h
    · intro h
      cases h
  stops _ h := by cases h

/-- Nothing about the asset has changed, but that a stop of it may be over. -/
structure Frame (assetId : Text) (w w' : Desk) : Prop where
  switch : w'.page.switch assetId = w.page.switch assetId
  channel : eventsOf assetId w'.channel = eventsOf assetId w.channel
  announce : w'.toAnnounce assetId = w.toAnnounce assetId
  leaving : w'.leaving assetId = w.leaving assetId
  download : w'.download assetId = w.download assetId
  stops : ∀ n, (w'.stops n).assetId = some assetId → ∃ m, (w.stops m).assetId = some assetId

variable {w w' : Desk} {assetId : Text}

theorem Agrees.frame (h : Agrees w assetId) (hframe : Frame assetId w w') : Agrees w' assetId := by
  obtain ⟨hswitch, hchannel, hannounce, hleaving, hdownload, hstops⟩ := hframe
  refine ⟨?_, ?_, ?_, ?_, ?_, ?_⟩
  · rw [hleaving, hdownload]
    exact h.alone
  · rw [hannounce, hdownload]
    exact h.announced
  · rw [hannounce]
    exact h.announcing
  · rw [hleaving]
    exact h.farewells
  · have hawaited : w'.awaited assetId = w.awaited assetId := by
      rw [Desk.awaited, Desk.unsaid, Desk.delivered, hswitch, hchannel, hannounce, hleaving]
      rfl
    rw [hawaited, hdownload]
    exact h.awaited
  · intro n hn
    obtain ⟨m, hm⟩ := hstops n hn
    rw [hswitch]
    exact h.stops m hm

/-- A stop that goes on, or is over. -/
theorem stops_setStop {n : Nat} {pc : StopPc}
    (hpc : pc.assetId = some assetId → (w.stops n).assetId = some assetId) :
    ∀ m, ((w.setStop n pc).stops m).assetId = some assetId →
      ∃ m, (w.stops m).assetId = some assetId := by
  intro m hm
  unfold Desk.setStop at hm
  dsimp only at hm
  by_cases heq : m = n
  · subst heq
    rw [Function.update_self] at hm
    exact ⟨m, hpc hm⟩
  · rw [Function.update_of_ne heq] at hm
    exact ⟨m, hm⟩

theorem frame_setStop {n : Nat} {pc : StopPc}
    (hpc : pc.assetId = some assetId → (w.stops n).assetId = some assetId) :
    Frame assetId w (w.setStop n pc) :=
  ⟨rfl, rfl, rfl, rfl, rfl, stops_setStop hpc⟩

theorem eventsOf_emit_ne {event : AssetEvent} (h : event.assetId ≠ assetId) :
    eventsOf assetId (w.channel ++ [event]) = eventsOf assetId w.channel := by
  rw [eventsOf_append, eventsOf_cons_ne h]
  exact List.append_nil _

/-- What is said about the asset comes last. -/
theorem delivered_emit {event : AssetEvent} (h : event.assetId = assetId) :
    (w.emit event).delivered assetId = flag (w.delivered assetId) event := by
  subst h
  unfold Desk.delivered Desk.emit
  dsimp only
  rw [eventsOf_append, eventsOf_cons_self, List.foldl_append]
  rfl

/-- What is said about one asset says nothing about another. -/
theorem frame_emit_ne {event : AssetEvent} (h : event.assetId ≠ assetId) :
    Frame assetId w (w.emit event) :=
  ⟨rfl, eventsOf_emit_ne h, rfl, rfl, rfl, fun n hn => ⟨n, hn⟩⟩

theorem Frame.trans {w'' : Desk} (h : Frame assetId w w') (h' : Frame assetId w' w'') :
    Frame assetId w w'' := by
  refine ⟨h'.switch.trans h.switch, h'.channel.trans h.channel, h'.announce.trans h.announce,
    h'.leaving.trans h.leaving, h'.download.trans h.download, fun n hn => ?_⟩
  obtain ⟨m, hm⟩ := h'.stops n hn
  exact h.stops m hm

theorem frame_setAnnounce_ne {other : Text} (h : other ≠ assetId) (events : List AssetEvent) :
    Frame assetId w (w.setAnnounce other events) :=
  ⟨rfl, rfl, Function.update_of_ne (Ne.symm h) .., rfl, rfl, fun n hn => ⟨n, hn⟩⟩

theorem frame_setLeaving_ne {other : Text} (h : other ≠ assetId)
    (waiters : List (List AssetEvent)) : Frame assetId w (w.setLeaving other waiters) :=
  ⟨rfl, rfl, rfl, Function.update_of_ne (Ne.symm h) .., rfl, fun n hn => ⟨n, hn⟩⟩

/-! ## What is said about the asset itself -/

/-- While the asset is in the table, no waiter of it has anything to say. -/
theorem Agrees.leaving_nil (h : Agrees w assetId) {pid : Nat}
    (hrunning : w.download assetId = some pid) : w.leaving assetId = [] := by
  rcases h.alone with hnil | ⟨hnone, -⟩
  · exact hnil
  · rw [hrunning] at hnone
    cases hnone

/-- A progress of the download that runs. -/
theorem Agrees.read (h : Agrees w assetId) {pid : Nat} (hrunning : w.download assetId = some pid)
    (hannounced : w.toAnnounce assetId = []) (percent : Nat) (text : Text) :
    Agrees (w.emit (.progress assetId percent text)) assetId := by
  have hleaving := h.leaving_nil hrunning
  have htrue : w.awaited assetId = some true := by
    rw [h.awaited, hrunning]
    rfl
  refine ⟨h.alone, h.announced, h.announcing, h.farewells, ?_, h.stops⟩
  have hsame : (w.emit (.progress assetId percent text)).awaited assetId = some true := by
    have hunsaid : w.unsaid assetId = [] := by
      rw [Desk.unsaid, hannounced, hleaving]
      rfl
    have hdelivered : w.delivered assetId = some true := by
      rwa [Desk.awaited, hunsaid] at htrue
    have hemit : (w.emit (.progress assetId percent text)).delivered assetId = some true := by
      have hevent : (AssetEvent.progress assetId percent text).assetId = assetId := rfl
      rw [delivered_emit hevent, hdelivered]
      rfl
    rw [Desk.awaited, hemit]
    show (w.unsaid assetId).foldl flag _ = _
    rw [hunsaid]
    rfl
  rw [hsame]
  exact iff_of_true rfl (Option.isSome_iff_exists.mpr ⟨pid, hrunning⟩)

/-- The announcement goes on. -/
theorem Agrees.announce (h : Agrees w assetId) {event : AssetEvent} {events : List AssetEvent}
    (hannounce : w.toAnnounce assetId = event :: events) :
    Agrees ((w.emit event).setAnnounce assetId events) assetId := by
  have hevent : event.assetId = assetId := h.announcing event (by
    rw [hannounce]
    exact List.mem_cons_self)
  have hself : ((w.emit event).setAnnounce assetId events).toAnnounce assetId = events :=
    Function.update_self ..
  refine ⟨h.alone, fun hnone => ?_, fun e he => ?_, h.farewells, ?_, h.stops⟩
  · have := h.announced hnone
    rw [hannounce] at this
    cases this
  · rw [hself] at he
    refine h.announcing e ?_
    rw [hannounce]
    exact .tail event he
  · have hsame : ((w.emit event).setAnnounce assetId events).awaited assetId =
        w.awaited assetId := by
      rw [Desk.awaited, Desk.unsaid, hself, Desk.awaited, Desk.unsaid, hannounce,
        List.cons_append, List.foldl_cons, ← delivered_emit hevent]
      rfl
    rw [hsame]
    exact h.awaited

/-- A start is accepted. -/
theorem Agrees.accept (h : Agrees w assetId) {executable : Text} {pid : Nat} (label : Text)
    (haccepted : (startDownload w.state assetId executable (.ok pid)).2 = .ok true)
    (hleaving : w.leaving assetId = []) :
    Agrees { w.setAnnounce assetId (announcement assetId label) with
      starts := w.starts.erase assetId
      state := (startDownload w.state assetId executable (.ok pid)).1 } assetId := by
  obtain ⟨hnone, hstate⟩ := startDownload_accepted haccepted
  rw [hstate]
  set w' : Desk := { w.setAnnounce assetId (announcement assetId label) with
    starts := w.starts.erase assetId
    state := { w.state with downloads := w.state.downloads.insert assetId pid } } with hw'
  have hself : w'.toAnnounce assetId = announcement assetId label := Function.update_self ..
  have hdownload : w'.download assetId = some pid := AList.lookup_insert _
  refine ⟨.inl hleaving, fun hnone => ?_, fun e he => ?_, h.farewells, ?_, h.stops⟩
  · rw [hdownload] at hnone
    cases hnone
  · rw [hself] at he
    rcases List.mem_cons.mp he with rfl | he
    · rfl
    · rw [List.mem_singleton.mp he]
      rfl
  · have hawaited : w'.awaited assetId = some true := by
      have hnil : w'.leaving assetId = [] := hleaving
      rw [Desk.awaited, Desk.unsaid, hself, hnil, List.flatten_nil, List.append_nil]
      rfl
    rw [hawaited, hdownload]
    exact iff_of_true rfl rfl

theorem farewell_flag (assetId : Text) (code : Option Int) (current : Option Bool) :
    (farewell assetId code).foldl flag current = some false := by
  unfold farewell
  rw [List.foldl_append]
  rfl

theorem farewell_assetId {code : Option Int} {event : AssetEvent}
    (h : event ∈ farewell assetId code) : event.assetId = assetId := by
  unfold farewell at h
  rcases List.mem_append.mp h with h | h
  · split_ifs at h
    · rw [List.mem_singleton.mp h]
      rfl
    · cases h
  · rw [List.mem_singleton.mp h]
    rfl

/-- The child has ended, and the asset leaves the table. -/
theorem Agrees.ends (h : Agrees w assetId) {pid : Nat} (hrunning : w.download assetId = some pid)
    (hannounced : w.toAnnounce assetId = []) (code : Option Int) :
    Agrees { w.setLeaving assetId (w.leaving assetId ++ [farewell assetId code]) with
      state := endDownload w.state assetId } assetId := by
  rw [h.leaving_nil hrunning, List.nil_append]
  set w' : Desk := { w.setLeaving assetId [farewell assetId code] with
    state := endDownload w.state assetId } with hw'
  have hself : w'.leaving assetId = [farewell assetId code] := Function.update_self ..
  have hdownload : w'.download assetId = none := AList.lookup_erase _ _
  refine ⟨.inr ⟨hdownload, _, hself⟩, fun _ => hannounced, h.announcing, ?_, ?_, h.stops⟩
  · intro events hevents event hevent
    rw [hself] at hevents
    rw [List.mem_singleton.mp hevents] at hevent
    exact farewell_assetId hevent
  · have hawaited : w'.awaited assetId = some false := by
      have hnil : w'.toAnnounce assetId = [] := hannounced
      rw [Desk.awaited, Desk.unsaid, hself, hnil, List.nil_append, List.flatten_singleton,
        farewell_flag]
    rw [hawaited, hdownload]
    exact iff_of_false nofun nofun

/-- The waiter says the next of its farewell. -/
theorem Agrees.leave (h : Agrees w assetId) {front back : List (List AssetEvent)}
    {event : AssetEvent} {events : List AssetEvent}
    (hleaving : w.leaving assetId = front ++ (event :: events) :: back) :
    Agrees ((w.emit event).setLeaving assetId
      (front ++ (if events = [] then [] else [events]) ++ back)) assetId := by
  obtain ⟨hnone, only, honly⟩ : w.download assetId = none ∧ ∃ only, w.leaving assetId = [only] := by
    rcases h.alone with hnil | halone
    · rw [hnil] at hleaving
      simp at hleaving
    · exact halone
  -- there is one waiter
  obtain ⟨rfl, rfl, rfl⟩ : front = [] ∧ back = [] ∧ only = event :: events := by
    rw [honly] at hleaving
    cases front with
    | nil => simp_all
    | cons f front => simp at hleaving
  have hevent : event.assetId = assetId := h.farewells (event :: events) (by
    rw [honly]
    exact List.mem_cons_self) event List.mem_cons_self
  rw [List.nil_append, List.append_nil]
  set w' : Desk := (w.emit event).setLeaving assetId (if events = [] then [] else [events]) with hw'
  have hself : w'.leaving assetId = if events = [] then [] else [events] :=
    Function.update_self ..
  have hflat : (w'.leaving assetId).flatten = events := by
    rw [hself]
    split_ifs with hnil
    · rw [hnil]
      rfl
    · exact List.append_nil events
  refine ⟨?_, h.announced, h.announcing, ?_, ?_, h.stops⟩
  · rw [hself]
    split_ifs
    · exact .inl rfl
    · exact .inr ⟨hnone, events, rfl⟩
  · intro es hes e he
    rw [hself] at hes
    split_ifs at hes
    · cases hes
    · rw [List.mem_singleton.mp hes] at he
      exact h.farewells (event :: events) (by
        rw [honly]
        exact List.mem_cons_self) e (.tail event he)
  · have hsame : w'.awaited assetId = w.awaited assetId := by
      have hnil := h.announced hnone
      have hnil' : w'.toAnnounce assetId = [] := hnil
      rw [Desk.awaited, Desk.unsaid, hflat, hnil', Desk.awaited, Desk.unsaid, hnil, honly,
        List.flatten_singleton, List.nil_append, List.nil_append, List.foldl_cons,
        ← delivered_emit hevent]
      rfl
    rw [hsame]
    exact h.awaited

/-- A stop says that the download is paused, wherever it stands by then. -/
theorem Agrees.paused (h : Agrees w assetId) {n : Nat}
    (hstop : (w.stops n).assetId = some assetId) (percent : Nat) (text : Text) :
    Agrees (w.emit (.progress assetId percent text)) assetId := by
  refine ⟨h.alone, h.announced, h.announcing, h.farewells, ?_, h.stops⟩
  have hsame : (w.emit (.progress assetId percent text)).awaited assetId = w.awaited assetId := by
    have hshown : (w.delivered assetId).isSome = true :=
      foldl_flag_isSome (h.stops n hstop) _
    have hevent : (AssetEvent.progress assetId percent text).assetId = assetId := rfl
    rw [Desk.awaited, delivered_emit hevent, flag_progress hshown]
    rfl
  rw [hsame]
  exact h.awaited

/-- The page gets the next event. -/
theorem Agrees.deliver (h : Agrees w assetId) {event : AssetEvent} {events : List AssetEvent}
    (hchannel : w.channel = event :: events) :
    Agrees { w with channel := events, page := w.page.onAssetEvent event } assetId := by
  by_cases hevent : event.assetId = assetId
  · subst hevent
    refine ⟨h.alone, h.announced, h.announcing, h.farewells, ?_, fun n _ => ?_⟩
    · have hsame : ({ w with channel := events, page := w.page.onAssetEvent event } : Desk).awaited
          event.assetId = w.awaited event.assetId := by
        rw [Desk.awaited, Desk.delivered, Desk.awaited, Desk.delivered, hchannel,
          eventsOf_cons_self, switch_onAssetEvent_self]
        rfl
      rw [hsame]
      exact h.awaited
    · dsimp only
      rw [switch_onAssetEvent_self]
      exact flag_isSome _ event
  · refine h.frame ⟨switch_onAssetEvent_ne hevent, ?_, rfl, rfl, rfl, fun n hn => ⟨n, hn⟩⟩
    dsimp only
    rw [hchannel, eventsOf_cons_ne hevent]

/-! ## Every step -/

theorem Agrees.step (hall : ∀ assetId, Agrees w assetId) (hstep : Step w w')
    (horderly : Orderly w w') (assetId : Text) : Agrees w' assetId := by
  have h := hall assetId
  cases hstep with
  | clickStart other shown =>
    exact h.frame ⟨rfl, rfl, rfl, rfl, rfl, fun n hn => ⟨n, hn⟩⟩
  | clickStop n other shown at_ =>
    refine ⟨h.alone, h.announced, h.announcing, h.farewells, h.awaited, fun m hm => ?_⟩
    change ((Function.update w.stops n (.asked other)) m).assetId = some assetId at hm
    by_cases heq : m = n
    · subst heq
      rw [Function.update_self] at hm
      obtain rfl := Option.some.inj hm
      show (w.page.switch other).isSome = true
      rw [(isRunning_iff w.page other).mp shown]
      rfl
    · rw [Function.update_of_ne heq] at hm
      exact h.stops m hm
  | refuse other executable child asked refused =>
    rw [startDownload_refused refused]
    exact h.frame ⟨rfl, rfl, rfl, rfl, rfl, fun n hn => ⟨n, hn⟩⟩
  | accept other executable label pid asked accepted =>
    by_cases heq : other = assetId
    · subst heq
      obtain ⟨habsent, hstate⟩ := startDownload_accepted accepted
      refine h.accept label accepted (horderly other habsent ?_)
      intro hnone
      change (startDownload w.state other executable (.ok pid)).1.downloads.lookup other = none
        at hnone
      rw [hstate] at hnone
      cases (AList.lookup_insert w.state.downloads).symm.trans hnone
    · refine h.frame ⟨rfl, rfl, Function.update_of_ne (Ne.symm heq) .., rfl, ?_,
        fun n hn => ⟨n, hn⟩⟩
      unfold Desk.download
      dsimp only
      rw [(startDownload_accepted accepted).2]
      exact AList.lookup_insert_ne (Ne.symm heq)
  | announce other event events at_ =>
    by_cases heq : other = assetId
    · subst heq
      exact h.announce at_
    · have hevent : event.assetId = other := (hall other).announcing event (by
        rw [at_]
        exact List.mem_cons_self)
      exact h.frame ((frame_emit_ne (hevent ▸ heq)).trans (frame_setAnnounce_ne heq events))
  | read other pid percent text running at_ =>
    by_cases heq : other = assetId
    · subst heq
      exact h.read running at_ percent text
    · have hevent : (AssetEvent.progress other percent text).assetId ≠ assetId := heq
      exact h.frame (frame_emit_ne hevent)
  | ends other pid code running at_ =>
    by_cases heq : other = assetId
    · subst heq
      exact h.ends running at_ code
    · refine h.frame ⟨rfl, rfl, rfl, Function.update_of_ne (Ne.symm heq) .., ?_,
        fun n hn => ⟨n, hn⟩⟩
      exact AList.lookup_erase_ne (Ne.symm heq)
  | leave other front back event events at_ =>
    by_cases heq : other = assetId
    · subst heq
      exact h.leave at_
    · have hmem : event :: events ∈ w.leaving other := by
        rw [at_]
        exact List.mem_append_right _ List.mem_cons_self
      have hevent : event.assetId = other :=
        (hall other).farewells _ hmem event List.mem_cons_self
      exact h.frame ((frame_emit_ne (hevent ▸ heq)).trans (frame_setLeaving_ne heq _))
  | stopAbsent n other at_ absent => exact h.frame (frame_setStop nofun)
  | stopFinds n other pid at_ found =>
    exact h.frame (frame_setStop fun hpc => by rw [at_]; exact hpc)
  | killFails n other pid at_ => exact h.frame (frame_setStop nofun)
  | kills n other pid at_ => exact h.frame (frame_setStop fun hpc => by rw [at_]; exact hpc)
  | paused n other at_ =>
    by_cases heq : other = assetId
    · subst heq
      have hstop : (w.stops n).assetId = some other := by
        rw [at_]
        rfl
      exact (h.paused hstop 0 "Paused".toList).frame (frame_setStop nofun)
    · have hevent : (AssetEvent.progress other 0 "Paused".toList).assetId ≠ assetId := heq
      exact h.frame ((frame_emit_ne hevent).trans (frame_setStop nofun))
  | deliver event events at_ => exact h.deliver at_

/-- **The button speaks for the download.** In every run whose starts are orderly: when what
    is on its way about an asset is delivered and what is to be said of it is said, its entry
    runs exactly while its download is in the table; a page that has nothing to wait for shows
    this already. And of one asset no two downloads run, not even the end of one and the start
    of the next. -/
theorem button_agrees (hw : (system.restrict Orderly).Reachable w) (assetId : Text) :
    (w.awaited assetId = some true ↔ (w.download assetId).isSome = true) ∧
      (eventsOf assetId w.channel = [] → w.unsaid assetId = [] →
        (w.page.isRunning assetId = true ↔ (w.download assetId).isSome = true)) ∧
      (w.leaving assetId = [] ∨
        w.download assetId = none ∧ ∃ events, w.leaving assetId = [events]) := by
  have hall : ∀ assetId, Agrees w assetId := by
    refine System.Inductive.reachable (I := fun w => ∀ assetId, Agrees w assetId) ⟨?_, ?_⟩ hw
    · rintro _ rfl
      exact agrees_start
    · intro w w' _ h hstep
      exact Agrees.step h hstep.1 hstep.2
  have h := hall assetId
  refine ⟨h.awaited, fun hchannel hunsaid => ?_, h.alone⟩
  rw [← h.awaited, isRunning_iff, Desk.awaited, hunsaid, Desk.delivered, hchannel]
  rfl


/-- A download that was clicked, announced and heard of. -/
theorem button_agrees_download :
    ∃ w, (system.restrict Orderly).Reachable w ∧ w.channel = [] ∧
      w.page.isRunning "sensevoice".toList = true ∧ w.download "sensevoice".toList = some 7 := by
  have h := System.Reachable.start (S := system.restrict Orderly) rfl
  have h := h.next ⟨.clickStart "sensevoice".toList rfl, fun _ _ hne => absurd rfl hne⟩
  have h := h.next ⟨.accept "sensevoice".toList "uv".toList "SenseVoice".toList 7
    (List.mem_singleton_self _) rfl, fun _ _ _ => rfl⟩
  have h := h.next ⟨.announce "sensevoice".toList _ _ rfl, fun _ _ _ => rfl⟩
  have h := h.next ⟨.announce "sensevoice".toList _ _ rfl, fun _ _ _ => rfl⟩
  have h := h.next ⟨.deliver _ _ rfl, fun _ _ _ => rfl⟩
  have h := h.next ⟨.deliver _ _ rfl, fun _ _ _ => rfl⟩
  have hagrees := (button_agrees h "sensevoice".toList).2.1 rfl rfl
  exact ⟨_, h, rfl, hagrees.mpr rfl, rfl⟩

/-- **The end of one download hides the next**: the page asks twice before it hears anything,
    the first download is over at once, and the second request is served before the waiter of
    the first has said so. Everything is delivered, the download runs, and the page offers to
    start it. -/
theorem exit_overtakes :
    ∃ w, system.Reachable w ∧ w.channel = [] ∧ w.unsaid "sensevoice".toList = [] ∧
      w.page.isRunning "sensevoice".toList = false ∧ w.download "sensevoice".toList = some 8 := by
  have h := System.Reachable.start (S := system) rfl
  have h := h.next (.clickStart "sensevoice".toList rfl)
  have h := h.next (.clickStart "sensevoice".toList rfl)
  have h := h.next (.accept "sensevoice".toList "uv".toList "SenseVoice".toList 7
    (List.mem_of_mem_head? rfl) rfl)
  have h := h.next (.announce "sensevoice".toList _ _ rfl)
  have h := h.next (.announce "sensevoice".toList _ _ rfl)
  have h := h.next (.ends "sensevoice".toList 7 none rfl rfl)
  -- not orderly
  have h := h.next (.accept "sensevoice".toList "uv".toList "SenseVoice".toList 8
    (List.mem_of_mem_head? rfl) rfl)
  have h := h.next (.announce "sensevoice".toList _ _ rfl)
  have h := h.next (.announce "sensevoice".toList _ _ rfl)
  have h := h.next (.leave "sensevoice".toList [] [] _ [] rfl)
  have h := h.next (.deliver _ _ rfl)
  have h := h.next (.deliver _ _ rfl)
  have h := h.next (.deliver _ _ rfl)
  have h := h.next (.deliver _ _ rfl)
  have h := h.next (.deliver _ _ rfl)
  exact ⟨_, h, rfl, rfl, rfl, rfl⟩

end Downloads
end Ui
end LocalMeetingStt
