import LocalMeetingStt.Captions.Page
import LocalMeetingStt.Jobs.Commands
import LocalMeetingStt.Lib.Transition

/-!
# The window and its one job (`app.js`)

Two channels write the same fields of the page. The `process-event` messages of a job come
in the order the backend sends them: `start`, its output, `exit`. The replies of
`run_command` and `stop_command` come on their own, at any moment after their calls: the
reply of `run` may find the job announced, or over, and the reply of a `stop` may find
the next job running.

The functions of the page come first, each as the source has it. `Window` puts next to the
page what is still on its way to it, and `Step` is any one thing that happens. `Stands` is
the invariant: of the combinations of phase, active job, launch and stage there are five
the window can be in, one constructor each. Every step leads from one of the five to one of
the five, and the theorem reads the four guarantees off them.

Of `state` only the fields of the one job are here, with the two queues and the transcript
they are written to; the clock (`Date.now()`) and the stamp of a local log line are
arguments.
-/

namespace LocalMeetingStt
namespace Ui

open Jobs (startsWith)
open Transition

/-! ## The page's state -/

inductive Phase where
  | idle
  | starting
  | running
  | stopping
  | stopped
  | complete
  | error
deriving DecidableEq, Repr

structure State where
  phase : Phase := .idle
  error : Text := []
  activeId : Option Nat := none
  activeKind : Text := []
  activeLabel : Text := []
  stoppingId : Option Nat := none
  launchPending : Bool := false
  startedAt : Option Nat := none
  endedAt : Option Nat := none
  lastKind : Text := []
  transcriptPath : Text := []
  savedAudioPath : Text := []
  captionQueue : List Update := []
  logQueue : List (Jobs.Stream × List Text) := []
  /-- The caption elements. -/
  transcript : Page := .empty
deriving DecidableEq

namespace State

def isRunning (s : State) : Bool :=
  s.activeId.isSome || s.phase = .starting || s.phase = .stopping

def setError (message : Text) (s : State) : State := { s with error := message }

def clearCaptions (s : State) : State := { s with captionQueue := [], transcript := .empty }

def clearLog (s : State) : State := { s with logQueue := [] }

/-- An animation frame: what is queued is written to the page. -/
def flushStreams (s : State) : State :=
  { s with
    transcript := s.transcript.flushStreams s.captionQueue
    captionQueue := [], logQueue := [] }

end State

/-- `text.split(/\r?\n/)`. -/
def splitLines : Text → List Text
  | [] => [[]]
  | '\r' :: '\n' :: rest => [] :: splitLines rest
  | '\n' :: rest => [] :: splitLines rest
  | c :: rest =>
    match splitLines rest with
    | [] => [[c]]
    | line :: lines => (c :: line) :: lines

def State.logLocal (stamp : Text) (stream : Jobs.Stream) (text : Text) (s : State) : State :=
  { s with
    logQueue := s.logQueue ++ [(stream,
      ((splitLines text).filter (· ≠ [])).map fun line => '[' :: stamp ++ "] ".toList ++ line)] }

/-! ## Events of the backend -/

/-- The text of `state.error` after an exit nobody asked for. -/
def exitError (code : Option Int) (lastError : Text) : Text :=
  if lastError = [] then
    "工作未完成（exit ".toList ++ (match code with
      | some code => (toString code).toList
      | none => "null".toList) ++ "）。請查看詳細資訊。".toList
  else lastError

def exitPhase (code : Option Int) (stopped : Bool) : Phase :=
  if stopped then .stopped else if code = some 0 then .complete else .error

def State.onProcessEvent (now : Nat) (s : State) : Jobs.Event → State
  | .start processId kind label _ =>
    if s.activeId = some processId then s
    else
      { s with
        activeId := some processId, activeKind := kind, activeLabel := label
        phase := .running, startedAt := some now, endedAt := none }
  -- Download output (process 0) always reaches the log; a stale job's never does.
  | .log processId stream lines =>
    if processId = 0 ∨ s.activeId = some processId then
      { s with logQueue := s.logQueue ++ [(stream, lines)] }
    else s
  | .captions processId update =>
    if s.activeId ≠ some processId then s
    else { s with captionQueue := s.captionQueue ++ [update] }
  | .transcriptPath processId path =>
    if s.activeId ≠ some processId then s else { s with transcriptPath := path }
  | .audioPath processId path =>
    if s.activeId ≠ some processId then s else { s with savedAudioPath := path }
  | .exit processId code stopped lastError =>
    if s.activeId ≠ some processId then s
    else
      let stopped := stopped || s.stoppingId = some processId
      { s with
        activeId := none, stoppingId := none, endedAt := some now
        lastKind := s.activeKind, activeKind := []
        phase := exitPhase code stopped
        error := if !stopped && code ≠ some 0 then exitError code lastError else s.error }

/-! ## The two commands -/

/-- What `Jobs::run` answers. -/
structure Started where
  processId : Nat
  label : Text
deriving DecidableEq, Repr

/-- `run` up to its `await`; nothing if it returns without calling the backend. -/
def State.run (kind : Text) (s : State) : Option State :=
  if s.launchPending = true ∨ s.activeId ≠ none then none
  else
    let s :=
      { s with
        launchPending := true, phase := .starting, error := [], startedAt := none
        endedAt := none }
    let s :=
      if startsWith kind "live-".toList = true ∨ startsWith kind "record-".toList = true then
        { s with savedAudioPath := [] }
      else s
    some (if startsWith kind "live-".toList then
      { s with transcriptPath := [] }.clearCaptions
    else s)

/-- `run` after its `await`: the adoption, the `catch` and the `finally`. -/
def State.runReply (now : Nat) (stamp kind : Text) (s : State) : Except Text Started → State
  | .ok started =>
    -- Events and replies travel separately; adopt the job if its start event is late.
    let s :=
      if s.activeId = none ∧ s.phase = .starting then
        { s with
          activeId := some started.processId, activeKind := kind, activeLabel := started.label
          phase := .running, startedAt := some now, endedAt := none }
      else s
    { s with launchPending := false }
  | .error message =>
    { { s with phase := .error, error := message }.logLocal stamp .stderr message with
      launchPending := false }

/-- `stop` up to its `await`: the job the backend is asked to stop, if any. -/
def State.stop (s : State) : Option (Nat × State) :=
  match s.activeId with
  | none => none
  | some processId =>
    if s.stoppingId = some processId then none
    else some (processId,
      { s with stoppingId := some processId, phase := .stopping, error := [] })

/-- The `catch` of `stop`. -/
def State.stopFailed (processId : Nat) (message : Text) (s : State) : State :=
  let s := { s with stoppingId := none }
  if s.activeId ≠ some processId then s
  else { s with phase := .running }.setError ("停止失敗：".toList ++ message)

/-- `stop` after its `await`. The exit event owns completion; success changes nothing. -/
def State.stopReply (processId : Nat) (s : State) : Except Text Bool → State
  | .ok stopped =>
    if stopped = false ∧ s.activeId = some processId then
      s.stopFailed processId "無法確認工作狀態，請查看詳細資訊。".toList
    else s
  | .error message => s.stopFailed processId message

/-! ## The window and what is on its way to it -/

/-- A `run_command` whose reply the page has not handled. -/
inductive Launch where
  | asked (kind : Text)
  | answered (kind : Text) (reply : Except Text Started)

/-- How far the page has come with the events of a job. -/
inductive Stage where
  /-- The backend has started it; its `start` has not arrived. -/
  | launched
  | announced
  /-- Its `exit` has been handled. -/
  | ended
deriving DecidableEq, Repr

structure Window where
  page : State
  launch : Option Launch
  stage : Nat → Option Stage
  /-- The `stop_command` calls without a reply, by the job they are for. -/
  stops : List Nat

/-- The process of an event between `start` and `exit`. -/
def outputOf : Jobs.Event → Option Nat
  | .start .. | .exit .. => none
  | .log processId _ _ | .captions processId _ | .audioPath processId _
  | .transcriptPath processId _ => some processId

/-- One thing that happens: the user acts, the backend decides, an event or a reply
    arrives, a frame is drawn. -/
inductive Step (w : Window) : Window → Prop
  | run {kind : Text} {page : State} (called : w.page.run kind = some page) :
      Step w { w with page, launch := some (.asked kind) }
  | accept {kind : Text} (started : Started) (asked : w.launch = some (.asked kind))
      (fresh : w.stage started.processId = none) :
      Step w { w with
        launch := some (.answered kind (.ok started))
        stage := Function.update w.stage started.processId (some .launched) }
  | refuse {kind : Text} (message : Text) (asked : w.launch = some (.asked kind)) :
      Step w { w with launch := some (.answered kind (.error message)) }
  | runReply {kind : Text} {reply : Except Text Started} (now : Nat) (stamp : Text)
      (answered : w.launch = some (.answered kind reply)) :
      Step w { w with page := w.page.runReply now stamp kind reply, launch := none }
  | start {id : Nat} (now : Nat) (kind label command : Text)
      (launched : w.stage id = some .launched) :
      Step w { w with
        page := w.page.onProcessEvent now (.start id kind label command)
        stage := Function.update w.stage id (some .announced) }
  | output {id : Nat} (now : Nat) {event : Jobs.Event} (ofJob : outputOf event = some id)
      (announced : w.stage id = some .announced) :
      Step w { w with page := w.page.onProcessEvent now event }
  | downloadLog (now : Nat) (stream : Jobs.Stream) (lines : List Text) :
      Step w { w with page := w.page.onProcessEvent now (.log 0 stream lines) }
  | exit {id : Nat} (now : Nat) (code : Option Int) (stopped : Bool) (lastError : Text)
      (announced : w.stage id = some .announced) :
      Step w { w with
        page := w.page.onProcessEvent now (.exit id code stopped lastError)
        stage := Function.update w.stage id (some .ended) }
  | stop {id : Nat} {page : State} (called : w.page.stop = some (id, page)) :
      Step w { w with page, stops := id :: w.stops }
  | stopReply {id : Nat} (result : Except Text Bool) (waiting : id ∈ w.stops) :
      Step w { w with page := w.page.stopReply id result, stops := w.stops.erase id }
  | setError (message : Text) : Step w { w with page := w.page.setError message }
  | clearLog : Step w { w with page := w.page.clearLog }
  | frame : Step w { w with page := w.page.flushStreams }

/-- The page as it opens, before any job. -/
def Window.init : Window := { page := {}, launch := none, stage := fun _ => none, stops := [] }

def system : System Window where
  init w := w = Window.init
  next := Step

/-! ## What the five fields can say -/

/-- The phases of a page whose job is over. -/
def Phase.Over (p : Phase) : Prop := p = .stopped ∨ p = .complete ∨ p = .error

/-- The phases of a page with a job. -/
def Phase.Busy (p : Phase) : Prop := p = .running ∨ p = .stopping

/-- Every job but `live` has ended. -/
def Window.Past (w : Window) (live : Option Nat) : Prop :=
  ∀ id, live ≠ some id → w.stage id = none ∨ w.stage id = some .ended

/-- The five ways the page, its launch and its jobs can stand to each other. -/
inductive Stands (w : Window) : Prop
  /-- Nothing is under way. -/
  | rest (launch : w.launch = none) (active : w.page.activeId = none)
      (phase : (w.page.phase = .idle ∧ ∀ id, w.stage id = none) ∨ w.page.phase.Over)
      (past : w.Past none)
  /-- `run` waits for an answer, or for the news that there is no job. -/
  | asking (launch : (∃ kind, w.launch = some (.asked kind)) ∨
        ∃ kind message, w.launch = some (.answered kind (.error message)))
      (active : w.page.activeId = none) (phase : w.page.phase = .starting) (past : w.Past none)
  /-- The job exists, and neither its `start` nor the reply has arrived. -/
  | launching {kind : Text} {started : Started}
      (launch : w.launch = some (.answered kind (.ok started)))
      (active : w.page.activeId = none) (phase : w.page.phase = .starting)
      (stage : w.stage started.processId = some .launched) (past : w.Past (some started.processId))
  /-- The page has the job, from the reply or from its `start`. -/
  | active {id : Nat} (active : w.page.activeId = some id) (phase : w.page.phase.Busy)
      (heard : (w.launch = none ∧ w.stage id = some .launched) ∨
        (w.stage id = some .announced ∧ (w.launch = none ∨
          ∃ kind started, w.launch = some (.answered kind (.ok started)) ∧
            started.processId = id)))
      (past : w.Past (some id))
  /-- The job was faster than the reply. -/
  | overtaken {kind : Text} {started : Started}
      (launch : w.launch = some (.answered kind (.ok started)))
      (active : w.page.activeId = none) (phase : w.page.phase.Over) (past : w.Past none)

structure Window.Inv (w : Window) : Prop where
  stands : Stands w
  pending : w.page.launchPending = w.launch.isSome

theorem inv_init : Window.init.Inv where
  stands := .rest rfl rfl (.inl ⟨rfl, fun _ => rfl⟩) fun _ _ => .inl rfl
  pending := rfl

/-! ## Steps that leave the five fields alone -/

/-- The fields of the page `Stands` looks at are the same. -/
structure SameJob (s s' : State) : Prop where
  phase : s'.phase = s.phase
  activeId : s'.activeId = s.activeId
  launchPending : s'.launchPending = s.launchPending

theorem SameJob.inv {w : Window} {page : State} {stops : List Nat} (h : SameJob w.page page)
    (hw : w.Inv) : { w with page, stops : Window }.Inv where
  stands := by
    obtain ⟨hphase, hactive, -⟩ := h
    rcases hw.stands with
      ⟨launch, active, phase, past⟩ | ⟨launch, active, phase, past⟩ |
      ⟨launch, active, phase, stage, past⟩ | ⟨active, phase, heard, past⟩ |
      ⟨launch, active, phase, past⟩
    · exact .rest launch (hactive.trans active) (by rw [hphase]; exact phase) past
    · exact .asking launch (hactive.trans active) (hphase.trans phase) past
    · exact .launching launch (hactive.trans active) (hphase.trans phase) stage past
    · exact .active (hactive.trans active) (by rw [hphase]; exact phase) heard past
    · exact .overtaken launch (hactive.trans active) (by rw [hphase]; exact phase) past
  pending := h.launchPending.trans hw.pending

theorem sameJob_output {now id : Nat} {s : State} {event : Jobs.Event}
    (h : outputOf event = some id) : SameJob s (s.onProcessEvent now event) := by
  cases event with
  | start | exit => cases h
  | log | captions | audioPath | transcriptPath =>
    unfold State.onProcessEvent
    dsimp only
    split_ifs <;> exact ⟨rfl, rfl, rfl⟩

/-- A failed stop of another job than the page's only forgets `stoppingId`. -/
theorem stopFailed_cases (processId : Nat) (message : Text) (s : State) :
    SameJob s (s.stopFailed processId message) ∨
      s.activeId = some processId ∧ (s.stopFailed processId message).phase = .running ∧
        (s.stopFailed processId message).activeId = s.activeId ∧
        (s.stopFailed processId message).launchPending = s.launchPending := by
  unfold State.stopFailed
  dsimp only
  split_ifs with hactive
  · exact .inl ⟨rfl, rfl, rfl⟩
  · exact .inr ⟨not_not.mp hactive, rfl, rfl, rfl⟩

theorem stopReply_cases (processId : Nat) (s : State) (result : Except Text Bool) :
    SameJob s (s.stopReply processId result) ∨
      s.activeId = some processId ∧ (s.stopReply processId result).phase = .running ∧
        (s.stopReply processId result).activeId = s.activeId ∧
        (s.stopReply processId result).launchPending = s.launchPending := by
  cases result with
  | error message => exact stopFailed_cases processId message s
  | ok stopped =>
    unfold State.stopReply
    dsimp only
    split_ifs
    · exact stopFailed_cases processId _ s
    · exact .inl ⟨rfl, rfl, rfl⟩

/-! ## Every step leads from one of the five to one of the five -/

/-- What `run` does when it does not return at its guard. -/
theorem run_spec {kind : Text} {s page : State} (h : s.run kind = some page) :
    s.launchPending = false ∧ s.activeId = none ∧
      page.phase = .starting ∧ page.activeId = none ∧ page.launchPending = true := by
  unfold State.run at h
  split at h
  · cases h
  · next hguard =>
    simp only [not_or, Bool.not_eq_true, not_not] at hguard
    obtain ⟨hpending, hactive⟩ := hguard
    refine ⟨hpending, hactive, ?_⟩
    dsimp only at h
    split_ifs at h <;> cases h <;> exact ⟨rfl, hactive, rfl⟩

theorem stop_spec {id : Nat} {s page : State} (h : s.stop = some (id, page)) :
    s.activeId = some id ∧
      page = { s with stoppingId := some id, phase := .stopping, error := [] } := by
  unfold State.stop at h
  cases hactive : s.activeId with
  | none => rw [hactive] at h; cases h
  | some processId =>
    rw [hactive] at h
    dsimp only at h
    split_ifs at h
    cases h
    exact ⟨rfl, rfl⟩

theorem runReply_ok_of_starting {now : Nat} {stamp kind : Text} {s : State} {started : Started}
    (h : s.activeId = none ∧ s.phase = .starting) :
    s.runReply now stamp kind (.ok started) = { s with
      activeId := some started.processId, activeKind := kind, activeLabel := started.label
      phase := .running, startedAt := some now, endedAt := none, launchPending := false } := by
  simp only [State.runReply, if_pos h]

/-- The reply of a job the page already has, or has already seen end, adopts nothing. -/
theorem runReply_ok_of_not_starting {now : Nat} {stamp kind : Text} {s : State}
    {started : Started} (h : ¬(s.activeId = none ∧ s.phase = .starting)) :
    s.runReply now stamp kind (.ok started) = { s with launchPending := false } := by
  simp only [State.runReply, if_neg h]

theorem Phase.Over.ne_starting {p : Phase} (h : p.Over) : p ≠ .starting := by
  rcases h with rfl | rfl | rfl <;> decide

theorem exitPhase_over (code : Option Int) (stopped : Bool) : (exitPhase code stopped).Over := by
  unfold exitPhase Phase.Over
  split_ifs <;> simp

theorem exit_spec {id : Nat} {s : State} (now : Nat) (code : Option Int) (stopped : Bool)
    (lastError : Text) (h : s.activeId = some id) :
    (s.onProcessEvent now (.exit id code stopped lastError)).phase.Over ∧
      (s.onProcessEvent now (.exit id code stopped lastError)).activeId = none ∧
      (s.onProcessEvent now (.exit id code stopped lastError)).launchPending =
        s.launchPending := by
  simp only [State.onProcessEvent, h, ne_eq, not_true_eq_false, if_false]
  exact ⟨exitPhase_over _ _, trivial, trivial⟩

theorem Window.Past.update {w : Window} {live : Option Nat} (h : w.Past live) (id : Nat)
    (stage : Stage) (page : State) (launch : Option Launch) (live' : Option Nat)
    (hlive : ∀ m, live' ≠ some m → m ≠ id → live ≠ some m)
    (hself : live' ≠ some id → stage = .ended) :
    { w with page, launch, stage := Function.update w.stage id (some stage) : Window }.Past
      live' := by
  intro m hm
  by_cases heq : m = id
  · subst heq
    exact .inr (by simp [hself hm])
  · simpa [heq] using h m (hlive m hm heq)

theorem inv_run {w : Window} {kind : Text} {page : State} (h : w.Inv)
    (called : w.page.run kind = some page) :
    { w with page, launch := some (.asked kind) : Window }.Inv := by
  obtain ⟨hpending, hactive, hphase, hactive', hpending'⟩ := run_spec called
  have hlaunch : w.launch = none := by
    have := h.pending.symm.trans hpending
    simpa using this
  refine ⟨.asking (.inl ⟨kind, rfl⟩) hactive' hphase ?_, hpending'⟩
  rcases h.stands with
    ⟨-, -, -, past⟩ | ⟨launch, -, -, -⟩ | ⟨launch, -, -, -, -⟩ | ⟨active, -, -, -⟩ |
    ⟨launch, -, -, -⟩
  · exact past
  · rcases launch with ⟨_, launch⟩ | ⟨_, _, launch⟩ <;> rw [hlaunch] at launch <;> cases launch
  · rw [hlaunch] at launch; cases launch
  · rw [hactive] at active; cases active
  · rw [hlaunch] at launch; cases launch

/-- Only the window that asks has an unanswered `run_command`. -/
theorem Stands.of_asked {w : Window} (h : Stands w) {kind : Text}
    (asked : w.launch = some (.asked kind)) :
    w.page.activeId = none ∧ w.page.phase = .starting ∧ w.Past none := by
  rcases h with
    ⟨launch, -, -, -⟩ | ⟨-, active, phase, past⟩ | ⟨launch, -, -, -, -⟩ | ⟨-, -, heard, -⟩ |
    ⟨launch, -, -, -⟩
  · rw [asked] at launch; cases launch
  · exact ⟨active, phase, past⟩
  · rw [asked] at launch; cases launch
  · rcases heard with ⟨launch, -⟩ | ⟨-, launch | ⟨_, _, launch, -⟩⟩ <;>
      rw [asked] at launch <;> cases launch
  · rw [asked] at launch; cases launch

theorem inv_accept {w : Window} {kind : Text} (h : w.Inv) (started : Started)
    (asked : w.launch = some (.asked kind)) :
    { w with
      launch := some (.answered kind (.ok started))
      stage := Function.update w.stage started.processId (some .launched) : Window }.Inv := by
  obtain ⟨active, phase, past⟩ := h.stands.of_asked asked
  refine ⟨.launching rfl active phase (by simp) ?_, by simp [h.pending, asked]⟩
  exact past.update _ _ _ _ _ (fun _ _ _ => by simp) fun hself => absurd rfl hself

theorem inv_refuse {w : Window} {kind : Text} (h : w.Inv) (message : Text)
    (asked : w.launch = some (.asked kind)) :
    { w with launch := some (.answered kind (.error message)) : Window }.Inv := by
  obtain ⟨active, phase, past⟩ := h.stands.of_asked asked
  exact ⟨.asking (.inr ⟨kind, message, rfl⟩) active phase past, by simp [h.pending, asked]⟩

/-- **The reply of `run`.** It ends the wait; it takes the job on only from the window
    that neither has it nor has seen it end. -/
theorem inv_runReply {w : Window} {kind : Text} {reply : Except Text Started} (h : w.Inv)
    (now : Nat) (stamp : Text) (answered : w.launch = some (.answered kind reply)) :
    { w with page := w.page.runReply now stamp kind reply, launch := none : Window }.Inv := by
  have hpending : (w.page.runReply now stamp kind reply).launchPending = false := by
    cases reply <;> rfl
  refine ⟨?_, hpending⟩
  rcases h.stands with
    ⟨launch, -, -, -⟩ | ⟨launch, active, phase, past⟩ | ⟨launch, active, phase, stage, past⟩ |
    ⟨active, phase, heard, past⟩ | ⟨launch, active, phase, past⟩
  · rw [answered] at launch; cases launch
  · rcases launch with ⟨_, launch⟩ | ⟨_, message, launch⟩ <;> rw [answered] at launch <;>
      cases launch
    exact .rest rfl active (.inr (.inr (.inr rfl))) past
  · rw [answered] at launch
    cases launch
    rw [runReply_ok_of_starting ⟨active, phase⟩]
    exact .active rfl (.inl rfl) (.inl ⟨rfl, stage⟩) past
  · rcases heard with ⟨launch, -⟩ | ⟨announced, launch | ⟨_, started, launch, hid⟩⟩
    · rw [answered] at launch; cases launch
    · rw [answered] at launch; cases launch
    · rw [answered] at launch
      cases launch
      rw [runReply_ok_of_not_starting (by simp [active])]
      exact .active active phase (.inr ⟨announced, .inl rfl⟩) past
  · rw [answered] at launch
    cases launch
    rw [runReply_ok_of_not_starting fun hs => phase.ne_starting hs.2]
    exact .rest rfl active (.inr phase) past

/-- A job whose `start` has not arrived is one the page waits for or has from the reply. -/
theorem Stands.of_launched {w : Window} (h : Stands w) {id : Nat}
    (launched : w.stage id = some .launched) :
    (∃ kind started, w.launch = some (.answered kind (.ok started)) ∧ started.processId = id ∧
        w.page.activeId = none ∧ w.Past (some id)) ∨
      (w.launch = none ∧ w.page.activeId = some id ∧ w.page.phase.Busy ∧ w.Past (some id)) := by
  have hpast : ∀ {live : Option Nat}, w.Past live → live = some id := by
    intro live past
    by_contra hne
    rcases past id hne with hstage | hstage <;> rw [launched] at hstage <;> cases hstage
  rcases h with
    ⟨-, -, -, past⟩ | ⟨-, -, -, past⟩ | ⟨launch, active, -, -, past⟩ |
    ⟨active, phase, heard, past⟩ | ⟨-, -, -, past⟩
  · cases hpast past
  · cases hpast past
  · cases hpast past
    exact .inl ⟨_, _, launch, rfl, active, past⟩
  · cases hpast past
    rcases heard with ⟨launch, -⟩ | ⟨announced, -⟩
    · exact .inr ⟨launch, active, phase, past⟩
    · rw [launched] at announced; cases announced
  · cases hpast past

/-- **The `start` event**, before the reply or after it. -/
theorem inv_start {w : Window} {id : Nat} (h : w.Inv) (now : Nat) (kind label command : Text)
    (launched : w.stage id = some .launched) :
    { w with
      page := w.page.onProcessEvent now (.start id kind label command)
      stage := Function.update w.stage id (some .announced) : Window }.Inv := by
  have hpast : w.Past (some id) → { w with
      page := w.page.onProcessEvent now (.start id kind label command)
      stage := Function.update w.stage id (some .announced) : Window }.Past (some id) :=
    fun past => past.update _ _ _ _ _ (fun _ hm _ => hm) fun hself => absurd rfl hself
  rcases h.stands.of_launched launched with
    ⟨_, started, launch, hid, active, past⟩ | ⟨launch, active, phase, past⟩
  · have hpage : w.page.onProcessEvent now (.start id kind label command) = { w.page with
        activeId := some id, activeKind := kind, activeLabel := label
        phase := .running, startedAt := some now, endedAt := none } := by
      simp [State.onProcessEvent, active]
    have hactive : (w.page.onProcessEvent now (.start id kind label command)).activeId =
        some id := by rw [hpage]
    refine ⟨.active hactive ?_ (.inr ⟨by simp, .inr ⟨_, started, launch, hid⟩⟩) (hpast past), ?_⟩
    · rw [hpage]; exact .inl rfl
    · rw [hpage]; exact h.pending
  · have hpage : w.page.onProcessEvent now (.start id kind label command) = w.page := by
      simp [State.onProcessEvent, active]
    rw [hpage]
    exact ⟨.active active phase (.inr ⟨by simp, .inl launch⟩) (hpage ▸ hpast past), h.pending⟩

/-- **A job that is announced and not over is the page's job.** -/
theorem Stands.of_announced {w : Window} (h : Stands w) {id : Nat}
    (announced : w.stage id = some .announced) :
    w.page.activeId = some id ∧ w.Past (some id) ∧ (w.launch = none ∨
      ∃ kind started, w.launch = some (.answered kind (.ok started))) := by
  have hpast : ∀ {live : Option Nat}, w.Past live → live = some id := by
    intro live past
    by_contra hne
    rcases past id hne with hstage | hstage <;> rw [announced] at hstage <;> cases hstage
  rcases h with
    ⟨-, -, -, past⟩ | ⟨-, -, -, past⟩ | ⟨-, -, -, stage, past⟩ | ⟨active, -, heard, past⟩ |
    ⟨-, -, -, past⟩
  · cases hpast past
  · cases hpast past
  · cases hpast past
    rw [announced] at stage; cases stage
  · cases hpast past
    rcases heard with ⟨-, launched⟩ | ⟨-, launch | ⟨kind, started, launch, -⟩⟩
    · rw [announced] at launched; cases launched
    · exact ⟨active, past, .inl launch⟩
    · exact ⟨active, past, .inr ⟨kind, started, launch⟩⟩
  · cases hpast past

/-- **The `exit` event.** If the reply of `run` is still to come, it will find the page
    past the job. -/
theorem inv_exit {w : Window} {id : Nat} (h : w.Inv) (now : Nat) (code : Option Int)
    (stopped : Bool) (lastError : Text) (announced : w.stage id = some .announced) :
    { w with
      page := w.page.onProcessEvent now (.exit id code stopped lastError)
      stage := Function.update w.stage id (some .ended) : Window }.Inv := by
  obtain ⟨active, past, launch⟩ := h.stands.of_announced announced
  obtain ⟨hphase, hactive, hpending⟩ := exit_spec now code stopped lastError active
  have hpast := past.update id .ended
    (w.page.onProcessEvent now (.exit id code stopped lastError)) w.launch none
    (fun m _ hne hm => hne (Option.some.inj hm).symm) fun _ => rfl
  refine ⟨?_, hpending.trans h.pending⟩
  rcases launch with launch | ⟨kind, started, launch⟩
  · exact .rest launch hactive (.inr hphase) hpast
  · exact .overtaken launch hactive hphase hpast

theorem inv_busy {w : Window} {page : State} {stops : List Nat} {id : Nat} (h : w.Inv)
    (active : w.page.activeId = some id) (hactive : page.activeId = some id)
    (hphase : page.phase.Busy) (hpending : page.launchPending = w.page.launchPending) :
    { w with page, stops : Window }.Inv := by
  refine ⟨?_, hpending.trans h.pending⟩
  rcases h.stands with
    ⟨-, none, -, -⟩ | ⟨-, none, -, -⟩ | ⟨-, none, -, -, -⟩ | ⟨same, -, heard, past⟩ |
    ⟨-, none, -, -⟩
  · rw [active] at none; cases none
  · rw [active] at none; cases none
  · rw [active] at none; cases none
  · rw [active] at same
    cases same
    exact .active hactive hphase heard past
  · rw [active] at none; cases none

theorem inv_step {w w' : Window} (h : w.Inv) (hstep : Step w w') : w'.Inv := by
  cases hstep with
  | run called => exact inv_run h called
  | accept started asked _ => exact inv_accept h started asked
  | refuse message asked => exact inv_refuse h message asked
  | runReply now stamp answered => exact inv_runReply h now stamp answered
  | start now kind label command launched => exact inv_start h now kind label command launched
  | output now ofJob _ => exact (sameJob_output ofJob).inv h
  | downloadLog now stream lines => exact (sameJob_output rfl).inv h
  | exit now code stopped lastError announced =>
    exact inv_exit h now code stopped lastError announced
  | stop called =>
    obtain ⟨active, rfl⟩ := stop_spec called
    exact inv_busy h active active (.inr rfl) rfl
  | stopReply result waiting =>
    rcases stopReply_cases _ w.page result with hsame | ⟨active, phase, hactive, hpending⟩
    · exact hsame.inv h
    · exact inv_busy h active (hactive.trans active) (.inl phase) hpending
  | setError message => exact SameJob.inv ⟨rfl, rfl, rfl⟩ h
  | clearLog => exact SameJob.inv ⟨rfl, rfl, rfl⟩ h
  | frame => exact SameJob.inv ⟨rfl, rfl, rfl⟩ h

theorem inv_reachable {w : Window} (h : system.Reachable w) : w.Inv :=
  System.Inductive.reachable (I := Window.Inv)
    { start := fun hinit => by cases hinit; exact inv_init
      step := fun _ hI hstep => inv_step hI hstep } h

/-! ## What the user can rely on -/

theorem Stands.busy_iff {w : Window} (h : Stands w) :
    w.page.phase.Busy ↔ w.page.activeId ≠ none := by
  have hnot : ∀ {p : Phase}, p.Over → ¬p.Busy := by
    rintro p (rfl | rfl | rfl) <;> simp [Phase.Busy]
  rcases h with
    ⟨-, active, phase, -⟩ | ⟨-, active, phase, -⟩ | ⟨-, active, phase, -, -⟩ |
    ⟨active, phase, -, -⟩ | ⟨-, active, phase, -⟩
  · rcases phase with ⟨idle, -⟩ | hover
    · simp [active, idle, Phase.Busy]
    · simp [active, hnot hover]
  · simp [active, phase, Phase.Busy]
  · simp [active, phase, Phase.Busy]
  · simp [active, phase]
  · simp [active, hnot phase]

theorem Stands.ended_not_active {w : Window} (h : Stands w) {id : Nat}
    (ended : w.stage id = some .ended) : w.page.activeId ≠ some id := by
  rcases h with
    ⟨-, active, -, -⟩ | ⟨-, active, -, -⟩ | ⟨-, active, -, -, -⟩ | ⟨active, -, heard, -⟩ |
    ⟨-, active, -, -⟩
  · simp [active]
  · simp [active]
  · simp [active]
  · intro hid
    rw [active] at hid
    cases hid
    rcases heard with ⟨-, launched⟩ | ⟨announced, -⟩
    · rw [ended] at launched; cases launched
    · rw [ended] at announced; cases announced
  · simp [active]

/-- With the reply of `run` handled and every job over, the window is at rest. -/
theorem Stands.at_rest {w : Window} (h : Stands w) (replied : w.launch = none) {id : Nat}
    (ended : w.stage id = some .ended)
    (past : ∀ id, w.stage id = none ∨ w.stage id = some .ended) :
    w.page.activeId = none ∧ w.page.phase.Over := by
  rcases h with
    ⟨-, active, phase, -⟩ | ⟨launch, -, -, -⟩ | ⟨launch, -, -, -, -⟩ | ⟨-, -, heard, -⟩ |
    ⟨launch, -, -, -⟩
  · rcases phase with ⟨-, nojob⟩ | hover
    · rw [nojob id] at ended; cases ended
    · exact ⟨active, hover⟩
  · rcases launch with ⟨_, launch⟩ | ⟨_, _, launch⟩ <;> rw [replied] at launch <;> cases launch
  · rw [replied] at launch; cases launch
  · rcases heard with ⟨-, stage⟩ | ⟨stage, -⟩
    · rcases past _ with hp | hp <;> rw [stage] at hp <;> cases hp
    · rcases past _ with hp | hp <;> rw [stage] at hp <;> cases hp
  · rw [replied] at launch; cases launch

/-- **The window follows its jobs**, in whatever order their events and the replies of
    `run_command` and `stop_command` arrive. The phase is `running` or `stopping` exactly
    while there is an active job; a `captions` event of a job that is announced and not over
    is queued, never dropped as stale; a job that is over is not the active one, so no late
    reply has adopted it again; and once the jobs are over and `run` has its reply, the
    window is idle and the next `run` gets past its guard, whatever `stop` calls are still
    without theirs. -/
theorem window_follows_jobs {w : Window} (h : system.Reachable w) :
    (w.page.phase = .running ∨ w.page.phase = .stopping ↔ w.page.activeId ≠ none) ∧
    (∀ now id update, w.stage id = some .announced →
      (w.page.onProcessEvent now (.captions id update)).captionQueue =
        w.page.captionQueue ++ [update]) ∧
    (∀ id, w.stage id = some .ended → w.page.activeId ≠ some id) ∧
    (w.launch = none → (∃ id, w.stage id = some .ended) →
      (∀ id, w.stage id = none ∨ w.stage id = some .ended) →
      w.page.activeId = none ∧
        (w.page.phase = .stopped ∨ w.page.phase = .complete ∨ w.page.phase = .error) ∧
        w.page.isRunning = false ∧ ∀ kind, ∃ page, w.page.run kind = some page) := by
  have hinv := inv_reachable h
  refine ⟨hinv.stands.busy_iff, ?_, fun id => hinv.stands.ended_not_active, ?_⟩
  · intro now id update announced
    have hactive := (hinv.stands.of_announced announced).1
    simp [State.onProcessEvent, hactive]
  · rintro replied ⟨id, ended⟩ past
    obtain ⟨active, hover⟩ := hinv.stands.at_rest replied ended past
    refine ⟨active, hover, ?_, fun kind => ?_⟩
    · rcases hover with phase | phase | phase <;> simp [State.isRunning, active, phase]
    · have hpending : w.page.launchPending = false := by rw [hinv.pending, replied]; rfl
      exact ⟨_, if_neg (by simp [hpending, active])⟩

/-- A job that is over before its reply: `run`, `start`, `exit`, and the reply last. -/
theorem fast_job_reachable : ∃ w, system.Reachable w ∧ w.launch = none ∧
    w.stage = Function.update (fun _ => none) 1 (some .ended) := by
  have hcalled : ∃ page, Window.init.page.run "record-enter".toList = some page :=
    ⟨_, if_neg (by simp [Window.init])⟩
  obtain ⟨page, hcalled⟩ := hcalled
  have h₁ := (System.Reachable.start (S := system) rfl).next (Step.run hcalled)
  have h₂ := h₁.next (Step.accept ⟨1, "Record".toList⟩ rfl rfl)
  have h₃ := h₂.next (Step.start 0 [] [] [] (Function.update_self ..))
  have h₄ := h₃.next (Step.exit 1 (some 0) false [] (Function.update_self ..))
  have h₅ := h₄.next (Step.runReply 2 [] rfl)
  exact ⟨_, h₅, rfl, by simp [Window.init]⟩

theorem window_follows_jobs_fast_job : ∃ w, system.Reachable w ∧
    w.stage 1 = some .ended ∧ w.page.activeId = none ∧
      ∃ page, w.page.run "record-enter".toList = some page := by
  obtain ⟨w, hreachable, replied, hstage⟩ := fast_job_reachable
  have ended : w.stage 1 = some .ended := by rw [hstage]; rfl
  have past : ∀ id, w.stage id = none ∨ w.stage id = some .ended := by
    intro id
    rw [hstage]
    by_cases heq : id = 1
    · subst heq; exact .inr rfl
    · exact .inl (by simp [heq])
  obtain ⟨-, -, -, hrest⟩ := window_follows_jobs hreachable
  obtain ⟨active, -, -, hrun⟩ := hrest replied ⟨1, ended⟩ past
  exact ⟨w, hreachable, ended, active, hrun _⟩

end Ui
end LocalMeetingStt
