import LocalMeetingStt.Jobs.Table

/-!
# What the page hears of a job

The page orders nothing: it takes a job to have begun at its `start` event and to be
over at its `exit` event, and shows whatever comes between. So the order in which the
threads send is a contract. `Traced` is that contract as an invariant: for every phase
of a job's threads it says what the job's events are up to now, the `info` lines of
`run` and of a stop apart, which tell the user what the app is doing and not what the
job prints.

The rest of the file is the other half. A job that was accepted is never stuck: from
any state its own threads, with its process exiting and its streams closing, lead to
the exit event (`reports`).
-/

namespace LocalMeetingStt
namespace Jobs

open Transition

/-! ## The events of one job -/

namespace Event

def owner : Event → Nat
  | start id _ _ _ | log id _ _ | captions id _ | audioPath id _ | transcriptPath id _
  | exit id _ _ _ => id

/-- What the app says about a job, as opposed to what the job prints. -/
def isInfo : Event → Bool
  | log _ .info _ => true
  | _ => false

/-- What one of the job's attempts printed, or its waiter repaired. -/
def isOutput : Event → Bool
  | log _ .stdout _ | log _ .stderr _ | captions _ _ | audioPath _ _ | transcriptPath _ _ => true
  | _ => false

def isExit : Event → Bool
  | exit _ _ _ _ => true
  | _ => false

def isOf (id : Nat) (e : Event) : Bool := e.owner == id && !e.isInfo

theorem filter_isOf {id : Nat} {e : Event} (howner : e.owner = id) (hinfo : e.isInfo = false) :
    [e].filter (isOf id) = [e] := by
  simp [isOf, howner, hinfo]

end Event

def World.eventsOf (w : World) (id : Nat) : List Event := w.events.filter (Event.isOf id)

def Thread.startEvent (t : Thread) (id : Nat) : Event := .start id t.kind t.spec.label t.command

/-- The job has started and printed. -/
def Thread.Printing (t : Thread) (id : Nat) (events : List Event) : Prop :=
  ∃ outputs, (∀ e ∈ outputs, e.isOutput = true) ∧ events = t.startEvent id :: outputs

variable [UnicodeTables]

/-- What has been heard of a job, by the phase of its threads. -/
def Thread.Traced (t : Thread) (id : Nat) (events : List Event) : Prop :=
  match t.phase with
  | .spawned => events = []
  | .started | .watching | .reporting _ | .removed _ => t.Printing id events
  | .exitLogged _ => ∃ printed now text, t.Printing id printed ∧
      events = printed ++ [logEvent now id .exit text]
  | .reported => ∃ printed now text code stopped lastError, t.Printing id printed ∧
      events = printed ++ [logEvent now id .exit text, .exit id code stopped lastError]

/-! ## What each thread sends -/

/-- Everything one read of stdout sends is output of its job. -/
theorem onStdoutLine_outputs (paths : AppPaths) (live : Bool) (id : Nat) (now line : Text)
    (r : Reading) :
    ∀ e ∈ (onStdoutLine paths live id now line r).2.1, e.isOutput = true ∧ e.owner = id := by
  intro e he
  unfold onStdoutLine at he
  dsimp only at he
  have haudio : e ∈ ((savedAudioPath paths (trim line)).map fun path =>
      Event.audioPath id path).toList → e.isOutput = true ∧ e.owner = id := by
    intro h
    simp only [Option.mem_toList, Option.map_eq_some_iff] at h
    obtain ⟨path, -, rfl⟩ := h
    exact ⟨rfl, rfl⟩
  split_ifs at he
  · exact haudio he
  · split at he <;> dsimp only at he
    · exact haudio he
    · exact haudio he
    · rcases List.mem_append.mp he with he | he
      · exact haudio he
      · rw [List.mem_singleton.mp he]
        exact ⟨rfl, rfl⟩
    · exact haudio he

theorem onStdoutLines_outputs (paths : AppPaths) (live : Bool) (id : Nat) (now : Text)
    (lines : List Text) (r : Reading) :
    ∀ e ∈ (onStdoutLines paths live id now lines r).2.1, e.isOutput = true ∧ e.owner = id := by
  induction lines generalizing r with
  | nil => intro e he; exact absurd he List.not_mem_nil
  | cons line lines ih =>
    intro e he
    rcases List.mem_append.mp he with he | he
    · exact onStdoutLine_outputs paths live id now line r e he
    · exact ih _ e he

theorem onStdout_outputs (paths : AppPaths) (live : Bool) (id : Nat) (now : Text)
    (lines : List Text) (r : Reading) :
    ∀ e ∈ (onStdout paths live id now lines r).2, e.isOutput = true ∧ e.owner = id := by
  intro e he
  unfold onStdout at he
  dsimp only at he
  rcases List.mem_append.mp he with he | he
  · rcases List.mem_append.mp he with he | he
    · exact onStdoutLines_outputs paths live id now lines r e he
    · simp only [Option.mem_toList, Option.map_eq_some_iff] at he
      obtain ⟨update, -, rfl⟩ := he
      exact ⟨rfl, rfl⟩
  · split_ifs at he
    · exact absurd he List.not_mem_nil
    · rw [List.mem_singleton.mp he]
      exact ⟨rfl, rfl⟩

theorem onStderr_outputs (id : Nat) (now : Text) (lines : List Text) (r : Reading) :
    ∀ e ∈ (onStderr id now lines r).2, e.isOutput = true ∧ e.owner = id := by
  intro e he
  rw [List.mem_singleton.mp he]
  exact ⟨rfl, rfl⟩

omit [UnicodeTables] in
theorem Thread.Printing.append {t : Thread} {id : Nat} {printed events : List Event}
    (h : t.Printing id printed) (hevents : ∀ e ∈ events, e.isOutput = true ∨ e.isInfo = true) :
    t.Printing id (printed ++ events.filter (Event.isOf id)) := by
  obtain ⟨outputs, houtputs, rfl⟩ := h
  refine ⟨outputs ++ events.filter (Event.isOf id), ?_, rfl⟩
  intro e he
  rcases List.mem_append.mp he with he | he
  · exact houtputs e he
  · obtain ⟨hmem, hof⟩ := List.mem_filter.mp he
    rcases hevents e hmem with hout | hinfo
    · exact hout
    · simp [Event.isOf, hinfo] at hof

/-- Between its `start` event and its exit log. -/
def Thread.isPrinting (t : Thread) : Bool :=
  match t.phase with
  | .started | .watching | .reporting _ | .removed _ => true
  | .spawned | .exitLogged _ | .reported => false

omit [UnicodeTables] in
theorem Thread.isPrinting_of_watching {t : Thread} (h : t.phase = .watching) :
    t.isPrinting = true := by
  rw [isPrinting, h]

omit [UnicodeTables] in
/-- For any reading: what a reader makes of a read is not to be unfolded to see that the
    phase and the start event stay. -/
theorem Thread.isPrinting_withReading {t : Thread} (h : t.phase = .watching) (reading : Reading)
    (id : Nat) : (t.withReading reading).isPrinting = true ∧
      (t.withReading reading).startEvent id = t.startEvent id :=
  ⟨isPrinting_of_watching h, rfl⟩

theorem Thread.traced_of_isPrinting {t : Thread} {id : Nat} {printed : List Event}
    (h : t.isPrinting = true) : t.Traced id printed ↔ t.Printing id printed := by
  unfold Thread.isPrinting at h
  unfold Thread.Traced
  split at h <;> simp_all only [Bool.false_eq_true]

/-- There, a thread may print and nothing else. -/
theorem Thread.Traced.append {t t' : Thread} {id : Nat} {printed events : List Event}
    (h : t.Traced id printed) (ht : t.isPrinting = true) (ht' : t'.isPrinting = true)
    (hstart : t'.startEvent id = t.startEvent id)
    (hevents : ∀ e ∈ events, e.isOutput = true ∨ e.isInfo = true) :
    t'.Traced id (printed ++ events.filter (Event.isOf id)) := by
  have hprinting := ((traced_of_isPrinting ht).mp h).append hevents
  rw [traced_of_isPrinting ht']
  unfold Thread.Printing at hprinting ⊢
  rwa [hstart]

theorem retryOnline_events (s : State) (id : Nat) (now : Text) (online : CommandSpec)
    (child : Except Text Nat) :
    ∀ e ∈ (retryOnline s id now online child).events,
      (e.isOutput = true ∨ e.isInfo = true) ∧ e.owner = id := by
  intro e he
  unfold retryOnline at he
  split_ifs at he
  · exact absurd he List.not_mem_nil
  · split at he
    · exact absurd he List.not_mem_nil
    · split at he
      · rw [List.mem_singleton.mp he]
        exact ⟨.inr rfl, rfl⟩
      · simp only [List.mem_cons, List.not_mem_nil, or_false] at he
        rcases he with rfl | rfl
        · exact ⟨.inr rfl, rfl⟩
        · exact ⟨.inl rfl, rfl⟩

/-- What a step of a job's thread sends, and that it keeps the contract. -/
structure Thread.Sends (w w' : World) (id : Nat) (t t' : Thread) (events : List Event) : Prop where
  threads : w'.threads = Function.update w.threads id (some t')
  events_eq : w'.events = w.events ++ events
  owner : ∀ e ∈ events, e.owner = id
  traced : ∀ printed, t.Traced id printed → t'.Traced id (printed ++ events.filter (Event.isOf id))

theorem Thread.sends_outputs {w : World} {id : Nat} {t t' : Thread} {events : List Event}
    (w' : World) (hthreads : w'.threads = Function.update w.threads id (some t'))
    (hevents : w'.events = w.events ++ events) (ht : t.isPrinting = true)
    (ht' : t'.isPrinting = true) (hstart : t'.startEvent id = t.startEvent id)
    (hout : ∀ e ∈ events, (e.isOutput = true ∨ e.isInfo = true) ∧ e.owner = id) :
    Thread.Sends w w' id t t' events where
  threads := hthreads
  events_eq := hevents
  owner e he := (hout e he).2
  traced _ h := h.append ht ht' hstart fun e he => (hout e he).1

theorem ThreadStep.sends {paths : AppPaths} {w w' : World} {id : Nat} {t : Thread}
    (h : ThreadStep paths w id t w') : ∃ t' events, Thread.Sends w w' id t t' events := by
  have hsilent : ∀ e ∈ ([] : List Event),
      (e.isOutput = true ∨ e.isInfo = true) ∧ e.owner = id := by simp
  cases h with
  | emitStart at_ =>
    refine ⟨_, _, rfl, rfl, by simp [Event.owner], fun printed hprinted => ?_⟩
    rw [Thread.Traced, at_] at hprinted
    obtain rfl : printed = [] := hprinted
    exact ⟨[], by simp, Event.filter_isOf rfl rfl⟩
  | watch now at_ =>
    refine ⟨_, _, Thread.sends_outputs _ rfl rfl (by simp [Thread.isPrinting, at_]) rfl rfl ?_⟩
    simp [logEvent, Event.isInfo, Event.owner]
  | readOut now lines at_ _ =>
    obtain ⟨hprinting, hstart⟩ := Thread.isPrinting_withReading at_
      (onStdout paths t.live id now lines t.attempt.reading).1 id
    refine ⟨_, _, Thread.sends_outputs _ rfl rfl (Thread.isPrinting_of_watching at_)
      hprinting hstart ?_⟩
    intro e he
    obtain ⟨hout, howner⟩ := onStdout_outputs _ _ _ _ _ _ e he
    exact ⟨.inl hout, howner⟩
  | readErr now lines at_ _ =>
    obtain ⟨hprinting, hstart⟩ := Thread.isPrinting_withReading at_
      (onStderr id now lines t.attempt.reading).1 id
    refine ⟨_, _, Thread.sends_outputs _ rfl rfl (Thread.isPrinting_of_watching at_)
      hprinting hstart ?_⟩
    intro e he
    obtain ⟨hout, howner⟩ := onStderr_outputs _ _ _ _ e he
    exact ⟨.inl hout, howner⟩
  | closeOut at_ | closeErr at_ | exit _ at_ _ =>
    exact ⟨_, [], Thread.sends_outputs _ rfl (List.append_nil _).symm
      (Thread.isPrinting_of_watching at_)
      (Thread.isPrinting_of_watching at_) rfl hsilent⟩
  | retry now online child pid at_ _ _ _ =>
    exact ⟨_, _, Thread.sends_outputs _ rfl rfl (Thread.isPrinting_of_watching at_)
      (Thread.isPrinting_of_watching at_) rfl
      (retryOnline_events _ _ _ _ _)⟩
  | retryRefused now online child at_ _ _ _ =>
    exact ⟨_, _, Thread.sends_outputs _ rfl rfl (Thread.isPrinting_of_watching at_) rfl rfl
      (retryOnline_events _ _ _ _ _)⟩
  | report at_ _ _ =>
    exact ⟨_, [], Thread.sends_outputs _ rfl (List.append_nil _).symm
      (Thread.isPrinting_of_watching at_) rfl rfl hsilent⟩
  | repair now path rest at_ =>
    refine ⟨_, _, Thread.sends_outputs _ rfl rfl (by simp [Thread.isPrinting, at_]) rfl rfl ?_⟩
    intro e he
    split_ifs at he
    · rw [List.mem_singleton.mp he]
      exact ⟨.inl rfl, rfl⟩
    · exact absurd he List.not_mem_nil
  | repairFails now path rest error bytes at_ =>
    refine ⟨_, _, Thread.sends_outputs _ rfl rfl (by simp [Thread.isPrinting, at_]) rfl rfl ?_⟩
    simp [logEvent, Event.isOutput, Event.owner]
  | forget at_ =>
    exact ⟨_, [], Thread.sends_outputs _ rfl (List.append_nil _).symm
      (by simp [Thread.isPrinting, at_]) rfl rfl hsilent⟩
  | logExit now stopped status at_ _ =>
    refine ⟨_, _, rfl, rfl, by simp [logEvent, Event.owner], fun printed hprinted => ?_⟩
    rw [Thread.traced_of_isPrinting (by simp [Thread.isPrinting, at_])] at hprinted
    exact ⟨printed, now, _, hprinted, congrArg _ (Event.filter_isOf rfl rfl)⟩
  | emitExit stopped status at_ _ =>
    refine ⟨_, _, rfl, rfl, by simp [Event.owner], fun printed hprinted => ?_⟩
    rw [Thread.Traced, at_] at hprinted
    obtain ⟨before, now, text, hbefore, rfl⟩ := hprinted
    exact ⟨before, now, text, _, _, _, hbefore,
      (congrArg _ (Event.filter_isOf rfl rfl)).trans (List.append_assoc _ _ _)⟩

/-! ## What is heard in every reachable state -/

omit [UnicodeTables] in
theorem World.eventsOf_append {w w' : World} {events : List Event}
    (h : w'.events = w.events ++ events) (id : Nat) :
    w'.eventsOf id = w.eventsOf id ++ events.filter (Event.isOf id) := by
  rw [World.eventsOf, h, List.filter_append]
  rfl

/-- Of a job that was never accepted nothing is heard; of one that was, what its phase
    says. Id 0 is the downloads'. -/
def World.Heard (w : World) : Prop :=
  ∀ id, 0 < id → match w.threads id with
    | none => w.eventsOf id = []
    | some t => t.Traced id (w.eventsOf id)

/-- Steps of the other threads send nothing of a job. -/
theorem World.Heard.hushed {w w' : World} (h : w.Heard) (hthreads : w'.threads = w.threads)
    (hevents : ∃ events, w'.events = w.events ++ events ∧
      ∀ e ∈ events, e.isInfo = true ∨ e.owner = 0) : w'.Heard := by
  obtain ⟨events, heq, hother⟩ := hevents
  intro id hid
  have hsame : w'.eventsOf id = w.eventsOf id := by
    rw [World.eventsOf_append heq, List.filter_eq_nil_iff.mpr, List.append_nil]
    intro e he hof
    simp only [Event.isOf, Bool.and_eq_true, beq_iff_eq, Bool.not_eq_true'] at hof
    rcases hother e he with hinfo | hzero
    · simp [hinfo] at hof
    · omega
  rw [hthreads, hsame]
  exact h id hid

theorem StopStep.hushed {w w' : World} {c : Caller} (h : StopStep w c w') :
    w'.threads = w.threads ∧ ∃ events, w'.events = w.events ++ events ∧
      ∀ e ∈ events, e.isInfo = true ∨ e.owner = 0 := by
  cases h with
  | logStopping now id pid _ | logForced now id pid _ =>
    exact ⟨rfl, _, rfl, fun e he => .inl (by rw [List.mem_singleton.mp he]; rfl)⟩
  | enter | waited | write | writeFails | noStopFile | waitedCooperative | gone | force
  | killed | killFails | goneAfter | stillRunning | unmark =>
    exact ⟨rfl, [], (List.append_nil _).symm, by simp⟩

theorem DownloadStep.hushed {w w' : World} (h : DownloadStep w w') :
    w'.threads = w.threads ∧ ∃ events, w'.events = w.events ++ events ∧
      ∀ e ∈ events, e.isInfo = true ∨ e.owner = 0 := by
  cases h with
  | log now stream lines _ _ _ =>
    exact ⟨rfl, _, rfl, fun e he => .inr (by rw [List.mem_singleton.mp he]; rfl)⟩
  | refuse | accept | finish | lookAbsent | look | kill =>
    exact ⟨rfl, [], (List.append_nil _).symm, by simp⟩

omit [UnicodeTables] in
theorem CloseStep.hushed {w w' : World} (h : CloseStep w w') :
    w'.threads = w.threads ∧ w'.events = w.events := by
  cases h <;> exact ⟨rfl, rfl⟩

theorem World.Heard.thread {paths : AppPaths} {w w' : World} {id : Nat} {t : Thread}
    (h : w.Heard) (found : w.threads id = some t) (hstep : ThreadStep paths w id t w') :
    w'.Heard := by
  obtain ⟨t', events, hsends⟩ := hstep.sends
  intro id' hid'
  rw [World.eventsOf_append hsends.events_eq, hsends.threads]
  have hbefore := h id' hid'
  by_cases heq : id' = id
  · subst heq
    rw [found] at hbefore
    rw [Function.update_self]
    exact hsends.traced _ hbefore
  · have hnone : events.filter (Event.isOf id') = [] := by
      rw [List.filter_eq_nil_iff]
      intro e he hof
      have howner := hsends.owner e he
      simp only [Event.isOf, Bool.and_eq_true, beq_iff_eq] at hof
      exact heq (hof.1.symm.trans howner)
    rw [Function.update_of_ne heq, hnone, List.append_nil]
    exact hbefore

theorem World.Heard.run {w : World} {paths : AppPaths} (h : w.Heard) (hinv : w.table.Inv)
    (r : RunRequest) : (w.accept (runLocked paths w.state w.files r)).Heard := by
  have heffect := runLocked_effect paths w.state w.files r
  generalize runLocked paths w.state w.files r = outcome at heffect ⊢
  cases heffect with
  | refused => exact h
  | @accepted _ a _ _ id _ =>
    have hunknown : w.threads a.processId = none := id ▸ hinv.next_unknown
    intro id' hid'
    have hbefore := h id' hid'
    show match Function.update w.threads a.processId (some (Thread.new a)) id' with
      | none => w.eventsOf id' = []
      | some t => t.Traced id' (w.eventsOf id')
    by_cases heq : id' = a.processId
    · subst heq
      rw [hunknown] at hbefore
      rw [Function.update_self]
      exact hbefore
    · rw [Function.update_of_ne heq]
      exact hbefore

theorem heard {paths : AppPaths} {w : World} (h : (app paths).Reachable w) : w.Heard := by
  have hind : (app paths).Inductive World.Heard :=
    { start := by rintro _ ⟨files, rfl⟩ id _; rfl
      step := by
        rintro w w' hreach hheard ⟨-, hstep⟩
        cases hstep with
        | run r => exact hheard.run (table_inv hreach) r
        | thread id t found step => exact hheard.thread found step
        | stop c step => exact hheard.hushed step.hushed.1 step.hushed.2
        | download step => exact hheard.hushed step.hushed.1 step.hushed.2
        | close step =>
          exact hheard.hushed step.hushed.1
            ⟨[], by rw [step.hushed.2, List.append_nil], by simp⟩
        | others files => exact hheard }
  exact hind.reachable h

/-- The exit events of a job. -/
def World.exits (w : World) (id : Nat) : List Event := (w.eventsOf id).filter Event.isExit

/-- What the page may rely on: one exit event at most, after the start event, and after
    it nothing. -/
structure World.ExitsLast (w : World) (id : Nat) : Prop where
  once : (w.exits id).length ≤ 1
  order : ∀ before exit after, w.eventsOf id = before ++ exit :: after → exit.isExit = true →
    after = [] ∧ ∃ kind label command, Event.start id kind label command ∈ before

omit [UnicodeTables] in
/-- Where only the last event passes a test, an event that passes it is the last. -/
theorem only_last {p : Event → Bool} {front before after : List Event} {last e : Event}
    (hfront : ∀ a ∈ front, p a = false) (h : front ++ [last] = before ++ e :: after)
    (he : p e = true) : before = front ∧ after = [] := by
  rcases List.append_eq_append_iff.mp h with ⟨mid, rfl, hmid⟩ | ⟨mid, rfl, hmid⟩
  · cases mid with
    | nil => simp_all
    | cons m mid => simp at hmid
  · cases mid with
    | nil => simp_all
    | cons m mid =>
      obtain rfl : e = m := (List.cons.inj hmid).1
      have := hfront e (by simp)
      simp [this] at he

omit [UnicodeTables] in
theorem Thread.Printing.no_exit {t : Thread} {id : Nat} {printed : List Event}
    (h : t.Printing id printed) : ∀ e ∈ printed, e.isExit = false := by
  obtain ⟨outputs, houtputs, rfl⟩ := h
  intro e he
  rcases List.mem_cons.mp he with rfl | he
  · rfl
  · have := houtputs e he
    cases e <;> simp_all [Event.isOutput, Event.isExit]

omit [UnicodeTables] in
theorem exits_eq_nil {w : World} {id : Nat} (h : ∀ e ∈ w.eventsOf id, e.isExit = false) :
    w.exits id = [] :=
  List.filter_eq_nil_iff.mpr fun e he => by simp [h e he]

omit [UnicodeTables] in
theorem exitsLast_of_none {w : World} {id : Nat} (h : ∀ e ∈ w.eventsOf id, e.isExit = false) :
    w.ExitsLast id where
  once := by simp [exits_eq_nil h]
  order before exit after heq hexit := by
    have := h exit (by rw [heq]; simp)
    simp [this] at hexit

/-- Until the end nothing is an exit event. -/
theorem Thread.Traced.no_exit {t : Thread} {id : Nat} {events : List Event}
    (h : t.Traced id events) (hphase : t.phase ≠ .reported) :
    ∀ e ∈ events, e.isExit = false := by
  unfold Thread.Traced at h
  split at h
  · subst h; simp
  · exact h.no_exit
  · exact h.no_exit
  · exact h.no_exit
  · exact h.no_exit
  · obtain ⟨printed, now, text, hprinted, rfl⟩ := h
    intro e he
    rcases List.mem_append.mp he with he | he
    · exact hprinted.no_exit e he
    · rw [List.mem_singleton.mp he]; rfl
  · next hreported => exact absurd hreported hphase

theorem Thread.Traced.exitsLast {w : World} {t : Thread} {id : Nat}
    (h : t.Traced id (w.eventsOf id)) :
    w.ExitsLast id ∧ (t.phase = .reported → (w.exits id).length = 1) := by
  by_cases hphase : t.phase = .reported
  · unfold Thread.Traced at h
    rw [hphase] at h
    obtain ⟨printed, now, text, code, stopped, lastError, hprinted, hevents⟩ := h
    have hnone : printed.filter Event.isExit = [] :=
      List.filter_eq_nil_iff.mpr fun e he => by simp [hprinted.no_exit e he]
    have hone : (w.exits id).length = 1 := by
      rw [World.exits, hevents, List.filter_append, hnone]
      rfl
    refine ⟨⟨Nat.le_of_eq hone, ?_⟩, fun _ => hone⟩
    intro before exit after heq hexit
    -- Up to the exit log nothing is an exit event, so the last event is the only one.
    have hpre : ∀ e ∈ printed ++ [logEvent now id .exit text], e.isExit = false := by
      intro e he
      rcases List.mem_append.mp he with he | he
      · exact hprinted.no_exit e he
      · rw [List.mem_singleton.mp he]; rfl
    rw [hevents, List.append_cons] at heq
    obtain ⟨rfl, rfl⟩ := only_last hpre heq hexit
    obtain ⟨outputs, -, rfl⟩ := hprinted
    exact ⟨rfl, t.kind, t.spec.label, t.command, by simp [Thread.startEvent]⟩
  · exact ⟨exitsLast_of_none (h.no_exit hphase), fun heq => absurd heq hphase⟩

/-! ## Every accepted job can be reported -/

/-- A waiter that has gone past `watch` has seen the process exit and both streams
    close. -/
def Thread.Settled (t : Thread) : Prop :=
  match t.phase with
  | .spawned | .started | .watching => True
  | .reporting _ | .removed _ | .exitLogged _ | .reported => t.attempt.drained = true

omit [UnicodeTables] in
theorem Thread.settled_of_watching {t : Thread} (h : t.phase = .watching) : t.Settled := by
  rw [Settled, h]
  trivial

omit [UnicodeTables] in
theorem Thread.settled_withAttempt {t : Thread} (h : t.phase = .watching) (attempt : Attempt) :
    (t.withAttempt attempt).Settled := settled_of_watching h

theorem ThreadStep.settled {paths : AppPaths} {w w' : World} {id : Nat} {t : Thread}
    (h : ThreadStep paths w id t w') (ht : t.Settled) :
    ∃ t', w'.threads = Function.update w.threads id (some t') ∧ t'.Settled := by
  unfold Thread.Settled at ht
  cases h with
  | emitStart | watch => exact ⟨_, rfl, trivial⟩
  | readOut _ _ at_ _ | readErr _ _ at_ _ => exact ⟨_, rfl, Thread.settled_withAttempt at_ _⟩
  | closeOut at_ | closeErr at_ | exit _ at_ _ =>
    exact ⟨_, rfl, Thread.settled_withAttempt at_ _⟩
  | retry _ _ _ _ at_ _ _ _ => exact ⟨_, rfl, Thread.settled_of_watching at_⟩
  | retryRefused _ _ _ at_ drained _ _ | report at_ drained _ => exact ⟨_, rfl, drained⟩
  | repair _ _ _ at_ | repairFails _ _ _ _ _ at_ | forget at_ | logExit _ _ _ at_ _
  | emitExit _ _ at_ _ =>
    rw [at_] at ht
    exact ⟨_, rfl, ht⟩

theorem settled {paths : AppPaths} {w : World} (h : (app paths).Reachable w) :
    ∀ id t, w.threads id = some t → t.Settled := by
  have hind : (app paths).Inductive fun w => ∀ id t, w.threads id = some t → t.Settled :=
    { start := by rintro _ ⟨files, rfl⟩ id t h; cases h
      step := by
        rintro w w' - hsettled ⟨-, hstep⟩
        cases hstep with
        | run r =>
          have heffect := runLocked_effect paths w.state w.files r
          generalize runLocked paths w.state w.files r = outcome at heffect ⊢
          cases heffect with
          | refused => exact hsettled
          | accepted => exact forall_update hsettled trivial
        | thread id t found step =>
          obtain ⟨t', hthreads, ht'⟩ := step.settled (hsettled id t found)
          rw [hthreads]
          exact forall_update hsettled ht'
        | stop c step => rw [step.hushed.1]; exact hsettled
        | download step => rw [step.hushed.1]; exact hsettled
        | close step => rw [step.hushed.1]; exact hsettled
        | others files => exact hsettled }
  exact hind.reachable h

/-- What the threads of a job can still do before it is reported, if its process exits
    and its streams close without another word. -/
def Thread.remaining (t : Thread) : Nat :=
  match t.phase with
  | .spawned => t.attempt.reading.recordings.length + 9
  | .started => t.attempt.reading.recordings.length + 8
  | .watching =>
    t.attempt.reading.recordings.length + 4 + t.attempt.status.isNone.toNat +
      t.attempt.outOpen.toNat + t.attempt.errOpen.toNat
  | .reporting recordings => recordings.length + 3
  | .removed _ => 2
  | .exitLogged _ => 1
  | .reported => 0

/-- A step of the job's own threads. -/
def OwnStep (paths : AppPaths) (id : Nat) (w w' : World) : Prop :=
  ∃ t, w.threads id = some t ∧ ThreadStep paths w id t w'

theorem retryOnline_error (s : State) (id : Nat) (now : Text) (online : CommandSpec)
    (error : Text) : (retryOnline s id now online (.error error)).child = none := by
  unfold retryOnline
  split_ifs
  · rfl
  · split <;> rfl

omit [UnicodeTables] in
theorem Attempt.status_of_drained {a : Attempt} (h : a.drained = true) :
    ∃ status, a.status = some status := by
  simp only [drained, Bool.and_eq_true] at h
  exact Option.isSome_iff_exists.mp h.1.1

/-- A step of the job's own threads that leaves them less to do. -/
def Thread.Closer (paths : AppPaths) (w : World) (id : Nat) (t : Thread) : Prop :=
  ∃ w' t', OwnStep paths id w w' ∧ w'.threads id = some t' ∧ t'.remaining < t.remaining ∧
    t'.Settled ∧ w'.close = w.close

theorem ThreadStep.closer {paths : AppPaths} {w w' : World} {id : Nat} {t t' : Thread}
    (h : ThreadStep paths w id t w') (found : w.threads id = some t) (hsettled : t.Settled)
    (hthreads : w'.threads = Function.update w.threads id (some t'))
    (hlt : t'.remaining < t.remaining) (hclose : w'.close = w.close) : t.Closer paths w id := by
  have hfound : w'.threads id = some t' := by rw [hthreads, Function.update_self]
  obtain ⟨t'', hthreads', hsettled'⟩ := h.settled hsettled
  obtain rfl : t' = t'' := by
    rw [hthreads', Function.update_self] at hfound
    exact (Option.some.inj hfound).symm
  exact ⟨w', t', ⟨t, found, h⟩, hfound, hlt, hsettled', hclose⟩

/-- Until it is reported, a job has a step that brings it closer. -/
theorem Thread.closer (paths : AppPaths) {w : World} {id : Nat} {t : Thread}
    (found : w.threads id = some t) (hsettled : t.Settled) (hphase : t.phase ≠ .reported) :
    t.Closer paths w id := by
  have hmove : ∀ {w' : World} {t' : Thread}, ThreadStep paths w id t w' →
      w'.threads = Function.update w.threads id (some t') → t'.remaining < t.remaining →
      w'.close = w.close → t.Closer paths w id :=
    fun hstep hthreads hlt hclose => hstep.closer found hsettled hthreads hlt hclose
  have hlate := hsettled
  unfold Thread.Settled at hlate
  cases hphase' : t.phase with
  | spawned =>
    exact hmove (.emitStart hphase') rfl (by simp [Thread.remaining, Thread.at_, hphase']) rfl
  | started =>
    refine hmove (.watch [] hphase') rfl ?_ rfl
    have := Bool.toNat_le t.attempt.status.isNone
    have := Bool.toNat_le t.attempt.outOpen
    have := Bool.toNat_le t.attempt.errOpen
    simp only [Thread.remaining, Thread.at_, hphase']
    omega
  | watching =>
    -- The process exits, the streams close, and then the waiter decides.
    by_cases hstatus : t.attempt.status = none
    · refine hmove (.exit (.ok none) hphase' hstatus) rfl ?_ rfl
      simp [Thread.remaining, Thread.withAttempt, hphase', hstatus]
    by_cases hout : t.attempt.outOpen = true
    · refine hmove (.closeOut hphase') rfl ?_ rfl
      simp [Thread.remaining, Thread.withAttempt, hphase', hout]
    by_cases herr : t.attempt.errOpen = true
    · refine hmove (.closeErr hphase') rfl ?_ rfl
      simp [Thread.remaining, Thread.withAttempt, hphase', herr]
    have hdrained : t.attempt.drained = true := by
      simp [Attempt.drained, hout, herr, Option.isSome_iff_ne_none, hstatus]
    have hcloser : (t.at_ (.reporting t.attempt.reading.recordings)).remaining <
        t.remaining := by
      simp only [Thread.remaining, Thread.at_, hphase']
      omega
    cases hretry : t.retryWith with
    | none => exact hmove (.report hphase' hdrained hretry) rfl hcloser rfl
    | some online =>
      -- A retry whose spawn fails leads on as well, and needs no second attempt to end.
      exact hmove (.retryRefused [] online (.error []) hphase' hdrained hretry
        (retryOnline_error _ _ _ _ _)) rfl hcloser rfl
  | reporting recordings =>
    cases recordings with
    | nil =>
      exact hmove (.forget hphase') rfl (by simp [Thread.remaining, Thread.at_, hphase']) rfl
    | cons path rest =>
      exact hmove (.repair [] path rest hphase') rfl
        (by simp [Thread.remaining, Thread.at_, hphase']) rfl
  | removed stopped =>
    rw [hphase'] at hlate
    obtain ⟨status, hstatus⟩ := Attempt.status_of_drained hlate
    exact hmove (.logExit [] stopped status hphase' hstatus) rfl
      (by simp [Thread.remaining, Thread.at_, hphase']) rfl
  | exitLogged stopped =>
    rw [hphase'] at hlate
    obtain ⟨status, hstatus⟩ := Attempt.status_of_drained hlate
    exact hmove (.emitExit stopped status hphase' hstatus) rfl
      (by simp [Thread.remaining, Thread.at_, hphase']) rfl
  | reported => exact absurd hphase' hphase

/-- The app's steps that are steps of one job's threads. -/
def OwnNext (paths : AppPaths) (id : Nat) (w w' : World) : Prop :=
  (app paths).next w w' ∧ OwnStep paths id w w'

/-- From any state of the running app, a job's own threads can report it. -/
theorem reports (paths : AppPaths) {w : World} {id : Nat} {t : Thread}
    (found : w.threads id = some t) (hsettled : t.Settled) (hopen : w.close ≠ .exited) :
    ∃ w' t', Relation.ReflTransGen (OwnNext paths id) w w' ∧ w'.threads id = some t' ∧
      t'.phase = .reported := by
  induction hn : t.remaining using Nat.strongRecOn generalizing w t with
  | ind n ih =>
    by_cases hphase : t.phase = .reported
    · exact ⟨w, t, .refl, found, hphase⟩
    · obtain ⟨w₁, t₁, hstep, hfound, hlt, hsettled₁, hclose⟩ :=
        t.closer paths found hsettled hphase
      obtain ⟨w', t', hrun, hfound', hphase'⟩ :=
        ih t₁.remaining (hn ▸ hlt) hfound hsettled₁ (hclose ▸ hopen) rfl
      obtain ⟨t₀, hfound₀, hthread⟩ := hstep
      exact ⟨w', t', hrun.head ⟨⟨hopen, .thread id t₀ hfound₀ hthread⟩, t₀, hfound₀, hthread⟩,
        hfound', hphase'⟩

theorem reachable_of_own {paths : AppPaths} {id : Nat} {w w' : World}
    (h : (app paths).Reachable w) (hrun : Relation.ReflTransGen (OwnNext paths id) w w') :
    (app paths).Reachable w' :=
  System.stretch_keeps (fun hr hnext => .next hr hnext.1) hrun h

/-- **The contract of `Jobs`.** A `run` that is refused leaves no process and no entry.
    And in every state the app can be in: at most one job is entered, no id has been
    handed out twice, only jobs that are entered are marked, and of every job that was
    started the page has heard at most one exit event, after its start event and after
    everything it printed — and, as long as the app runs, the job's own threads can get
    to where it has heard exactly one. -/
theorem jobs_contract (paths : AppPaths) :
    (∀ s files r error, (runLocked paths s files r).result = .error error →
      (runLocked paths s files r).spawned = none ∧
        (runLocked paths s files r).state.jobs = s.jobs) ∧
    ∀ w, (app paths).Reachable w →
      w.state.jobs.keys.length ≤ 1 ∧ w.handedOut.Nodup ∧
      (∀ id ∈ w.state.stopping, id ∈ w.state.jobs) ∧
      ∀ id ∈ w.handedOut, w.ExitsLast id ∧
        (w.close ≠ .exited → ∃ w', Relation.ReflTransGen (OwnNext paths id) w w' ∧
          w'.ExitsLast id ∧ (w'.exits id).length = 1) := by
  constructor
  · intro s files r error herror
    have heffect := runLocked_effect paths s files r
    generalize runLocked paths s files r = outcome at heffect herror ⊢
    cases heffect with
    | refused jobs => exact ⟨rfl, jobs⟩
    | accepted => cases herror
  · intro w hw
    have hinv := table_inv hw
    refine ⟨hinv.single, hinv.nodup, hinv.marked, fun id hid => ?_⟩
    have hpos : 0 < id := (hinv.fresh id hid).1
    obtain ⟨t, found⟩ := Option.isSome_iff_exists.mp ((hinv.known id).mp hid)
    have found' : w.threads id = some t := found
    have htraced := heard hw id hpos
    rw [found'] at htraced
    refine ⟨htraced.exitsLast.1, fun hopen => ?_⟩
    obtain ⟨w', t', hrun, hfound, hphase⟩ :=
      reports paths found' (settled hw id t found') hopen
    have htraced' := heard (reachable_of_own hw hrun) id hpos
    rw [hfound] at htraced'
    exact ⟨w', hrun, htraced'.exitsLast.1, htraced'.exitsLast.2 hphase⟩

omit [UnicodeTables] in
theorem jobs_contract_recording : ∃ w',
    Relation.ReflTransGen (@OwnNext asciiTables somePaths 1) recordingWorld w' ∧
      (w'.exits 1).length = 1 := by
  let := asciiTables
  obtain ⟨w', hrun, -, hexits⟩ :=
    (((jobs_contract somePaths).2 recordingWorld recordingWorld_reachable).2.2.2 1
      (by decide)).2 (by decide)
  exact ⟨w', hrun, hexits⟩

end Jobs
end LocalMeetingStt
