import LocalMeetingStt.Jobs.Table

/-!
# Stopping a job (`stop_blocking`)

A stop marks the job in its first locked section and works outside the lock from then
on, with the pid it found. Two things make that right: while the mark stands nobody
starts a process for the job (`Table.Step.marked_keeps`), and only one call at a time
is responsible for the mark (`Charged`).

The second has a hole. A call that cannot write the stop file returns its error with
the mark in place, and no call is responsible for it any more: every later stop finds
the job marked and only waits. The last theorem says that this exit, on a job that
still runs, is the only one after which a job is less stoppable than before.
-/

namespace LocalMeetingStt
namespace Jobs

open Transition

/-! ## A marked job keeps its process -/

/-- A step that leaves a marked job marked leaves it its thread's attempts and pid. -/
theorem Table.Step.marked_keeps {T T' : Table} {id : Nat} {t : Thread} (hinv : T.Inv)
    (hstep : T.Step T') (hmarked : id ∈ T.stopping) (hmarked' : id ∈ T'.stopping)
    (found : T.threads id = some t) :
    ∃ t', T'.threads id = some t' ∧ t'.previous = t.previous ∧ t'.current = t.current := by
  cases hstep with
  | quiet | mark | unmark => exact ⟨t, found, rfl, rfl⟩
  | accept a stopFile idle _ =>
    -- The table is empty, so nothing is marked.
    have hin := hinv.marked id hmarked
    rw [idle] at hin
    exact absurd hin (AList.notMem_empty id)
  | goOn i s s' found' goesOn =>
    by_cases heq : id = i
    · subst heq
      obtain rfl : t = s := Option.some.inj (found.symm.trans found')
      exact ⟨s', Function.update_self .., goesOn.previous, goesOn.current⟩
    · exact ⟨t, (Function.update_of_ne heq _ _).trans found, rfl, rfl⟩
  | restart i s job pid found' unmarked =>
    have heq : id ≠ i := fun h => unmarked (h ▸ hmarked)
    exact ⟨t, (Function.update_of_ne heq _ _).trans found, rfl, rfl⟩
  | forget i s stopped found' =>
    have heq : id ≠ i := (Finset.mem_erase.mp hmarked').1
    exact ⟨t, (Function.update_of_ne heq _ _).trans found, rfl, rfl⟩

theorem Thread.pid_of_current {t : Thread} {pid : Nat} (h : t.current = some pid) :
    t.attempt.pid = pid := by
  unfold Thread.current at h
  split_ifs at h
  exact Option.some.inj h

/-- What the locked section of a stop finds is the entry. -/
theorem enterStop_some {s s' : State} {id pid : Nat} {stopFile : Option Text} {first : Bool}
    (h : enterStop s id = (s', some (pid, stopFile, first))) :
    (s.jobs.lookup id).map Job.pid = some pid ∧ id ∈ s'.stopping ∧
      first = decide (id ∉ s.stopping) ∧ s' = { s with stopping := insert id s.stopping } := by
  unfold enterStop at h
  cases hjob : s.jobs.lookup id with
  | none => simp [hjob] at h
  | some job =>
    simp only [hjob, Prod.mk.injEq, Option.some.injEq] at h
    obtain ⟨rfl, rfl, rfl, rfl⟩ := h
    exact ⟨rfl, Finset.mem_insert_self _ _, rfl, rfl⟩

variable [UnicodeTables]

/-- A step of the app after which the job is still marked. -/
def MarkedNext (paths : AppPaths) (id : Nat) (w w' : World) : Prop :=
  (app paths).next w w' ∧ id ∈ w'.state.stopping

/-- The whole stretch of a run during which a job is marked. -/
theorem marked_stretch {paths : AppPaths} {w w' : World} {id : Nat} {t : Thread}
    (hreach : (app paths).Reachable w) (hmarked : id ∈ w.state.stopping)
    (found : w.threads id = some t) (hrun : Relation.ReflTransGen (MarkedNext paths id) w w') :
    (app paths).Reachable w' ∧ id ∈ w'.state.stopping ∧
      ∃ t', w'.threads id = some t' ∧ t'.previous = t.previous ∧ t'.current = t.current := by
  refine System.stretch_keeps (I := fun w' => (app paths).Reachable w' ∧
    id ∈ w'.state.stopping ∧ ∃ t', w'.threads id = some t' ∧ t'.previous = t.previous ∧
      t'.current = t.current) ?_ hrun ⟨hreach, hmarked, t, found, rfl, rfl⟩
  rintro w₁ w₂ ⟨hreach₁, hmarked₁, t₁, found₁, hprevious, hcurrent⟩ ⟨hnext, hmarked₂⟩
  obtain ⟨t₂, found₂, hprevious₂, hcurrent₂⟩ :=
    (step_table hnext.2).marked_keeps (table_inv hreach₁) hmarked₁ hmarked₂ found₁
  exact ⟨hreach₁.next hnext, hmarked₂, t₂, found₂, hprevious₂.trans hprevious,
    hcurrent₂.trans hcurrent⟩

/-- A call that goes from `idle` to `marked` has entered its locked section as the first. -/
theorem StopStep.marks {w w' : World} {c : Caller} {id pid : Nat} {stopFile : Option Text}
    (h : StopStep w c w') (hidle : w.stops c = .idle)
    (hpc : w'.stops c = .marked id pid stopFile) :
    enterStop w.state id = (w'.state, some (pid, stopFile, true)) ∧
      w'.threads = w.threads := by
  cases h with
  | enter id' at_ may =>
    have hentered : StopPc.entered id' (enterStop w.state id').2 = .marked id pid stopFile := by
      simpa using hpc
    cases hfound : (enterStop w.state id').2 with
    | none => simp [hfound, StopPc.entered] at hentered
    | some answer =>
      obtain ⟨pid', stopFile', first⟩ := answer
      cases first with
      | false => simp [hfound, StopPc.entered] at hentered
      | true =>
        simp only [hfound, StopPc.entered, StopPc.marked.injEq] at hentered
        obtain ⟨rfl, rfl, rfl⟩ := hentered
        exact ⟨Prod.ext rfl hfound, rfl⟩
  | waited _ at_ | write _ _ _ at_ | writeFails _ _ _ _ at_ | noStopFile _ _ at_
  | logStopping _ _ _ at_ | waitedCooperative _ _ at_ | gone _ _ at_ _ | force _ _ at_ _
  | logForced _ _ _ at_ | killed _ _ at_ | killFails _ _ _ at_ | goneAfter _ _ _ at_ _
  | stillRunning _ _ _ at_ _ | unmark _ _ _ at_ =>
    rw [hidle] at at_
    cases at_

/-- **A job being stopped keeps its process.** Over its whole life a job is restarted
    once at most, after an offline attempt that failed because it was offline. And from
    the locked section in which a stop marks it, as long as the mark stands, no process
    is started for it, and the pid the stop found is the pid of its process and of its
    entry. -/
theorem marked_job_keeps_process (paths : AppPaths) (w : World)
    (hw : (app paths).Reachable w) :
    (∀ id t, w.threads id = some t → t.RestartedOnce) ∧
    ∀ (c : Caller) (id pid : Nat) (stopFile : Option Text) (w₁ w₂ : World),
      w₁.stops c = .marked id pid stopFile → StopStep w c w₁ →
      w.stops c = .idle → w.close ≠ .exited →
      Relation.ReflTransGen (MarkedNext paths id) w₁ w₂ →
      ∃ t₁ t₂, w₁.threads id = some t₁ ∧ w₂.threads id = some t₂ ∧
        t₁.attempt.pid = pid ∧ t₂.attempt.pid = pid ∧ t₂.previous = t₁.previous ∧
        (w₂.state.jobs.lookup id).map Job.pid = some pid := by
  refine ⟨(table_inv hw).restarts, ?_⟩
  intro c id pid stopFile w₁ w₂ hpc hstep hidle hopen hrun
  obtain ⟨henter, hthreads⟩ := hstep.marks hidle hpc
  obtain ⟨hpid, hmarked, -, -⟩ := enterStop_some henter
  have hreach : (app paths).Reachable w₁ := hw.next ⟨hopen, .stop c hstep⟩
  -- The entry the stop found is the thread's, by the table's invariant.
  have hentry := (table_inv hw).entry id
  rw [show w.table.jobs = w.state.jobs from rfl, hpid] at hentry
  obtain ⟨t, found, hcurrent⟩ := Option.bind_eq_some_iff.mp hentry.symm
  have found₁ : w₁.threads id = some t := by rw [hthreads]; exact found
  obtain ⟨hreach₂, -, t', found₂, hprevious, hcurrent₂⟩ :=
    marked_stretch hreach hmarked found₁ hrun
  have hcurrent' : t'.current = some pid := hcurrent₂.trans hcurrent
  have hentry₂ := (table_inv hreach₂).entry id
  rw [show w₂.table.threads = w₂.threads from rfl, found₂] at hentry₂
  exact ⟨t, t', found₁, found₂, Thread.pid_of_current hcurrent, Thread.pid_of_current hcurrent',
    hprevious, hentry₂.trans hcurrent'⟩

/-- The page has asked to stop the recording, and the call has marked it. -/
def markedWorld : World :=
  (recordingWorld.setState (enterStop recordingWorld.state 1).1).setStop (.command 0)
    (.entered 1 (enterStop recordingWorld.state 1).2)

theorem markedWorld_reachable : (app somePaths).Reachable markedWorld :=
  recordingWorld_reachable.next ⟨by decide, .stop (.command 0) (.enter 1 rfl trivial)⟩

omit [UnicodeTables] in
theorem marked_job_keeps_process_recording : ∃ t₁ t₂,
    markedWorld.threads 1 = some t₁ ∧
      ((markedWorld.emit [.start 1 t₁.kind t₁.spec.label t₁.command]).setThread 1
        (t₁.at_ .started)).threads 1 = some t₂ ∧ t₁.attempt.pid = 4242 ∧
      t₂.attempt.pid = 4242 ∧ t₂.previous = t₁.previous := by
  let := asciiTables
  let t : Thread :=
    .new ⟨1, 4242, "record-enter".toList, ⟨"Record".toList, "uv".toList, []⟩, false⟩
  have hstep : MarkedNext somePaths 1 markedWorld
      ((markedWorld.emit [.start 1 t.kind t.spec.label t.command]).setThread 1 (t.at_ .started)) :=
    ⟨⟨by decide, .thread 1 t rfl (.emitStart rfl)⟩, by decide⟩
  obtain ⟨t₁, t₂, found₁, found₂, hpid₁, hpid₂, hprevious, -⟩ :=
    (marked_job_keeps_process somePaths recordingWorld recordingWorld_reachable).2 (.command 0) 1
      4242 (some (somePaths.stopFile 1)) markedWorld _ rfl (.enter 1 rfl trivial) rfl (by decide)
      (.single hstep)
  obtain rfl : t = t₁ := Option.some.inj found₁
  exact ⟨t, t₂, found₁, found₂, hpid₁, hpid₂, hprevious⟩

/-! ## One call is responsible for a mark -/

/-- The job a call is responsible for: the one it marked, until it returns. -/
def StopPc.charge : StopPc → Option Nat
  | .marked id _ _ | .written id _ | .waitingCooperative id _ | .checking id _ | .forcing id _
  | .killing id _ | .killFailed id _ _ | .unmarking id _ _ => some id
  | .idle | .waitingOther _ | .returned _ _ => none

/-- What a step of one `stop_blocking` call does to the marks: it sets one and takes
    charge of it, leaves them alone, or removes the one it has in charge. -/
inductive StopEffect (w : World) (c : Caller) (w' : World) : Prop
  | marks (id pid : Nat) (stopFile : Option Text)
      (entered : enterStop w.state id = (w'.state, some (pid, stopFile, true)))
      (stops : w'.stops = Function.update w.stops c (.marked id pid stopFile))
  | keeps (pc : StopPc) (state : w'.state = w.state)
      (stops : w'.stops = Function.update w.stops c pc)
      (charge : ∀ id, pc.charge = some id → (w.stops c).charge = some id)
  | unmarks (id pid : Nat) (error : Text) (at_ : w.stops c = .unmarking id pid error)
      (state : w'.state = unmark w.state id)
      (stops : w'.stops = Function.update w.stops c (.returned id (.error error)))

theorem StopStep.effect {w w' : World} {c : Caller} (h : StopStep w c w') :
    StopEffect w c w' := by
  cases h with
  | enter id at_ may =>
    cases hfound : (enterStop w.state id).2 with
    | none =>
      refine .keeps (.returned id (.ok false)) ?_ rfl (by simp [StopPc.charge])
      show (enterStop w.state id).1 = w.state
      unfold enterStop at hfound ⊢
      cases hjob : w.state.jobs.lookup id with
      | none => rfl
      | some job => simp [hjob] at hfound
    | some answer =>
      obtain ⟨pid, stopFile, first⟩ := answer
      have hentered : enterStop w.state id =
          ((enterStop w.state id).1, some (pid, stopFile, first)) := Prod.ext rfl hfound
      cases first with
      | true => exact .marks id pid stopFile hentered rfl
      | false =>
        obtain ⟨-, -, hfirst, hstate⟩ := enterStop_some hentered
        refine .keeps (.waitingOther id) ?_ rfl (by simp [StopPc.charge])
        have hin : id ∈ w.state.stopping := by simpa using hfirst
        show (enterStop w.state id).1 = w.state
        rw [hstate, Finset.insert_eq_of_mem hin]
  | unmark id pid error at_ => exact .unmarks id pid error at_ rfl rfl
  | waited _ at_ | write _ _ _ at_ | writeFails _ _ _ _ at_ | noStopFile _ _ at_
  | logStopping _ _ _ at_ | waitedCooperative _ _ at_ | gone _ _ at_ _ | force _ _ at_ _
  | logForced _ _ _ at_ | killed _ _ at_ | killFails _ _ _ at_ | goneAfter _ _ _ at_ _
  | stillRunning _ _ _ at_ _ =>
    exact .keeps _ rfl rfl (by rw [at_]; simp [StopPc.charge])

/-- What the other threads leave to the stops. -/
structure Frame (w w' : World) : Prop where
  stops : w'.stops = w.stops
  handedOut : w'.handedOut = w.handedOut
  jobs : ∀ id, id ∈ w'.state.jobs → id ∈ w.state.jobs
  stopping : ∀ id, id ∈ w'.state.jobs → (id ∈ w'.state.stopping ↔ id ∈ w.state.stopping)

omit [UnicodeTables] in
theorem Frame.of_state {w w' : World} (hstops : w'.stops = w.stops)
    (hids : w'.handedOut = w.handedOut) (hjobs : w'.state.jobs = w.state.jobs)
    (hstopping : w'.state.stopping = w.state.stopping) : Frame w w' where
  stops := hstops
  handedOut := hids
  jobs id h := hjobs ▸ h
  stopping id _ := by rw [hstopping]

theorem ThreadStep.frame {paths : AppPaths} {w w' : World} {id : Nat} {t : Thread}
    (h : ThreadStep paths w id t w') : Frame w w' := by
  cases h with
  | emitStart | watch | readOut | readErr | closeOut | closeErr | exit | report | repair
  | repairFails | logExit | emitExit => exact .of_state rfl rfl rfl rfl
  | retry now online child pid _ _ _ spawned =>
    obtain ⟨-, job, hjob, hstate⟩ := retryOnline_child spawned
    have hin : id ∈ w.state.jobs := AList.lookup_isSome.mp (by simp [hjob])
    refine ⟨rfl, rfl, fun i hi => ?_, fun i _ => ?_⟩
    · have hi' : i ∈ (w.state.jobs.insert id { job with pid }) := by
        simpa [World.setThread, World.emit, World.setState, hstate] using hi
      rcases (AList.mem_insert _).mp hi' with rfl | hi'
      · exact hin
      · exact hi'
    · simp [World.setThread, World.emit, World.setState, hstate]
  | retryRefused now online child _ _ _ refused =>
    have hstate := retryOnline_refused refused
    exact .of_state rfl rfl (by simp [World.setThread, World.emit, World.setState, hstate])
      (by simp [World.setThread, World.emit, World.setState, hstate])
  | forget _ =>
    refine ⟨rfl, rfl, fun i hi => (AList.mem_erase.mp hi).2, fun i hi => ?_⟩
    have hne : i ≠ id := (AList.mem_erase.mp hi).1
    show i ∈ w.state.stopping.erase id ↔ _
    rw [Finset.mem_erase]
    exact ⟨fun h => h.2, fun h => ⟨hne, h⟩⟩

/-- The steps of the app, as far as the stops are concerned. -/
inductive StepKind (w w' : World) : Prop
  | other (frame : Frame w w')
  | accepted (a : Accepted) (idle : w.state.jobs = ∅) (id : a.processId = w.state.nextId)
      (stops : w'.stops = w.stops) (handedOut : w'.handedOut = w.handedOut ++ [a.processId])
      (jobs : ∀ id, id ∈ w'.state.jobs ↔ id = a.processId)
      (stopping : w'.state.stopping = w.state.stopping)
  | stop (c : Caller) (step : StopStep w c w')

theorem DownloadStep.frame {w w' : World} (h : DownloadStep w w') : Frame w w' := by
  have htable := h.table
  have hjobs : w'.state.jobs = w.state.jobs := congrArg Table.jobs htable
  have hstopping : w'.state.stopping = w.state.stopping := congrArg Table.stopping htable
  have hids : w'.handedOut = w.handedOut := congrArg Table.handedOut htable
  cases h <;> exact .of_state rfl hids hjobs hstopping

theorem Step.kind {paths : AppPaths} {w w' : World} (h : Step paths w w') : StepKind w w' := by
  cases h with
  | run r =>
    have heffect := runLocked_effect paths w.state w.files r
    generalize runLocked paths w.state w.files r = outcome at heffect ⊢
    cases heffect with
    | refused jobs stopping _ _ => exact .other (.of_state rfl rfl jobs stopping)
    | @accepted _ a _ idle id _ =>
      refine .accepted a idle id rfl rfl (fun i => ?_) rfl
      show i ∈ w.state.jobs.insert w.state.nextId _ ↔ _
      rw [AList.mem_insert, idle, id]
      simp
  | thread id t _ step => exact .other step.frame
  | stop c step => exact .stop c step
  | download step => exact .other step.frame
  | close step => exact .other (by cases step <;> exact .of_state rfl rfl rfl rfl)
  | others files => exact .other (.of_state rfl rfl rfl rfl)

/-- A call in charge of a job that is still entered holds its mark, and no other call
    is in charge of it. -/
def World.Charged (w : World) : Prop :=
  ∀ c id, (w.stops c).charge = some id → id ∈ w.handedOut ∧
    (id ∈ w.state.jobs → id ∈ w.state.stopping ∧ ∀ c', (w.stops c').charge = some id → c' = c)

omit [UnicodeTables] in
theorem Table.Inv.handedOut_of_mem {T : Table} (h : T.Inv) {id : Nat} (hid : id ∈ T.jobs) :
    id ∈ T.handedOut := by
  rw [h.known]
  obtain ⟨job, hjob⟩ := Option.isSome_iff_exists.mp (AList.lookup_isSome.mpr hid)
  have hentry := h.entry id
  rw [hjob] at hentry
  obtain ⟨t, found, -⟩ := Option.bind_eq_some_iff.mp hentry.symm
  rw [found]
  rfl

omit [UnicodeTables] in
theorem World.Charged.other {w w' : World} (h : w.Charged) (hframe : Frame w w') :
    w'.Charged := by
  intro c id hcharge
  rw [hframe.stops] at hcharge
  obtain ⟨hids, hheld⟩ := h c id hcharge
  refine ⟨hframe.handedOut ▸ hids, fun hin => ?_⟩
  obtain ⟨hmarked, hunique⟩ := hheld (hframe.jobs id hin)
  exact ⟨(hframe.stopping id hin).mpr hmarked, by rw [hframe.stops]; exact hunique⟩

omit [UnicodeTables] in
/-- Who is in charge of a job after one call has moved. -/
theorem charge_update {w : World} {c c' : Caller} {pc : StopPc} {id : Nat}
    (h : (Function.update w.stops c pc c').charge = some id) :
    (c' = c ∧ pc.charge = some id) ∨ (c' ≠ c ∧ (w.stops c').charge = some id) := by
  by_cases heq : c' = c
  · subst heq
    rw [Function.update_self] at h
    exact .inl ⟨rfl, h⟩
  · rw [Function.update_of_ne heq] at h
    exact .inr ⟨heq, h⟩

theorem World.Charged.stop {w w' : World} {c : Caller} (h : w.Charged) (hinv : w.table.Inv)
    (hstep : StopStep w c w') : w'.Charged := by
  have hids : w'.handedOut = w.handedOut := by cases hstep <;> rfl
  intro c' id hcharge
  rw [hids]
  cases hstep.effect with
  | marks i pid stopFile entered stops =>
    obtain ⟨hentry, -, hfirst, hstate⟩ := enterStop_some entered
    have hjob : i ∈ w.state.jobs :=
      AList.lookup_isSome.mp (by rw [← Option.isSome_map (f := Job.pid), hentry]; rfl)
    -- Nobody else is in charge of it: it would have been marked.
    have hfree : ∀ c'', (w.stops c'').charge ≠ some i := fun c'' hc => by
      simp [((h c'' i hc).2 hjob).1] at hfirst
    rw [stops] at hcharge ⊢
    rw [hstate]
    rcases charge_update hcharge with ⟨rfl, hi⟩ | ⟨hne, hold⟩
    · obtain rfl : i = id := Option.some.inj hi
      refine ⟨hinv.handedOut_of_mem hjob, fun _ => ⟨Finset.mem_insert_self _ _, fun c'' hc => ?_⟩⟩
      rcases charge_update hc with ⟨rfl, -⟩ | ⟨-, hold⟩
      · rfl
      · exact absurd hold (hfree c'')
    · obtain ⟨hout, hheld⟩ := h c' id hold
      refine ⟨hout, fun hin => ⟨Finset.mem_insert_of_mem (hheld hin).1, fun c'' hc => ?_⟩⟩
      rcases charge_update hc with ⟨rfl, hi⟩ | ⟨-, hold'⟩
      · obtain rfl : i = id := Option.some.inj hi
        exact absurd hold (hfree c')
      · exact (hheld hin).2 c'' hold'
  | keeps pc state stops charge =>
    have hback : ∀ c'' id', (w'.stops c'').charge = some id' →
        (w.stops c'').charge = some id' := by
      intro c'' id' hc
      rw [stops] at hc
      rcases charge_update hc with ⟨rfl, hpc⟩ | ⟨-, hold⟩
      · exact charge id' hpc
      · exact hold
    obtain ⟨hout, hheld⟩ := h c' id (hback c' id hcharge)
    rw [state]
    exact ⟨hout, fun hin => ⟨(hheld hin).1, fun c'' hc => (hheld hin).2 c'' (hback c'' id hc)⟩⟩
  | unmarks i pid error at_ state stops =>
    rw [stops] at hcharge ⊢
    rcases charge_update hcharge with ⟨-, hpc⟩ | ⟨hne, hold⟩
    · cases hpc
    · obtain ⟨hout, hheld⟩ := h c' id hold
      rw [state]
      refine ⟨hout, fun hin => ⟨?_, fun c'' hc => ?_⟩⟩
      · refine Finset.mem_erase.mpr ⟨fun hi => hne ?_, (hheld hin).1⟩
        subst hi
        exact ((hheld hin).2 c (by rw [at_]; rfl)).symm
      · rcases charge_update hc with ⟨-, hpc⟩ | ⟨-, hold'⟩
        · cases hpc
        · exact (hheld hin).2 c'' hold'

theorem charged {paths : AppPaths} {w : World} (h : (app paths).Reachable w) : w.Charged := by
  have hind : (app paths).Inductive World.Charged :=
    { start := by rintro _ ⟨files, rfl⟩ c id hcharge; cases hcharge
      step := by
        rintro w w' hreach hcharged ⟨-, hstep⟩
        have hinv := table_inv hreach
        cases hstep.kind with
        | other frame => exact hcharged.other frame
        | stop c step => exact hcharged.stop hinv step
        | accepted a idle id stops handedOut jobs stopping =>
          intro c i hcharge
          rw [stops] at hcharge
          have hout := (hcharged c i hcharge).1
          have hlt : i < w.state.nextId := (hinv.fresh i hout).2
          refine ⟨by rw [handedOut]; exact List.mem_append_left _ hout, fun hin => ?_⟩
          have := (jobs i).mp hin
          omega }
  exact hind.reachable h

/-! ## Which errors leave a job stoppable -/

/-- The next stop of the job will be a first one, and really try. -/
def State.Stoppable (s : State) (id : Nat) : Prop :=
  ∀ pid stopFile first, (enterStop s id).2 = some (pid, stopFile, first) → first = true

omit [UnicodeTables] in
theorem State.stoppable_iff {s : State} {id : Nat} :
    s.Stoppable id ↔ (id ∈ s.jobs → id ∉ s.stopping) := by
  unfold State.Stoppable enterStop
  cases hjob : s.jobs.lookup id with
  | none =>
    have hout : id ∉ s.jobs := AList.lookup_eq_none.mp hjob
    simp [hout]
  | some job =>
    have hin : id ∈ s.jobs := AList.lookup_isSome.mp (by simp [hjob])
    simp [hin]

/-- The call is about to take its mark back, or the job has already left. -/
def World.Undone (w : World) (c : Caller) (id : Nat) : Prop :=
  (∃ pid error, w.stops c = .unmarking id pid error) ∨ id ∉ w.state.jobs

/-- Where a call in charge goes: it stays in charge, returns `true`, or returns one of
    the two errors. -/
theorem StopStep.carries {w w' : World} {c : Caller} {id : Nat} (h : StopStep w c w')
    (hcharge : (w.stops c).charge = some id) :
    (w'.stops c).charge = some id ∨ w'.stops c = .returned id (.ok true) ∨
      (∃ pid path error, w.stops c = .marked id pid (some path) ∧ w'.state = w.state ∧
        w'.stops c = .returned id (.error error)) ∨
      ∃ pid error, w.stops c = .unmarking id pid error ∧ w'.state = Jobs.unmark w.state id ∧
        w'.stops c = .returned id (.error error) := by
  cases h with
  | enter i at_ | waited i at_ => rw [at_] at hcharge; cases hcharge
  | writeFails i pid path error at_ =>
    rw [at_] at hcharge
    obtain rfl : i = id := Option.some.inj hcharge
    exact .inr (.inr (.inl ⟨pid, path, error, at_, rfl, World.setStop_self ..⟩))
  | unmark i pid error at_ =>
    rw [at_] at hcharge
    obtain rfl : i = id := Option.some.inj hcharge
    exact .inr (.inr (.inr ⟨pid, error, at_, rfl, World.setStop_self ..⟩))
  | gone i _ at_ | killed i _ at_ | goneAfter i _ _ at_ =>
    rw [at_] at hcharge
    obtain rfl : i = id := Option.some.inj hcharge
    exact .inr (.inl (World.setStop_self ..))
  | write i _ _ at_ | noStopFile i _ at_ | logStopping _ i _ at_ | waitedCooperative i _ at_
  | force i _ at_ | logForced _ i _ at_ | killFails i _ _ at_ | stillRunning i _ _ at_ =>
    rw [at_] at hcharge
    exact .inl (by simpa [StopPc.charge] using hcharge)

/-- Only a call in charge returns an error. -/
theorem StopStep.charge_of_error {w w' : World} {c : Caller} {id : Nat} {error : Text}
    (h : StopStep w c w') (hret : w'.stops c = .returned id (.error error)) :
    (w.stops c).charge = some id := by
  cases h with
  | enter i _ _ =>
    have hentered := (World.setStop_self ..).symm.trans hret
    unfold StopPc.entered at hentered
    split at hentered <;> simp at hentered
  | writeFails i pid path e at_ | unmark i pid e at_ =>
    obtain ⟨rfl, -⟩ := StopPc.returned.inj ((World.setStop_self ..).symm.trans hret)
    rw [at_]
    rfl
  | waited | write | noStopFile | logStopping | waitedCooperative | gone | force | logForced
  | killed | killFails | goneAfter | stillRunning => simp at hret

theorem StopStep.stops_ne {w w' : World} {c c' : Caller} (h : StopStep w c w') (hne : c' ≠ c) :
    w'.stops c' = w.stops c' := by
  cases h.effect with
  | marks _ _ _ _ stops | keeps _ _ stops | unmarks _ _ _ _ _ stops =>
    rw [stops, Function.update_of_ne hne]

/-- A call that has returned does nothing more. -/
theorem StopStep.not_returned {w w' : World} {c : Caller} {id : Nat} {result : Except Text Bool}
    (h : StopStep w c w') (hret : w.stops c = .returned id result) : False := by
  cases h <;> simp_all

theorem StopStep.marked_before {w w' : World} {c : Caller} {id : Nat} (h : StopStep w c w')
    (hid : id ∈ w'.state.stopping) :
    id ∈ w.state.stopping ∨ (w'.stops c).charge = some id := by
  cases h.effect with
  | marks i pid stopFile entered stops =>
    rw [(enterStop_some entered).2.2.2] at hid
    rcases Finset.mem_insert.mp hid with rfl | hid
    · exact .inr (by rw [stops, Function.update_self]; rfl)
    · exact .inl hid
  | keeps pc state => exact .inl (state ▸ hid)
  | unmarks i pid error _ state =>
    rw [state] at hid
    exact .inl (Finset.mem_of_mem_erase hid)

/-- What an error leaves behind. -/
theorem StopStep.error_unmarks_iff {w w' : World} {c : Caller} {id : Nat} {error : Text}
    (hcharged : w.Charged) (hinv : w.table.Inv) (h : StopStep w c w')
    (hret : w'.stops c = .returned id (.error error)) :
    (id ∉ w'.state.stopping ↔ w.Undone c id) ∧ (w'.state.Stoppable id ↔ w.Undone c id) := by
  have hcharge := h.charge_of_error hret
  rw [State.stoppable_iff]
  rcases h.carries hcharge with hstill | hok | ⟨pid, path, e, at_, hstate, -⟩ |
    ⟨pid, e, at_, hstate, -⟩
  · rw [hret] at hstill; cases hstill
  · rw [hret] at hok; cases hok
  · -- The write failed: the mark stands exactly if the job does.
    have hundone : w.Undone c id ↔ id ∉ w.state.jobs := by
      simp [World.Undone, at_]
    have hheld : id ∈ w.state.jobs → id ∈ w.state.stopping :=
      fun hin => ((hcharged c id hcharge).2 hin).1
    have hmarked : id ∈ w.state.stopping → id ∈ w.state.jobs := hinv.marked id
    rw [hstate, hundone]
    tauto
  · have hundone : w.Undone c id := .inl ⟨pid, e, at_⟩
    have hfree : id ∉ (Jobs.unmark w.state id).stopping := Finset.notMem_erase _ _
    rw [hstate]
    exact ⟨iff_of_true hfree hundone, iff_of_true (fun _ => hfree) hundone⟩

/-- No call fails to write the stop file of a job that still runs. -/
def StopFilesWritten (w w' : World) : Prop :=
  ∀ c id pid path error, w.stops c = .marked id pid (some path) →
    w'.stops c = .returned id (.error error) → id ∉ w.state.jobs

/-- Somebody is in charge of each mark, or has been and returned `true`. -/
def World.Tended (w : World) : Prop :=
  ∀ id ∈ w.state.stopping, ∃ c, (w.stops c).charge = some id ∨
    w.stops c = .returned id (.ok true)

theorem tended {paths : AppPaths} {w : World}
    (h : ((app paths).restrict StopFilesWritten).Reachable w) : w.Tended := by
  have hind : ((app paths).restrict StopFilesWritten).Inductive World.Tended :=
    { start := by rintro _ ⟨files, rfl⟩ id hid; exact absurd hid (Finset.notMem_empty id)
      step := by
        rintro w w' hreach htended ⟨hnext, hwritten⟩
        have hreach' := (hreach.of_restrict).next hnext
        intro id hid
        have hin : id ∈ w'.state.jobs := (table_inv hreach').marked id hid
        cases hnext.2.kind with
        | other frame =>
          rw [frame.stops]
          exact htended id ((frame.stopping id hin).mp hid)
        | accepted a _ _ stops _ _ stopping =>
          rw [stops]
          exact htended id (stopping ▸ hid)
        | stop c step =>
          -- A call that tends the mark goes on, answers `true`, or takes the mark away.
          rcases step.marked_before hid with hbefore | hcharge
          · obtain ⟨c₀, htends⟩ := htended id hbefore
            refine ⟨c₀, ?_⟩
            by_cases heq : c₀ = c
            · subst heq
              rcases htends with hcharge | hok
              · rcases step.carries hcharge with hstill | hok | ⟨pid, path, e, at_, hstate, hret⟩ |
                  ⟨_, _, _, hstate, _⟩
                · exact .inl hstill
                · exact .inr hok
                · rw [hstate] at hin
                  exact absurd hin (hwritten c₀ id pid path e at_ hret)
                · rw [hstate] at hid
                  exact absurd hid (Finset.notMem_erase _ _)
              · exact (step.not_returned hok).elim
            · rw [step.stops_ne heq]
              exact htends
          · exact ⟨c, .inl hcharge⟩ }
  exact hind.reachable h

/-- **After which errors a job can be stopped again.** Whenever a `stop_blocking`
    returns an error, the job is unmarked, and its next stop a first one, exactly when
    the error is the one of `kill_tree` or the job has left `jobs` already: not when
    the stop file of a running job could not be written. In a run in which that never
    happens every error leaves the job stoppable, and somebody is in charge of every
    mark or has returned `true` for it. -/
theorem stop_error_unmarks_iff (paths : AppPaths) :
    (∀ w w' c id error, (app paths).Reachable w → StopStep w c w' →
      w'.stops c = .returned id (.error error) →
      (id ∉ w'.state.stopping ↔ w.Undone c id) ∧ (w'.state.Stoppable id ↔ w.Undone c id)) ∧
    ∀ w, ((app paths).restrict StopFilesWritten).Reachable w →
      (∀ w' c id error, StopStep w c w' → StopFilesWritten w w' →
        w'.stops c = .returned id (.error error) →
        id ∉ w'.state.stopping ∧ w'.state.Stoppable id) ∧
      w.Tended := by
  constructor
  · intro w w' c id error hw hstep hret
    exact hstep.error_unmarks_iff (charged hw) (table_inv hw) hret
  · intro w hw
    refine ⟨fun w' c id error hstep hwritten hret => ?_, tended hw⟩
    have hreach := hw.of_restrict
    obtain ⟨hmark, hstoppable⟩ :=
      hstep.error_unmarks_iff (charged hreach) (table_inv hreach) hret
    have hundone : w.Undone c id := by
      rcases hstep.carries (hstep.charge_of_error hret) with hstill | hok |
        ⟨pid, path, e, at_, -, hret'⟩ | ⟨pid, e, at_, -, -⟩
      · rw [hret] at hstill; cases hstill
      · rw [hret] at hok; cases hok
      · exact .inr (hwritten c id pid path e at_ hret')
      · exact .inl ⟨pid, e, at_⟩
    exact ⟨hmark.mpr hundone, hstoppable.mpr hundone⟩

/-- The call could not write the stop file. -/
def unwrittenWorld : World :=
  (markedWorld.attempt 1).setStop (.command 0) (.returned 1 (.error "Access is denied.".toList))

theorem unwrittenWorld_step : StopStep markedWorld (.command 0) unwrittenWorld :=
  .writeFails 1 4242 (somePaths.stopFile 1) "Access is denied.".toList rfl

omit [UnicodeTables] in
theorem stop_error_unmarks_iff_unwritten :
    1 ∈ unwrittenWorld.state.stopping ∧ ¬unwrittenWorld.state.Stoppable 1 := by
  let := asciiTables
  obtain ⟨hmark, hstoppable⟩ := (stop_error_unmarks_iff somePaths).1 markedWorld unwrittenWorld
    (.command 0) 1 "Access is denied.".toList markedWorld_reachable unwrittenWorld_step rfl
  have hkept : ¬markedWorld.Undone (.command 0) 1 := by
    rintro (⟨pid, error, hpc⟩ | hgone)
    · cases hpc
    · exact hgone (by decide)
  exact ⟨not_not.mp (mt hmark.mp hkept), mt hstoppable.mp hkept⟩

omit [UnicodeTables] in
theorem unwritten_stop_stays_marked :
    ¬ ∀ (w w' : World) (c : Caller) (id : Nat) (error : Text),
      (@app asciiTables somePaths).Reachable w → @StopStep asciiTables w c w' →
      w'.stops c = .returned id (.error error) → id ∉ w'.state.stopping := by
  let := asciiTables
  intro h
  exact h markedWorld unwrittenWorld (.command 0) 1 "Access is denied.".toList
    markedWorld_reachable unwrittenWorld_step rfl (by decide)

end Jobs
end LocalMeetingStt
