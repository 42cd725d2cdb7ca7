import LocalMeetingStt.Jobs.World

/-!
# The job table

What `Jobs` promises its callers is about ids, entries, marks and the threads behind them;
logs, files and the closing thread do not come into it. `Table` is that part of the world,
and `Table.Step` says in seven rules everything that can happen to it: nothing, a job
accepted, a thread going on, a job restarted, forgotten, marked, or unmarked.

`step_table` is the connection: every step of the world is a step of the table. The
invariants below are proved of the seven rules, and `World`'s forty are not looked at
again.
-/

namespace LocalMeetingStt
namespace Jobs

/-! ## The table and its steps -/

/-- The tables of the runner, and the ids it has handed out. -/
structure Table where
  jobs : AList fun _ : Nat => Job
  stopping : Finset Nat
  nextId : Nat
  threads : Nat → Option Thread
  handedOut : List Nat

/-- The tables in the world. -/
def World.table (w : World) : Table where
  jobs := w.state.jobs
  stopping := w.state.stopping
  nextId := w.state.nextId
  threads := w.threads
  handedOut := w.handedOut

/-- The pid a job's entry must hold: that of its running attempt. -/
def Thread.current (t : Thread) : Option Nat := if t.registered then some t.attempt.pid else none

/-- What a thread keeps as long as it neither restarts nor forgets its job. -/
structure Thread.GoesOn (t t' : Thread) : Prop where
  current : t'.current = t.current
  retry : t'.retry = t.retry
  previous : t'.previous = t.previous
  offline : t'.attempt.offline = t.attempt.offline

/-- One step of the runner, as far as its tables go. -/
inductive Table.Step (T : Table) : Table → Prop
  /-- Nothing but perhaps ids that were drawn and not handed out. -/
  | quiet (n : Nat) (ids : T.nextId ≤ n) : Table.Step T { T with nextId := n }
  | accept (a : Accepted) (stopFile : Option Text) (idle : T.jobs = ∅)
      (id : a.processId = T.nextId) :
      Table.Step T
        { T with
          jobs := T.jobs.insert a.processId { pid := a.pid, stopFile }
          nextId := T.nextId + 1
          threads := Function.update T.threads a.processId (some (.new a))
          handedOut := T.handedOut ++ [a.processId] }
  | goOn (id : Nat) (t t' : Thread) (found : T.threads id = some t) (goesOn : t.GoesOn t') :
      Table.Step T { T with threads := Function.update T.threads id (some t') }
  | restart (id : Nat) (t : Thread) (job : Job) (pid : Nat) (found : T.threads id = some t)
      (unmarked : id ∉ T.stopping) (entry : T.jobs.lookup id = some job)
      (watching : t.registered = true) (once : t.retry.isSome)
      (drained : t.attempt.drained = true) (failed : t.attempt.failedToResolve = true) :
      Table.Step T
        { T with
          jobs := T.jobs.insert id { job with pid }
          threads := Function.update T.threads id (some (t.restarted pid)) }
  | forget (id : Nat) (t : Thread) (stopped : Bool) (found : T.threads id = some t) :
      Table.Step T
        { T with
          jobs := T.jobs.erase id
          stopping := T.stopping.erase id
          threads := Function.update T.threads id (some (t.at_ (.removed stopped))) }
  | mark (id : Nat) (running : id ∈ T.jobs) :
      Table.Step T { T with stopping := insert id T.stopping }
  | unmark (id : Nat) : Table.Step T { T with stopping := T.stopping.erase id }

/-! ## Every step of the world is one of the table -/

theorem Table.Step.refl (T : Table) : T.Step T := .quiet T.nextId le_rfl

theorem Thread.GoesOn.of_phase {t : Thread} {phase : Phase}
    (h : (t.at_ phase).registered = t.registered) : t.GoesOn (t.at_ phase) where
  current := by unfold Thread.current; rw [h]; rfl
  retry := rfl
  previous := rfl
  offline := rfl

theorem Thread.GoesOn.of_attempt {t : Thread} {attempt : Attempt}
    (hpid : attempt.pid = t.attempt.pid) (hoffline : attempt.offline = t.attempt.offline) :
    t.GoesOn (t.withAttempt attempt) where
  current := by
    unfold Thread.current
    show (if t.registered then some attempt.pid else none) = _
    rw [hpid]
  retry := rfl
  previous := rfl
  offline := hoffline

theorem Thread.retryWith_eq_some {t : Thread} {online : CommandSpec}
    (h : t.retryWith = some online) :
    t.attempt.failedToResolve = true ∧ t.retry = some online := by
  unfold Thread.retryWith at h
  split_ifs at h with hfailed
  exact ⟨hfailed, h⟩

variable [UnicodeTables]

/-- `retry_online` answers a child only when the job is there and not being stopped. -/
theorem retryOnline_child {s : State} {id pid : Nat} {now : Text} {online : CommandSpec}
    {child : Except Text Nat} (h : (retryOnline s id now online child).child = some pid) :
    id ∉ s.stopping ∧ ∃ job, s.jobs.lookup id = some job ∧
      (retryOnline s id now online child).state =
        { s with jobs := s.jobs.insert id { job with pid } } := by
  unfold retryOnline at h ⊢
  split_ifs at h ⊢ with hmarked
  refine ⟨hmarked, ?_⟩
  split at h
  · cases h
  · next job hjob =>
    split at h
    · obtain rfl := Option.some.inj h
      exact ⟨job, hjob, rfl⟩
    · cases h

theorem retryOnline_refused {s : State} {id : Nat} {now : Text} {online : CommandSpec}
    {child : Except Text Nat} (h : (retryOnline s id now online child).child = none) :
    (retryOnline s id now online child).state = s := by
  unfold retryOnline at h ⊢
  split_ifs at h ⊢
  · rfl
  · split at h
    · rfl
    · split at h
      · cases h
      · rfl

theorem ThreadStep.table {paths : AppPaths} {w w' : World} {id : Nat} {t : Thread}
    (found : w.threads id = some t) (h : ThreadStep paths w id t w') :
    w.table.Step w'.table := by
  cases h with
  | emitStart at_ | watch _ at_ | report at_ _ _ =>
    exact .goOn id t _ found (.of_phase (by unfold Thread.registered; rw [at_]; rfl))
  | repair _ _ _ at_ | repairFails _ _ _ _ _ at_ =>
    exact .goOn id t _ found (.of_phase (by unfold Thread.registered; rw [at_]; rfl))
  | logExit _ _ _ at_ _ | emitExit _ _ at_ _ =>
    exact .goOn id t _ found (.of_phase (by unfold Thread.registered; rw [at_]; rfl))
  | readOut _ _ _ _ | readErr _ _ _ _ | closeOut _ | closeErr _ | exit _ _ _ =>
    exact .goOn id t _ found (.of_attempt rfl rfl)
  | retry now online child pid at_ drained failed spawned =>
    obtain ⟨hmarked, job, hjob, hstate⟩ := retryOnline_child spawned
    obtain ⟨hfailed, hretry⟩ := Thread.retryWith_eq_some failed
    have hwatching : t.registered = true := by unfold Thread.registered; rw [at_]
    have hstep := Table.Step.restart (T := w.table) id t job pid found hmarked hjob hwatching
      (by rw [hretry]; rfl) drained hfailed
    simpa only [World.table, World.setThread, World.emit, World.setState, hstate] using hstep
  | retryRefused now online child at_ _ _ refused =>
    have hgoes : t.GoesOn (t.at_ (.reporting t.attempt.reading.recordings)) :=
      .of_phase (by unfold Thread.registered; rw [at_]; rfl)
    have hstep := Table.Step.goOn (T := w.table) id t _ found hgoes
    simpa only [World.table, World.setThread, World.emit, World.setState,
      retryOnline_refused refused] using hstep
  | forget _ =>
    exact .forget id t _ found

theorem StopStep.table {w w' : World} {c : Caller} (h : StopStep w c w') :
    w.table.Step w'.table := by
  cases h with
  | enter id _ _ =>
    cases hjob : w.state.jobs.lookup id with
    | none => simpa [World.table, World.setStop, World.setState, enterStop, hjob] using .refl _
    | some job =>
      have hin : id ∈ w.table.jobs := AList.lookup_isSome.mp (by simp [World.table, hjob])
      simpa [World.table, World.setStop, World.setState, enterStop, hjob] using
        Table.Step.mark id hin
  | unmark id _ _ _ => exact .unmark id
  | waited | write | writeFails | noStopFile | logStopping | waitedCooperative | gone | force
  | logForced | killed | killFails | goneAfter | stillRunning => exact .refl _

theorem DownloadStep.table {w w' : World} (h : DownloadStep w w') : w'.table = w.table := by
  have hstart : ∀ assetId executable child,
      (w.setState (startDownload w.state assetId executable child).1).table = w.table := by
    intro assetId executable child
    unfold startDownload
    split_ifs
    · rfl
    · cases child <;> rfl
  cases h with
  | refuse assetId executable child _ => exact hstart assetId executable child
  | accept assetId executable pid _ => exact hstart assetId executable (.ok pid)
  | log | finish | lookAbsent | look | kill => rfl

omit [UnicodeTables] in
theorem CloseStep.table {w w' : World} (h : CloseStep w w') : w'.table = w.table := by
  cases h <;> rfl

/-- **The world refines the table.** -/
theorem step_table {paths : AppPaths} {w w' : World} (h : Step paths w w') :
    w.table.Step w'.table := by
  cases h with
  | run r =>
    have heffect := runLocked_effect paths w.state w.files r
    generalize runLocked paths w.state w.files r = outcome at heffect ⊢
    cases heffect with
    | refused jobs stopping _ ids =>
      have hstep := Table.Step.quiet (T := w.table) _ ids
      simpa only [World.table, World.accept, World.setState, World.setFiles, jobs, stopping]
        using hstep
    | @accepted _ a stopFile idle id _ =>
      have hstep := Table.Step.accept (T := w.table) a stopFile idle id
      simpa only [World.table, World.accept, World.setState, World.setFiles, World.setThread, id]
        using hstep
  | thread id t found step => exact step.table found
  | stop c step => exact step.table
  | download step => exact step.table ▸ .refl _
  | close step => exact step.table ▸ .refl _
  | others files => exact .refl _

/-! ## What holds of every table -/

/-- A job restarts once at most, and what it was restarted after was an offline attempt
    that exited without success and said why. -/
structure Thread.RestartedOnce (t : Thread) : Prop where
  pending : t.retry.isSome → t.previous = [] ∧ t.attempt.offline = true
  once : t.previous.length ≤ 1
  because : ∀ a ∈ t.previous,
    a.offline = true ∧ a.drained = true ∧ a.failedToResolve = true

structure Table.Inv (T : Table) : Prop where
  single : T.jobs.keys.length ≤ 1
  marked : ∀ id ∈ T.stopping, id ∈ T.jobs
  /-- The ids handed out are those with a thread, are below the next one, and no two are
      the same. -/
  known : ∀ id, id ∈ T.handedOut ↔ (T.threads id).isSome
  fresh : ∀ id ∈ T.handedOut, 0 < id ∧ id < T.nextId
  next : 0 < T.nextId
  nodup : T.handedOut.Nodup
  /-- A job is entered under the pid of its running attempt, until it is forgotten. -/
  entry : ∀ id, (T.jobs.lookup id).map Job.pid = (T.threads id).bind Thread.current
  restarts : ∀ id t, T.threads id = some t → t.RestartedOnce

omit [UnicodeTables]

theorem Thread.RestartedOnce.goesOn {t t' : Thread} (h : t.RestartedOnce) (hgo : t.GoesOn t') :
    t'.RestartedOnce where
  pending hretry := by
    rw [hgo.previous, hgo.offline]
    exact h.pending (hgo.retry ▸ hretry)
  once := hgo.previous ▸ h.once
  because := hgo.previous ▸ h.because

theorem Thread.RestartedOnce.new (a : Accepted) : (Thread.new a).RestartedOnce where
  pending hretry := by
    refine ⟨rfl, ?_⟩
    unfold Thread.new at hretry ⊢
    dsimp only at hretry
    split_ifs at hretry with hoffline
    · exact hoffline
    · cases hretry
  once := Nat.zero_le 1
  because _ h := absurd h List.not_mem_nil

theorem Thread.RestartedOnce.restarted {t : Thread} (h : t.RestartedOnce) (pid : Nat)
    (hretry : t.retry.isSome) (hdrained : t.attempt.drained = true)
    (hfailed : t.attempt.failedToResolve = true) : (t.restarted pid).RestartedOnce := by
  obtain ⟨hprevious, hoffline⟩ := h.pending hretry
  have hlast : (t.restarted pid).previous = [t.attempt] := by simp [Thread.restarted, hprevious]
  refine ⟨fun h => absurd h (by simp [Thread.restarted]), by simp [hlast], ?_⟩
  intro a ha
  rw [hlast, List.mem_singleton] at ha
  subst ha
  exact ⟨hoffline, hdrained, hfailed⟩

theorem Thread.restarted_current (t : Thread) (pid : Nat) (h : t.registered = true) :
    (t.restarted pid).current = some pid := by
  have hreg : (t.restarted pid).registered = true := h
  rw [Thread.current, if_pos hreg]
  rfl

/-- The threads of a table after one of them has moved. -/
theorem forall_update {threads : Nat → Option Thread} {P : Thread → Prop} {id : Nat} {t : Thread}
    (h : ∀ id t, threads id = some t → P t) (ht : P t) :
    ∀ id' t', Function.update threads id (some t) id' = some t' → P t' := by
  intro id' t' hfound
  by_cases heq : id' = id
  · subst heq
    rw [Function.update_self] at hfound
    exact Option.some.inj hfound ▸ ht
  · rw [Function.update_of_ne heq] at hfound
    exact h id' t' hfound

theorem isSome_update {threads : Nat → Option Thread} {id : Nat} {t t' : Thread}
    (found : threads id = some t) (id' : Nat) :
    (Function.update threads id (some t') id').isSome = (threads id').isSome := by
  by_cases heq : id' = id
  · subst heq
    rw [Function.update_self, found]
    rfl
  · rw [Function.update_of_ne heq]

/-- The entries still hold the pids of the running attempts, when those of one job have
    moved together. -/
theorem entry_update {jobs jobs' : AList fun _ : Nat => Job} {threads : Nat → Option Thread}
    {id : Nat} {t : Thread}
    (h : ∀ i, (jobs.lookup i).map Job.pid = (threads i).bind Thread.current)
    (hown : (jobs'.lookup id).map Job.pid = t.current)
    (hothers : ∀ i, i ≠ id → jobs'.lookup i = jobs.lookup i) :
    ∀ i, (jobs'.lookup i).map Job.pid =
      (Function.update threads id (some t) i).bind Thread.current := by
  intro i
  by_cases heq : i = id
  · subst heq
    rw [Function.update_self]
    exact hown
  · rw [Function.update_of_ne heq, hothers i heq]
    exact h i

/-- The next id is nobody's. -/
theorem Table.Inv.next_unknown {T : Table} (h : T.Inv) : T.threads T.nextId = none := by
  rw [← Option.not_isSome_iff_eq_none, ← h.known]
  exact fun hmem => Nat.lt_irrefl _ (h.fresh _ hmem).2

theorem Table.Inv.goOn {T : Table} (h : T.Inv) {id : Nat} {t t' : Thread}
    (found : T.threads id = some t) (goesOn : t.GoesOn t') :
    Table.Inv { T with threads := Function.update T.threads id (some t') } :=
  { h with
    known := by
      intro i
      rw [isSome_update found]
      exact h.known i
    entry := by
      refine entry_update h.entry ?_ fun _ _ => rfl
      rw [h.entry, found, goesOn.current]
      rfl
    restarts := forall_update h.restarts ((h.restarts id t found).goesOn goesOn) }

/-- A job is accepted under an id nobody has, into a table without jobs. -/
theorem Table.Inv.accept {T : Table} (h : T.Inv) {a : Accepted} {stopFile : Option Text}
    (idle : T.jobs = ∅) (id : a.processId = T.nextId) :
    Table.Inv
      { T with
        jobs := T.jobs.insert a.processId { pid := a.pid, stopFile }
        nextId := T.nextId + 1
        threads := Function.update T.threads a.processId (some (.new a))
        handedOut := T.handedOut ++ [a.processId] } where
  single := by simp [idle]
  marked := by
    intro i hi
    have := h.marked i hi
    rw [idle] at this
    exact absurd this (AList.notMem_empty i)
  known := by
    intro i
    by_cases heq : i = a.processId
    · subst heq
      simp
    · simp [← h.known, heq]
  fresh := by
    intro i hi
    rcases List.mem_append.mp hi with hi | hi
    · exact ⟨(h.fresh i hi).1, Nat.lt_succ_of_lt (h.fresh i hi).2⟩
    · rw [List.mem_singleton.mp hi, id]
      exact ⟨h.next, Nat.lt_succ_self _⟩
  next := Nat.succ_pos _
  nodup := by
    rw [List.nodup_append]
    refine ⟨h.nodup, List.nodup_singleton _, fun i hi j hj => ?_⟩
    rw [List.mem_singleton.mp hj, id]
    exact Nat.ne_of_lt (h.fresh i hi).2
  entry := by
    refine entry_update h.entry ?_ fun i heq => AList.lookup_insert_ne heq
    rw [AList.lookup_insert]
    rfl
  restarts := forall_update h.restarts (.new a)

/-- A restart changes the pid of the entry and of the thread together. -/
theorem Table.Inv.restart {T : Table} (h : T.Inv) {id : Nat} {t : Thread} {job : Job} (pid : Nat)
    (found : T.threads id = some t) (entry : T.jobs.lookup id = some job)
    (watching : t.registered = true) (hrestarts : (t.restarted pid).RestartedOnce) :
    Table.Inv
      { T with
        jobs := T.jobs.insert id { job with pid }
        threads := Function.update T.threads id (some (t.restarted pid)) } :=
  have hin : id ∈ T.jobs := AList.lookup_isSome.mp (by simp [entry])
  { h with
    single := by
      rw [AList.keys_insert, List.length_cons, List.length_erase_of_mem (AList.mem_keys.mp hin)]
      have := h.single
      have := List.length_pos_of_mem (AList.mem_keys.mp hin)
      omega
    marked := fun i hi => (AList.mem_insert _).mpr (.inr (h.marked i hi))
    known := by
      intro i
      rw [isSome_update found]
      exact h.known i
    entry := by
      refine entry_update h.entry ?_ fun i heq => AList.lookup_insert_ne heq
      rw [AList.lookup_insert]
      exact (t.restarted_current pid watching).symm
    restarts := forall_update h.restarts hrestarts }

theorem Table.Inv.forget {T : Table} (h : T.Inv) {id : Nat} {t : Thread} (stopped : Bool)
    (found : T.threads id = some t) :
    Table.Inv
      { T with
        jobs := T.jobs.erase id
        stopping := T.stopping.erase id
        threads := Function.update T.threads id (some (t.at_ (.removed stopped))) } :=
  have hkeep := h.restarts id t found
  { h with
    single := by
      rw [AList.keys_erase]
      exact Nat.le_trans (List.erase_sublist.length_le) h.single
    marked := by
      intro i hi
      rw [Finset.mem_erase] at hi
      exact AList.mem_erase.mpr ⟨hi.1, h.marked i hi.2⟩
    known := by
      intro i
      rw [isSome_update found]
      exact h.known i
    entry := by
      refine entry_update h.entry ?_ fun i heq => AList.lookup_erase_ne heq
      rw [AList.lookup_erase]
      rfl
    restarts := forall_update h.restarts ⟨hkeep.pending, hkeep.once, hkeep.because⟩ }

theorem Table.Inv.step {T T' : Table} (h : T.Inv) (hstep : T.Step T') : T'.Inv := by
  cases hstep with
  | quiet n ids =>
    exact
      { h with
        fresh := fun id hid => ⟨(h.fresh id hid).1, Nat.lt_of_lt_of_le (h.fresh id hid).2 ids⟩
        next := Nat.lt_of_lt_of_le h.next ids }
  | accept a stopFile idle id => exact h.accept idle id
  | goOn id t t' found goesOn => exact h.goOn found goesOn
  | restart id t job pid found unmarked entry watching once drained failed =>
    exact h.restart pid found entry watching
      ((h.restarts id t found).restarted pid once drained failed)
  | forget id t stopped found => exact h.forget stopped found
  | mark id running =>
    refine { h with marked := fun i hi => ?_ }
    rcases Finset.mem_insert.mp hi with rfl | hi
    · exact running
    · exact h.marked i hi
  | unmark id =>
    exact { h with marked := fun i hi => h.marked i (Finset.mem_of_mem_erase hi) }

theorem Table.inv_start (files : Files) : (World.start files).table.Inv where
  single := Nat.zero_le 1
  marked id h := absurd h (Finset.notMem_empty id)
  known id := by simp [World.table, World.start]
  fresh id h := absurd h List.not_mem_nil
  next := Nat.one_pos
  nodup := List.nodup_nil
  entry id := rfl
  restarts id t h := by cases h

/-- The invariant of the table, of every state the app can be in. -/
theorem table_inv [UnicodeTables] {paths : AppPaths} {w : World}
    (h : (app paths).Reachable w) : w.table.Inv := by
  have hind : (app paths).Inductive fun w => w.table.Inv :=
    { start := by rintro _ ⟨files, rfl⟩; exact Table.inv_start files
      step := fun _ hinv hstep => hinv.step (step_table hstep.2) }
  exact hind.reachable h

end Jobs
end LocalMeetingStt
