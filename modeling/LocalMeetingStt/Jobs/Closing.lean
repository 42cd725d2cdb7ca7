import LocalMeetingStt.Jobs.Stopping

/-!
# Closing the app (`stop_all_blocking`, `on_window_event`)

A close request of a busy app starts a thread that takes the pids of the downloads and
kills them, takes the ids of the jobs and stops each on a thread of its own, waits a
little and exits. It works from two snapshots, and nothing keeps the page from starting
something after either of them: `run` and `start_download` look at neither the
`quitting` flag nor the page's own.

So the app can exit over a recorder nobody has tried to stop (`late_job_left_running`).
`Orderly` is what has to hold of a run for that not to happen: nothing is accepted after
its snapshot, and no stop of the closing thread gives up waiting for another call
before that call has tried.
-/

namespace LocalMeetingStt
namespace Jobs

open Transition

/-- The pids of the downloads have been taken. -/
def ClosePc.downloadsSeen : ClosePc → Bool
  | .killing _ | .stopping _ | .draining => true
  | .open_ | .begun | .exited => false

/-- The ids of the jobs have been taken. -/
def ClosePc.jobsSeen : ClosePc → Bool
  | .stopping _ | .draining => true
  | .open_ | .begun | .killing _ | .exited => false

/-- A step that starts nothing the closing thread will not see, and does not end the
    closing thread's wait for another stop too soon. -/
structure Orderly (w w' : World) : Prop where
  noLateJob : w.close.jobsSeen = true → w'.handedOut = w.handedOut
  noLateDownload : w.close.downloadsSeen = true → w'.downloads.length = w.downloads.length
  patient : ∀ caller id, w.stops (.closing caller) = .waitingOther id →
    w'.stops (.closing caller) ≠ .waitingOther id → id ∉ w.state.jobs ∨ id ∈ w.attempted

/-- A job or download the app has dealt with, as far as closing is concerned. -/
def World.DealtWith (w : World) : Prop :=
  (∀ id ∈ w.handedOut, id ∉ w.state.jobs ∨ id ∈ w.attempted) ∧
    ∀ d ∈ w.downloads, d.ended = true ∨ d.attempted = true

/-! ## The downloads that run are the entries -/

structure World.DownloadTable (w : World) : Prop where
  entries : ∀ d ∈ w.downloads, d.ended = false →
    w.state.downloads.lookup d.assetId = some d.pid
  distinct : ∀ (i j : Nat) (d e : Download), w.downloads[i]? = some d → w.downloads[j]? = some e →
    d.ended = false → e.ended = false → d.assetId = e.assetId → i = j

/-- A download that has not ended is among the pids a snapshot takes. -/
theorem World.DownloadTable.listed {w : World} (h : w.DownloadTable) {d : Download}
    (hd : d ∈ w.downloads) :
    d.ended = true ∨ d.pid ∈ w.state.downloads.entries.map fun e => e.2 := by
  cases hended : d.ended with
  | true => exact .inl rfl
  | false =>
    have hentry := AList.mem_lookup_iff.mp (h.entries d hd hended)
    exact .inr (List.mem_map.mpr ⟨⟨d.assetId, d.pid⟩, hentry, rfl⟩)

/-- What `kill_tree` changes of a download is that it was attempted. -/
theorem mem_killDownloads {pid : Nat} {downloads : List Download} {d' : Download}
    (h : d' ∈ killDownloads pid downloads) :
    ∃ d ∈ downloads, d'.assetId = d.assetId ∧ d'.pid = d.pid ∧ d'.ended = d.ended ∧
      (d'.attempted = true ↔ d.attempted = true ∨ d.pid = pid) := by
  obtain ⟨d, hd, rfl⟩ := List.mem_map.mp h
  refine ⟨d, hd, ?_⟩
  split_ifs with hpid
  · simp [hpid]
  · simp [hpid]

theorem World.DownloadTable.killed {w : World} (h : w.DownloadTable) (pid : Nat) :
    ({ w with downloads := killDownloads pid w.downloads } : World).DownloadTable where
  entries d' hd' hrunning := by
    obtain ⟨d, hd, hasset, hpid, hended, -⟩ := mem_killDownloads hd'
    rw [hasset, hpid]
    exact h.entries d hd (hended ▸ hrunning)
  distinct i j d' e' hi hj hd he hasset := by
    simp only [killDownloads, List.getElem?_map, Option.map_eq_some_iff] at hi hj
    obtain ⟨d, hi, rfl⟩ := hi
    obtain ⟨e, hj, rfl⟩ := hj
    refine h.distinct i j d e hi hj ?_ ?_ ?_
    · revert hd; split_ifs <;> exact id
    · revert he; split_ifs <;> exact id
    · revert hasset; split_ifs <;> exact id

theorem startDownload_refused {s : State} {assetId executable : Text} {child : Except Text Nat}
    (h : (startDownload s assetId executable child).2 ≠ .ok true) :
    (startDownload s assetId executable child).1 = s := by
  unfold startDownload at h ⊢
  split_ifs at h ⊢
  · rfl
  · cases child with
    | error e => rfl
    | ok pid => exact absurd rfl h

theorem World.setState_refused {w : World} {assetId executable : Text} {child : Except Text Nat}
    (h : (startDownload w.state assetId executable child).2 ≠ .ok true) :
    w.setState (startDownload w.state assetId executable child).1 = w := by
  rw [startDownload_refused h]
  rfl

theorem startDownload_accepted {s : State} {assetId executable : Text} {pid : Nat}
    (h : (startDownload s assetId executable (.ok pid)).2 = .ok true) :
    s.downloads.lookup assetId = none ∧ (startDownload s assetId executable (.ok pid)).1 =
      { s with downloads := s.downloads.insert assetId pid } := by
  unfold startDownload at h ⊢
  split_ifs at h ⊢ with hfound
  · simp at h
  · exact ⟨by simpa using hfound, rfl⟩

/-- An element of a list with one more is an old one or the new one. -/
theorem getElem?_snoc {α : Type*} {l : List α} {x y : α} {i : Nat} (h : (l ++ [x])[i]? = some y) :
    l[i]? = some y ∨ (i = l.length ∧ y = x) := by
  rw [List.getElem?_append] at h
  split_ifs at h with hlt
  · exact .inl h
  · rw [List.getElem?_singleton] at h
    split_ifs at h with hzero
    exact .inr ⟨by omega, (Option.some.inj h).symm⟩

theorem World.DownloadTable.accepted {w : World} (h : w.DownloadTable) {assetId : Text}
    (pid : Nat) (habsent : w.state.downloads.lookup assetId = none) :
    ({ w with
      state := { w.state with downloads := w.state.downloads.insert assetId pid }
      downloads := w.downloads ++ [⟨assetId, pid, false, false⟩] } : World).DownloadTable := by
  have hne : ∀ d ∈ w.downloads, d.ended = false → d.assetId ≠ assetId := by
    intro d hd hrunning heq
    have := h.entries d hd hrunning
    rw [heq, habsent] at this
    cases this
  refine ⟨fun d hd hrunning => ?_, fun i j d e hi hj hd he hasset => ?_⟩
  · rcases List.mem_append.mp hd with hd | hd
    · exact (AList.lookup_insert_ne (hne d hd hrunning)).trans (h.entries d hd hrunning)
    · rw [List.mem_singleton.mp hd]
      exact AList.lookup_insert _
  · rcases getElem?_snoc hi with hi | ⟨rfl, rfl⟩ <;> rcases getElem?_snoc hj with hj | ⟨rfl, rfl⟩
    · exact h.distinct i j d e hi hj hd he hasset
    · exact absurd hasset (hne d (List.mem_of_getElem? hi) hd)
    · exact absurd hasset.symm (hne e (List.mem_of_getElem? hj) he)
    · rfl

theorem World.DownloadTable.finished {w : World} (h : w.DownloadTable) {i : Nat} {d : Download}
    (found : w.downloads[i]? = some d) (running : d.ended = false) :
    ({ w with
      state := endDownload w.state d.assetId
      downloads := w.downloads.set i { d with ended := true } } : World).DownloadTable := by
  -- What still runs ran before, at another index.
  have hother : ∀ j e, (w.downloads.set i { d with ended := true })[j]? = some e →
      e.ended = false → w.downloads[j]? = some e ∧ i ≠ j := by
    intro j e hj he
    rw [List.getElem?_set] at hj
    split_ifs at hj with heq hlt
    · obtain rfl := Option.some.inj hj
      cases he
    · exact ⟨hj, heq⟩
  refine ⟨fun e he hrunning => ?_, fun j k e f hj hk he hf hasset => ?_⟩
  · obtain ⟨j, hj⟩ := List.getElem?_of_mem he
    obtain ⟨hold, hne⟩ := hother j e hj hrunning
    have hasset : e.assetId ≠ d.assetId := fun heq =>
      hne (h.distinct i j d e found hold running hrunning heq.symm)
    exact (AList.lookup_erase_ne hasset).trans
      (h.entries e (List.mem_of_getElem? hold) hrunning)
  · exact h.distinct j k e f (hother j e hj he).1 (hother k f hk hf).1 he hf hasset

variable [UnicodeTables]

theorem World.DownloadTable.step {w w' : World} (h : w.DownloadTable) (hstep : DownloadStep w w') :
    w'.DownloadTable := by
  cases hstep with
  | refuse assetId executable child refused =>
    rwa [World.setState_refused refused]
  | accept assetId executable pid accepted =>
    obtain ⟨habsent, hstate⟩ := startDownload_accepted accepted
    have haccepted := h.accepted pid habsent
    rw [World.setState, hstate]
    exact ⟨haccepted.entries, haccepted.distinct⟩
  | log => exact ⟨h.entries, h.distinct⟩
  | finish i d found running =>
    exact ⟨(h.finished found running).entries, (h.finished found running).distinct⟩
  | lookAbsent | look => exact ⟨h.entries, h.distinct⟩
  | kill n assetId pid result => exact ⟨(h.killed pid).entries, (h.killed pid).distinct⟩

/-! ## What a stop has done when it returns -/

/-- A call past its attempt has made it; one that has returned has, or the job is gone. -/
def StopPc.Dealt (w : World) : StopPc → Prop
  | .written id _ | .waitingCooperative id _ | .killFailed id _ _ | .unmarking id _ _ =>
    id ∈ w.attempted
  | .returned id _ => id ∈ w.state.jobs → id ∈ w.attempted
  | .idle | .marked _ _ _ | .waitingOther _ | .checking _ _ | .forcing _ _ | .killing _ _ => True

omit [UnicodeTables] in
theorem StopPc.Dealt.mono {w w' : World} {pc : StopPc} (h : pc.Dealt w)
    (hjobs : ∀ id, id ∈ w'.state.jobs → id ∈ w.state.jobs)
    (hattempted : w.attempted ⊆ w'.attempted) : pc.Dealt w' := by
  cases pc with
  | written | waitingCooperative | killFailed | unmarking => exact hattempted h
  | returned id result => exact fun hin => hattempted (h (hjobs id hin))
  | idle | marked | waitingOther | checking | forcing | killing => trivial

omit [UnicodeTables] in
theorem State.isRunning_eq_false {s : State} {id : Nat} (h : s.isRunning id = false) :
    id ∉ s.jobs := by
  rw [← AList.lookup_isSome, Bool.not_eq_true]
  exact h

theorem StopStep.dealt {w w' : World} {c : Caller} (h : StopStep w c w')
    (hpatient : ∀ id, w.stops c = .waitingOther id → w'.stops c ≠ .waitingOther id →
      id ∉ w.state.jobs ∨ id ∈ w.attempted)
    (hdealt : (w.stops c).Dealt w) : (w'.stops c).Dealt w' := by
  have hattempt : ∀ id, id ∈ insert id w.attempted := fun id => Finset.mem_insert_self _ _
  cases h with
  | enter id at_ may =>
    rw [World.setStop_self]
    unfold enterStop
    cases hjob : w.state.jobs.lookup id with
    | none => exact fun hin => absurd hin (AList.lookup_eq_none.mp hjob)
    | some job =>
      dsimp only
      cases decide (id ∉ w.state.stopping) <;> trivial
  | waited id at_ =>
    have hgone := hpatient id at_ (by simp)
    rw [World.setStop_self]
    intro hin
    exact hgone.resolve_left fun hout => hout hin
  | write id _ _ _ | killFails id _ _ _ =>
    rw [World.setStop_self]
    exact hattempt id
  | writeFails id _ _ _ _ | killed id _ _ =>
    rw [World.setStop_self]
    exact fun _ => hattempt id
  | gone id pid at_ left | goneAfter id pid error at_ left =>
    rw [World.setStop_self]
    exact fun hin => absurd hin (State.isRunning_eq_false left)
  | logStopping now id pid at_ | stillRunning id pid error at_ _ =>
    rw [World.setStop_self]
    rw [at_] at hdealt
    exact hdealt
  | unmark id pid error at_ =>
    rw [World.setStop_self]
    rw [at_] at hdealt
    exact fun _ => hdealt
  | noStopFile | waitedCooperative | force | logForced =>
    rw [World.setStop_self]
    trivial

/-! ## What the closing thread knows -/

/-- The invariant of a run in order: the closing thread's snapshots cover what runs, and
    what it is through with has been dealt with. -/
structure World.Closing (w : World) : Prop where
  table : w.DownloadTable
  quitting : w.quitting = false → w.close = .open_ ∨ w.close = .exited
  idle : w.close.jobsSeen = false → w.close ≠ .exited → ∀ id, w.stops (.closing id) = .idle
  dealt : ∀ caller, (w.stops (.closing caller)).Dealt w
  downloads : match w.close with
    | .killing pids =>
      ∀ d ∈ w.downloads, d.ended = true ∨ d.attempted = true ∨ d.pid ∈ pids
    | .stopping _ | .draining | .exited =>
      ∀ d ∈ w.downloads, d.ended = true ∨ d.attempted = true
    | .open_ | .begun => True
  jobs : match w.close with
    | .stopping ids => ∀ id ∈ w.state.jobs, id ∈ ids
    | .draining | .exited => ∀ id ∈ w.state.jobs, id ∈ w.attempted
    | .open_ | .begun | .killing _ => True

omit [UnicodeTables] in
/-- Steps that leave the closing thread and the downloads alone, enter no job and make
    attempts only. -/
theorem World.Closing.aside {w w' : World} (h : w.Closing) (hclose : w'.close = w.close)
    (hquitting : w'.quitting = w.quitting)
    (hdownloads : w'.downloads = w.downloads)
    (hentries : w'.state.downloads = w.state.downloads)
    (hjobs : ∀ id, id ∈ w'.state.jobs → id ∈ w.state.jobs)
    (hattempted : w.attempted ⊆ w'.attempted)
    (hidle : w.close.jobsSeen = false → w.close ≠ .exited →
      ∀ id, w'.stops (.closing id) = w.stops (.closing id))
    (hdealt : ∀ caller, (w'.stops (.closing caller)).Dealt w') : w'.Closing where
  table := ⟨by rw [hdownloads, hentries]; exact h.table.entries,
    by rw [hdownloads]; exact h.table.distinct⟩
  quitting := by rw [hquitting, hclose]; exact h.quitting
  idle hseen hopen id := by
    rw [hclose] at hseen hopen
    rw [hidle hseen hopen]
    exact h.idle hseen hopen id
  dealt := hdealt
  downloads := by
    rw [hclose, hdownloads]
    exact h.downloads
  jobs := by
    have hold := h.jobs
    rw [hclose]
    cases hpc : w.close with
    | stopping ids =>
      rw [hpc] at hold
      exact fun id hin => hold id (hjobs id hin)
    | draining | exited =>
      rw [hpc] at hold
      exact fun id hin => hattempted (hold id (hjobs id hin))
    | open_ | begun | killing => trivial

/-! ## Every step in order keeps it -/

theorem retryOnline_downloads (s : State) (id : Nat) (now : Text) (online : CommandSpec)
    (child : Except Text Nat) :
    (retryOnline s id now online child).state.downloads = s.downloads := by
  unfold retryOnline
  split_ifs
  · rfl
  · split
    · rfl
    · split <;> rfl

theorem World.Closing.thread {paths : AppPaths} {w w' : World} {id : Nat} {t : Thread}
    (h : w.Closing) (hstep : ThreadStep paths w id t w') : w'.Closing := by
  have hframe := hstep.frame
  have hsame : w'.close = w.close ∧ w'.quitting = w.quitting ∧ w'.downloads = w.downloads ∧
      w'.attempted = w.attempted ∧ w'.state.downloads = w.state.downloads := by
    cases hstep with
    | retry _ _ _ _ _ _ _ _ | retryRefused _ _ _ _ _ _ _ =>
      exact ⟨rfl, rfl, rfl, rfl, retryOnline_downloads _ _ _ _ _⟩
    | emitStart | watch | readOut | readErr | closeOut | closeErr | exit | report | repair
    | repairFails | forget | logExit | emitExit => exact ⟨rfl, rfl, rfl, rfl, rfl⟩
  obtain ⟨hclose, hquitting, hdownloads, hattempted, hentries⟩ := hsame
  refine h.aside hclose hquitting hdownloads hentries hframe.jobs (by rw [hattempted]) ?_ ?_
  · exact fun _ _ id => by rw [hframe.stops]
  · intro caller
    rw [hframe.stops]
    exact (h.dealt caller).mono hframe.jobs (by rw [hattempted])

omit [UnicodeTables] in
theorem World.Closing.run {w : World} {paths : AppPaths} (h : w.Closing)
    (hopen : w.close ≠ .exited) (r : RunRequest)
    (horder : Orderly w (w.accept (runLocked paths w.state w.files r))) :
    (w.accept (runLocked paths w.state w.files r)).Closing := by
  have heffect := runLocked_effect paths w.state w.files r
  generalize runLocked paths w.state w.files r = outcome at heffect horder ⊢
  cases heffect with
  | @refused state _ _ jobs stopping downloads ids =>
    have hsame : ∀ id, id ∈ state.jobs → id ∈ w.state.jobs := fun id hin => jobs ▸ hin
    exact h.aside rfl rfl rfl downloads hsame (Finset.Subset.refl _) (fun _ _ _ => rfl)
      fun caller => (h.dealt caller).mono hsame (Finset.Subset.refl _)
  | @accepted _ a _ idle id _ =>
    -- The closing thread has not looked at the jobs yet.
    have hunseen : w.close.jobsSeen = false := by
      by_contra hseen
      have := horder.noLateJob (by simpa using hseen)
      simp [World.accept, World.setState, World.setFiles, World.setThread] at this
    exact
      { table := ⟨h.table.entries, h.table.distinct⟩
        quitting := h.quitting
        idle := h.idle
        dealt := fun caller => by
          show (w.stops (.closing caller)).Dealt _
          rw [h.idle hunseen hopen]
          trivial
        downloads := h.downloads
        jobs := by
          show match w.close with
            | .stopping ids => _
            | .draining | .exited => _
            | .open_ | .begun | .killing _ => True
          revert hunseen hopen
          cases w.close <;> simp [ClosePc.jobsSeen] }

theorem World.Closing.stop {w w' : World} {c : Caller} (h : w.Closing) (hopen : w.close ≠ .exited)
    (hstep : StopStep w c w') (horder : Orderly w w') : w'.Closing := by
  have hsame : w'.close = w.close ∧ w'.quitting = w.quitting ∧ w'.downloads = w.downloads ∧
      w'.state.downloads = w.state.downloads ∧ w.attempted ⊆ w'.attempted ∧
      w'.state.jobs = w.state.jobs := by
    cases hstep with
    | enter id _ _ =>
      refine ⟨rfl, rfl, rfl, ?_, Finset.Subset.refl _, ?_⟩
      · show (enterStop w.state id).1.downloads = _
        unfold enterStop
        split <;> rfl
      · show (enterStop w.state id).1.jobs = _
        unfold enterStop
        split <;> rfl
    | write | writeFails | killed | killFails =>
      exact ⟨rfl, rfl, rfl, rfl, Finset.subset_insert _ _, rfl⟩
    | waited | noStopFile | logStopping | waitedCooperative | gone | force | logForced
    | goneAfter | stillRunning | unmark =>
      exact ⟨rfl, rfl, rfl, rfl, Finset.Subset.refl _, rfl⟩
  obtain ⟨hclose, hquitting, hdownloads, hentries, hattempted, hjobs⟩ := hsame
  refine h.aside hclose hquitting hdownloads hentries (fun id hin => hjobs ▸ hin) hattempted ?_ ?_
  · intro hunseen _ id
    refine hstep.stops_ne ?_
    rintro rfl
    -- Before the snapshot no stop of the closing thread can begin.
    have hidle := h.idle hunseen hopen id
    cases hstep with
    | enter i _ may =>
      obtain ⟨-, ids, hpc, -⟩ := may
      rw [hpc] at hunseen
      cases hunseen
    | _ => simp_all
  · intro caller
    by_cases heq : Caller.closing caller = c
    · subst heq
      exact hstep.dealt (horder.patient caller) (h.dealt caller)
    · rw [hstep.stops_ne heq]
      exact (h.dealt caller).mono (fun id hin => hjobs ▸ hin) hattempted

omit [UnicodeTables] in
/-- What holds of a download that ended or was attempted still does after a kill. -/
theorem killed_kept {pid : Nat} {downloads : List Download} {P : Download → Prop}
    (hP : ∀ d d' : Download, d'.pid = d.pid → d'.ended = d.ended →
      (d.attempted = true → d'.attempted = true) → P d → P d')
    (h : ∀ d ∈ downloads, P d) : ∀ d ∈ killDownloads pid downloads, P d := by
  intro d' hd'
  obtain ⟨d, hd, -, hpid, hended, hattempted⟩ := mem_killDownloads hd'
  exact hP d d' hpid hended (fun h => hattempted.mpr (.inl h)) (h d hd)

omit [UnicodeTables] in
theorem finished_kept {i : Nat} {d : Download} {downloads : List Download} {P : Download → Prop}
    (hP : P { d with ended := true }) (h : ∀ d ∈ downloads, P d) :
    ∀ e ∈ downloads.set i { d with ended := true }, P e := by
  intro e he
  rcases List.mem_or_eq_of_mem_set he with he | rfl
  · exact h e he
  · exact hP

/-- A step of the downloads that keeps what the closing thread knows of each of them. -/
theorem World.Closing.ofDownloads {w w' : World} (h : w.Closing) (hstep : DownloadStep w w')
    (hclose : w'.close = w.close) (hquitting : w'.quitting = w.quitting)
    (hstops : w'.stops = w.stops) (hattempted : w'.attempted = w.attempted)
    (hkept : ∀ P : Download → Prop, (∀ d d' : Download, d'.pid = d.pid →
      (d'.ended = d.ended ∨ d'.ended = true) → (d.attempted = true → d'.attempted = true) →
      P d → P d') → (∀ d ∈ w.downloads, P d) → ∀ d ∈ w'.downloads, P d) : w'.Closing := by
  have hjobs : w'.state.jobs = w.state.jobs := congrArg Table.jobs hstep.table
  refine ⟨h.table.step hstep, ?_, ?_, fun caller => ?_, ?_, ?_⟩
  · rw [hquitting, hclose]
    exact h.quitting
  · rw [hclose, hstops]
    exact h.idle
  · rw [hstops]
    exact (h.dealt caller).mono (fun id hin => hjobs ▸ hin) (by rw [hattempted])
  · have hold := h.downloads
    rw [hclose]
    cases hpc : w.close with
    | killing pids =>
      rw [hpc] at hold
      refine hkept _ (fun d d' hpid hended hatt hd => ?_) hold
      rcases hended with hended | hended
      · rw [hpid, hended]
        exact hd.imp_right (Or.imp_left hatt)
      · exact .inl hended
    | stopping | draining | exited =>
      rw [hpc] at hold
      refine hkept _ (fun d d' hpid hended hatt hd => ?_) hold
      rcases hended with hended | hended
      · rw [hended]
        exact hd.imp_right hatt
      · exact .inl hended
    | open_ | begun => trivial
  · rw [hclose, hjobs, hattempted]
    exact h.jobs

theorem World.Closing.download {w w' : World} (h : w.Closing) (hopen : w.close ≠ .exited)
    (hstep : DownloadStep w w') (horder : Orderly w w') : w'.Closing := by
  cases hstep with
  | refuse assetId executable child refused =>
    rwa [World.setState_refused refused]
  | accept assetId executable pid accepted =>
    have hstep := DownloadStep.accept assetId executable pid accepted
    have hjobs : (startDownload w.state assetId executable (.ok pid)).1.jobs = w.state.jobs :=
      congrArg Table.jobs hstep.table
    -- The closing thread has not looked at the downloads yet.
    have hunseen : w.close.downloadsSeen = false := by
      by_contra hseen
      have := horder.noLateDownload (by simpa using hseen)
      simp at this
    refine ⟨h.table.step hstep, h.quitting, h.idle, fun caller => ?_, ?_, ?_⟩
    · exact (h.dealt caller).mono (fun id hin => hjobs ▸ hin) (Finset.Subset.refl _)
    · show match w.close with
        | .killing _ => _
        | .stopping _ | .draining | .exited => _
        | .open_ | .begun => True
      revert hunseen hopen
      cases w.close <;> simp [ClosePc.downloadsSeen]
    · show match w.close with
        | .stopping _ => _
        | .draining | .exited => _
        | .open_ | .begun | .killing _ => True
      revert hunseen hopen
      cases w.close <;> simp [ClosePc.downloadsSeen]
  | log now stream lines d found running =>
    exact h.ofDownloads (.log now stream lines d found running) rfl rfl rfl rfl fun _ _ h => h
  | finish i d found running =>
    refine h.ofDownloads (.finish i d found running) rfl rfl rfl rfl fun P hP hall => ?_
    exact finished_kept (hP d _ rfl (.inr rfl) id (hall d (List.mem_of_getElem? found))) hall
  | lookAbsent n assetId at_ absent =>
    exact h.ofDownloads (.lookAbsent n assetId at_ absent) rfl rfl rfl rfl fun _ _ h => h
  | look n assetId pid at_ found =>
    exact h.ofDownloads (.look n assetId pid at_ found) rfl rfl rfl rfl fun _ _ h => h
  | kill n assetId pid result at_ answer =>
    refine h.ofDownloads (.kill n assetId pid result at_ answer) rfl rfl rfl rfl fun P hP hall => ?_
    exact killed_kept (fun d d' hpid hended hatt => hP d d' hpid (.inl hended) hatt) hall

omit [UnicodeTables] in
theorem World.Closing.close {w w' : World} (h : w.Closing) (hopen : w.close ≠ .exited)
    (hstep : CloseStep w w') : w'.Closing := by
  have htable : ∀ pc, ({ w with close := pc } : World).DownloadTable := by
    intro pc
    exact ⟨h.table.entries, h.table.distinct⟩
  -- Once the closing thread has begun, the flag stays up.
  have hbegun : ∀ {pc : ClosePc}, w.close ≠ .open_ → w.quitting = false →
      pc = .open_ ∨ pc = .exited := by
    intro pc hpc hq
    rcases h.quitting hq with heq | heq
    · exact absurd heq hpc
    · exact absurd heq hopen
  cases hstep with
  | idle quiet =>
    simp only [State.busy, Bool.or_eq_false_iff, Bool.not_eq_false'] at quiet
    refine ⟨htable _, fun _ => .inr rfl, fun _ hne => absurd rfl hne, h.dealt, ?_, ?_⟩
    · intro d hd
      have hlisted := h.table.listed hd
      rw [List.isEmpty_iff.mp quiet.2] at hlisted
      exact .inl (hlisted.resolve_right List.not_mem_nil)
    · intro id hin
      rw [entries_isEmpty_iff.mp quiet.1] at hin
      exact absurd hin (AList.notMem_empty id)
  | request busy first =>
    have hpc : w.close = .open_ := (h.quitting first).resolve_right hopen
    exact ⟨⟨h.table.entries, h.table.distinct⟩, fun hq => by simp at hq,
      fun _ _ => h.idle (by rw [hpc]; rfl) hopen, h.dealt, trivial, trivial⟩
  | snapshotDownloads pids at_ snapshot =>
    refine ⟨htable _, hbegun (by simp [at_]), fun _ _ => h.idle (by rw [at_]; rfl) hopen, h.dealt,
      ?_, trivial⟩
    intro d hd
    rcases h.table.listed hd with hended | hlisted
    · exact .inl hended
    · exact .inr (.inr (snapshot.mem_iff.mpr hlisted))
  | kill pid pids at_ =>
    have hold := h.downloads
    rw [at_] at hold
    refine ⟨⟨(h.table.killed pid).entries, (h.table.killed pid).distinct⟩,
      hbegun (by simp [at_]), fun _ _ => h.idle (by rw [at_]; rfl) hopen, h.dealt, ?_, trivial⟩
    intro d' hd'
    obtain ⟨d, hd, -, hpid, hended, hattempted⟩ := mem_killDownloads hd'
    rw [hpid, hended, hattempted]
    rcases hold d hd with hended | htried | hlisted
    · exact .inl hended
    · exact .inr (.inl (.inl htried))
    · rcases List.mem_cons.mp hlisted with heq | hrest
      · exact .inr (.inl (.inr heq))
      · exact .inr (.inr hrest)
  | snapshotJobs ids at_ snapshot =>
    have hold := h.downloads
    rw [at_] at hold
    refine ⟨htable _, hbegun (by simp [at_]), fun hseen => (by cases hseen), h.dealt, ?_, ?_⟩
    · exact fun d hd => (hold d hd).imp_right fun h => h.resolve_right List.not_mem_nil
    · exact fun id hin => snapshot.mem_iff.mpr (AList.mem_keys.mp hin)
  | joined ids at_ returned =>
    have hold := h.downloads
    have hids := h.jobs
    rw [at_] at hold hids
    refine ⟨htable _, hbegun (by simp [at_]), fun hseen => (by cases hseen), h.dealt, hold, ?_⟩
    -- Each stop that has returned has dealt with its job.
    intro id hin
    obtain ⟨result, hret⟩ := returned id (hids id hin)
    have hdealt := h.dealt id
    rw [hret] at hdealt
    exact hdealt hin
  | exit at_ =>
    have hold := h.downloads
    have hjobs := h.jobs
    rw [at_] at hold hjobs
    exact ⟨htable _, fun _ => .inr rfl, fun _ hne => absurd rfl hne, h.dealt, hold, hjobs⟩

theorem closing {paths : AppPaths} {w : World}
    (h : ((app paths).restrict Orderly).Reachable w) : w.Closing := by
  have hind : ((app paths).restrict Orderly).Inductive World.Closing :=
    { start := by
        rintro _ ⟨files, rfl⟩
        exact ⟨⟨by simp [World.start], by simp [World.start]⟩, fun _ => .inl rfl,
          fun _ _ _ => rfl, fun _ => trivial, trivial, trivial⟩
      step := by
        rintro w w' - hclosing ⟨⟨hopen, hstep⟩, horder⟩
        cases hstep with
        | run r => exact hclosing.run hopen r horder
        | thread id t _ step => exact hclosing.thread step
        | stop c step => exact hclosing.stop hopen step horder
        | download step => exact hclosing.download hopen step horder
        | close step => exact hclosing.close hopen step
        | others files =>
          exact ⟨⟨hclosing.table.entries, hclosing.table.distinct⟩, hclosing.quitting,
            hclosing.idle, hclosing.dealt, hclosing.downloads, hclosing.jobs⟩ }
  exact hind.reachable h

/-- **When the app exits in order, nothing is left running untried.** In every run that
    starts no job after the closing thread has taken the ids, no download after it has
    taken the pids, and in which its stops do not give up waiting before the stop they
    wait for has tried: when the app has exited, every job and download it ever started
    has ended or has been given an attempt. -/
theorem orderly_exit_deals_with_all (paths : AppPaths) (w : World)
    (hw : ((app paths).restrict Orderly).Reachable w) (hexit : w.close = .exited) :
    w.DealtWith := by
  have h := closing hw
  have hjobs := h.jobs
  have hdownloads := h.downloads
  rw [hexit] at hjobs hdownloads
  refine ⟨fun id _ => ?_, hdownloads⟩
  by_cases hin : id ∈ w.state.jobs
  · exact .inr (hjobs id hin)
  · exact .inl hin

/-- The closing thread has killed the one download, process 11, and found no job. -/
def downloadKilledWorld : World :=
  { World.start fun _ => none with
    state := { State.new with downloads := State.new.downloads.insert "vad".toList 11 }
    downloads := [⟨"vad".toList, 11, false, true⟩]
    quitting := true
    close := .stopping [] }

omit [UnicodeTables] in
theorem downloadKilledWorld_reachable :
    ((@app asciiTables somePaths).restrict Orderly).Reachable downloadKilledWorld := by
  let := asciiTables
  have horder : ∀ {w w' : World}, w'.handedOut = w.handedOut →
      (w.close.downloadsSeen = true → w'.downloads.length = w.downloads.length) →
      (∀ caller id, w.stops (.closing caller) ≠ .waitingOther id) → Orderly w w' :=
    fun hids hlen hidle => ⟨fun _ => hids, hlen, fun caller id h => absurd h (hidle caller id)⟩
  have h₀ : ((app somePaths).restrict Orderly).Reachable (World.start fun _ => none) :=
    .start ⟨_, rfl⟩
  have h₁ := h₀.next ⟨⟨by decide, .download (.accept "vad".toList "uv".toList 11 rfl)⟩,
    horder rfl (fun h => by cases h) (fun _ _ h => by cases h)⟩
  have h₂ := h₁.next ⟨⟨by decide, .close (.request rfl rfl)⟩,
    horder rfl (fun _ => rfl) (fun _ _ h => by cases h)⟩
  have h₃ := h₂.next ⟨⟨by decide, .close (.snapshotDownloads [11] rfl (.refl _))⟩,
    horder rfl (fun _ => rfl) (fun _ _ h => by cases h)⟩
  have h₄ := h₃.next ⟨⟨by decide, .close (.kill 11 [] rfl)⟩,
    horder rfl (fun _ => rfl) (fun _ _ h => by cases h)⟩
  exact h₄.next ⟨⟨by decide, .close (.snapshotJobs [] rfl (.refl _))⟩,
    horder rfl (fun _ => rfl) (fun _ _ h => by cases h)⟩

omit [UnicodeTables] in
theorem orderly_exit_deals_with_all_download :
    ({ downloadKilledWorld with close := .exited } : World).DealtWith := by
  let := asciiTables
  have hidle : ∀ caller id, downloadKilledWorld.stops (.closing caller) ≠ .waitingOther id :=
    fun _ _ h => by cases h
  have hjoined := downloadKilledWorld_reachable.next
    ⟨⟨by decide, .close (.joined [] rfl (by simp))⟩,
      fun _ => rfl, fun _ => rfl, fun caller id h => absurd h (hidle caller id)⟩
  exact orderly_exit_deals_with_all somePaths _ (hjoined.next
    ⟨⟨by decide, .close (.exit rfl)⟩, fun _ => rfl, fun _ => rfl,
      fun caller id h => absurd h (hidle caller id)⟩) rfl

omit [UnicodeTables] in
/-- A recording accepted while the closing thread waits outlives the app. -/
theorem late_job_left_running :
    ¬ ∀ w, (@app asciiTables somePaths).Reachable w → w.close = .exited → w.DealtWith := by
  let := asciiTables
  intro h
  have h₀ := downloadKilledWorld_reachable.of_restrict
  have h₁ := h₀.next ⟨by decide, .run recordRequest⟩
  have h₂ := h₁.next ⟨by decide, .close (.joined [] rfl (by simp))⟩
  have h₃ := h₂.next ⟨by decide, .close (.exit rfl)⟩
  rcases (h _ h₃ rfl).1 1 (by decide) with hgone | htried
  · exact hgone (by decide)
  · exact absurd htried (by decide)

end Jobs
end LocalMeetingStt
