import LocalMeetingStt.Jobs.Stopping

/-!
# The stop that waits for another (`stop_blocking`)

A call that finds the job marked leaves the work to the call that marked it: it polls
until the job has left `jobs` or its own deadline is over, and returns `true` either way.
Its comment says that it waits for the same outcome, and nothing it looks at tells it
what that outcome is.

Which stop a call found under way, and which calls killed a process tree, is not in the
state of the app. `Watched` adds a record of both; it takes nothing away from what the app
can do (`watched_of_reachable`). `Watched.Sound` is what the record knows, and the last
theorem is what it is for: a waiting call agrees with the stop it found exactly when, on
giving up on a job that still runs, that stop has already answered `true`.
-/

namespace LocalMeetingStt
namespace Jobs

open Transition

/-! ## The record -/

structure Watched where
  world : World
  /-- The call that marked a job last. -/
  marker : Nat → Option Caller
  /-- The stop a call found under way. -/
  found : Caller → Option Caller
  /-- The calls whose `kill_tree` did its work. -/
  killed : Finset Caller

namespace Watched

/-- The record after a step of the stop `c`. -/
def observe (g : Watched) (c : Caller) (w' : World) : Watched where
  world := w'
  marker :=
    match w'.stops c with
    | .marked id _ _ => Function.update g.marker id (some c)
    | _ => g.marker
  found :=
    match w'.stops c with
    | .waitingOther id => Function.update g.found c (g.marker id)
    | _ => g.found
  killed :=
    match g.world.stops c, w'.stops c with
    | .killing _ _, .returned _ _ => insert c g.killed
    | _, _ => g.killed

end Watched

section

variable [UnicodeTables]

inductive WatchedStep (paths : AppPaths) (g : Watched) : Watched → Prop
  | stop (c : Caller) {w' : World} (step : StopStep g.world c w') :
      WatchedStep paths g (g.observe c w')
  | other {w' : World} (step : Step paths g.world w') (others : ∀ c, ¬ StopStep g.world c w') :
      WatchedStep paths g { g with world := w' }

def watchedApp (paths : AppPaths) : System Watched where
  init g := ∃ files, g = ⟨World.start files, fun _ => none, fun _ => none, ∅⟩
  next g g' := g.world.close ≠ .exited ∧ WatchedStep paths g g'

theorem WatchedStep.step {paths : AppPaths} {g g' : Watched} (h : WatchedStep paths g g') :
    Step paths g.world g'.world := by
  cases h with
  | stop c step => exact .stop c step
  | other step _ => exact step

theorem Watched.reachable {paths : AppPaths} {g : Watched}
    (h : (watchedApp paths).Reachable g) : (app paths).Reachable g.world := by
  induction h with
  | start hinit =>
    obtain ⟨files, rfl⟩ := hinit
    exact .start ⟨files, rfl⟩
  | next _ hnext ih => exact ih.next ⟨hnext.1, hnext.2.step⟩

/-- Every run of the app is the run of a recorded one. -/
theorem watched_of_reachable {paths : AppPaths} {w : World} (h : (app paths).Reachable w) :
    ∃ g, (watchedApp paths).Reachable g ∧ g.world = w := by
  induction h with
  | start hinit =>
    obtain ⟨files, rfl⟩ := hinit
    exact ⟨_, .start ⟨files, rfl⟩, rfl⟩
  | @next w w' _ hnext ih =>
    obtain ⟨g, hg, rfl⟩ := ih
    by_cases hstop : ∃ c, StopStep g.world c w'
    · obtain ⟨c, step⟩ := hstop
      exact ⟨g.observe c w', hg.next ⟨hnext.1, .stop c step⟩, rfl⟩
    · refine ⟨{ g with world := w' }, hg.next ⟨hnext.1, .other hnext.2 ?_⟩, rfl⟩
      exact fun c step => hstop ⟨c, step⟩

end

/-! ## What one call can do -/

/-- The job a call is about, from the moment it has found it in `jobs`. -/
def StopPc.job : StopPc → Option Nat
  | .idle | .returned _ (.ok false) => none
  | .marked id _ _ | .waitingOther id | .written id _ | .waitingCooperative id _
  | .checking id _ | .forcing id _ | .killing id _ | .killFailed id _ _ | .unmarking id _ _
  | .returned id _ => some id

theorem StopPc.job_of_charge {pc : StopPc} {id : Nat} (h : pc.charge = some id) :
    pc.job = some id := by
  cases pc with
  | idle | waitingOther | returned => cases h
  | marked | written | waitingCooperative | checking | forcing | killing | killFailed
  | unmarking => exact h

/-- The step of one call, with what it leaves of the marks and of the record. -/
inductive Move (g : Watched) (c : Caller) (g' : Watched) : Prop
  | absent (id : Nat) (at_ : g.world.stops c = .idle)
      (stops : g'.world.stops = Function.update g.world.stops c (.returned id (.ok false)))
      (state : g'.world.state = g.world.state)
      (record : g'.marker = g.marker ∧ g'.found = g.found ∧ g'.killed = g.killed)
  | marks (id pid : Nat) (stopFile : Option Text) (at_ : g.world.stops c = .idle)
      (stops : g'.world.stops = Function.update g.world.stops c (.marked id pid stopFile))
      (entered : id ∈ g.world.state.jobs) (jobs : g'.world.state.jobs = g.world.state.jobs)
      (stopping : g'.world.state.stopping = insert id g.world.state.stopping)
      (record : g'.marker = Function.update g.marker id (some c) ∧ g'.found = g.found ∧
        g'.killed = g.killed)
  | waits (id : Nat) (at_ : g.world.stops c = .idle)
      (stops : g'.world.stops = Function.update g.world.stops c (.waitingOther id))
      (entered : id ∈ g.world.state.jobs) (marked : id ∈ g.world.state.stopping)
      (state : g'.world.state = g.world.state)
      (record : g'.marker = g.marker ∧ g'.found = Function.update g.found c (g.marker id) ∧
        g'.killed = g.killed)
  | works (id : Nat) (pc : StopPc) (charge : (g.world.stops c).charge = some id)
      (stays : pc.charge = some id)
      (stops : g'.world.stops = Function.update g.world.stops c pc)
      (state : g'.world.state = g.world.state)
      (record : g'.marker = g.marker ∧ g'.found = g.found ∧ g'.killed = g.killed)
  | leaves (id : Nat) (charge : (g.world.stops c).charge = some id)
      (left : id ∉ g.world.state.jobs)
      (stops : g'.world.stops = Function.update g.world.stops c (.returned id (.ok true)))
      (state : g'.world.state = g.world.state)
      (record : g'.marker = g.marker ∧ g'.found = g.found ∧ g'.killed = g.killed)
  | kills (id : Nat) (charge : (g.world.stops c).charge = some id)
      (stops : g'.world.stops = Function.update g.world.stops c (.returned id (.ok true)))
      (state : g'.world.state = g.world.state)
      (record : g'.marker = g.marker ∧ g'.found = g.found ∧ g'.killed = insert c g.killed)
  | fails (id : Nat) (error : Text) (charge : (g.world.stops c).charge = some id)
      (stops : g'.world.stops = Function.update g.world.stops c (.returned id (.error error)))
      (jobs : g'.world.state.jobs = g.world.state.jobs)
      (stopping : g'.world.state.stopping ⊆ g.world.state.stopping)
      (record : g'.marker = g.marker ∧ g'.found = g.found ∧ g'.killed = g.killed)
  | givesUp (id : Nat) (at_ : g.world.stops c = .waitingOther id)
      (stops : g'.world.stops = Function.update g.world.stops c (.returned id (.ok true)))
      (state : g'.world.state = g.world.state)
      (record : g'.marker = g.marker ∧ g'.found = g.found ∧ g'.killed = g.killed)

theorem not_mem_of_isRunning {s : State} {id : Nat} (h : s.isRunning id = false) :
    id ∉ s.jobs := by
  intro hin
  have := AList.lookup_isSome.mpr hin
  rw [show (s.jobs.lookup id).isSome = false from h] at this
  cases this

/-- The locked section a call begins with. -/
theorem enter_move {g : Watched} {c : Caller} {id : Nat} (at_ : g.world.stops c = .idle) :
    Move g c (g.observe c ((g.world.setState (enterStop g.world.state id).1).setStop c
      (.entered id (enterStop g.world.state id).2))) := by
  cases hfound : (enterStop g.world.state id).2 with
  | none =>
    refine .absent id at_ rfl ?_ ?_
    · show (enterStop g.world.state id).1 = g.world.state
      unfold enterStop at hfound ⊢
      cases hjob : g.world.state.jobs.lookup id with
      | none => rfl
      | some job => simp [hjob] at hfound
    · simp [Watched.observe, StopPc.entered, at_]
  | some answer =>
    obtain ⟨pid, stopFile, first⟩ := answer
    have hentered : enterStop g.world.state id =
        ((enterStop g.world.state id).1, some (pid, stopFile, first)) := Prod.ext rfl hfound
    obtain ⟨hentry, -, hfirst, hstate⟩ := enterStop_some hentered
    have hin : id ∈ g.world.state.jobs := by
      apply AList.lookup_isSome.mp
      rw [← Option.isSome_map (f := Job.pid), hentry]
      rfl
    cases first with
    | true =>
      refine .marks id pid stopFile at_ rfl hin ?_ ?_ ?_
      · show (enterStop g.world.state id).1.jobs = g.world.state.jobs
        rw [hstate]
      · show (enterStop g.world.state id).1.stopping = insert id g.world.state.stopping
        rw [hstate]
      · simp [Watched.observe, StopPc.entered, at_]
    | false =>
      have hmarked : id ∈ g.world.state.stopping := by simpa using hfirst
      refine .waits id at_ rfl hin hmarked ?_ ?_
      · show (enterStop g.world.state id).1 = g.world.state
        rw [hstate, Finset.insert_eq_of_mem hmarked]
      · simp [Watched.observe, StopPc.entered, at_]

/-- A call in charge that goes on being in charge. -/
theorem works_move {g : Watched} {c : Caller} {w' : World} {id : Nat} {pc : StopPc}
    (charge : (g.world.stops c).charge = some id) (stays : pc.charge = some id)
    (unmarked : ∀ pid stopFile, pc ≠ .marked id pid stopFile)
    (stops : w'.stops = Function.update g.world.stops c pc)
    (state : w'.state = g.world.state) : Move g c (g.observe c w') := by
  refine .works id pc charge stays stops state ?_
  have hpc : w'.stops c = pc := by rw [stops, Function.update_self]
  cases pc with
  | idle | waitingOther | returned => cases stays
  | marked i pid stopFile => exact absurd rfl (Option.some.inj stays ▸ unmarked pid stopFile)
  | written | waitingCooperative | checking | forcing | killing | killFailed | unmarking =>
    simp [Watched.observe, hpc]

section

variable [UnicodeTables]

theorem StopStep.move {g : Watched} {c : Caller} {w' : World} (h : StopStep g.world c w') :
    Move g c (g.observe c w') := by
  cases h with
  | enter id at_ _ => exact enter_move at_
  | waited id at_ =>
    refine .givesUp id at_ rfl rfl ?_
    simp [Watched.observe, at_]
  | write id pid path at_ =>
    exact works_move (by rw [at_]; rfl) rfl (by simp) rfl rfl
  | writeFails id pid path error at_ =>
    refine .fails id error (by rw [at_]; rfl) rfl rfl (Finset.Subset.refl _) ?_
    simp [Watched.observe, at_]
  | noStopFile id pid at_ =>
    exact works_move (by rw [at_]; rfl) rfl (by simp) rfl rfl
  | logStopping now id pid at_ =>
    exact works_move (by rw [at_]; rfl) rfl (by simp) rfl rfl
  | waitedCooperative id pid at_ =>
    exact works_move (by rw [at_]; rfl) rfl (by simp) rfl rfl
  | gone id pid at_ left =>
    refine .leaves id (by rw [at_]; rfl) (not_mem_of_isRunning left) rfl rfl ?_
    simp [Watched.observe, at_]
  | force id pid at_ _ =>
    exact works_move (by rw [at_]; rfl) rfl (by simp) rfl rfl
  | logForced now id pid at_ =>
    exact works_move (by rw [at_]; rfl) rfl (by simp) rfl rfl
  | killed id pid at_ =>
    refine .kills id (by rw [at_]; rfl) rfl rfl ?_
    simp [Watched.observe, at_]
  | killFails id pid error at_ =>
    exact works_move (by rw [at_]; rfl) rfl (by simp) rfl rfl
  | goneAfter id pid error at_ left =>
    refine .leaves id (by rw [at_]; rfl) (not_mem_of_isRunning left) rfl rfl ?_
    simp [Watched.observe, at_]
  | stillRunning id pid error at_ _ =>
    exact works_move (by rw [at_]; rfl) rfl (by simp) rfl rfl
  | unmark id pid error at_ =>
    refine .fails id error (by rw [at_]; rfl) rfl rfl (Finset.erase_subset _ _) ?_
    simp [Watched.observe, at_]

end

theorem Move.stops_ne {g g' : Watched} {c c' : Caller} (h : Move g c g') (hne : c' ≠ c) :
    g'.world.stops c' = g.world.stops c' := by
  cases h with
  | absent _ _ stops | marks _ _ _ _ stops | waits _ _ stops | works _ _ _ _ stops
  | leaves _ _ _ stops | kills _ _ stops | fails _ _ _ stops | givesUp _ _ stops =>
    rw [stops, Function.update_of_ne hne]

/-- No call forgets its job. -/
theorem Move.job {g g' : Watched} {c c' : Caller} {id : Nat} (h : Move g c g')
    (hjob : (g.world.stops c').job = some id) : (g'.world.stops c').job = some id := by
  by_cases heq : c' = c
  · subst heq
    cases h with
    | absent _ at_ | marks _ _ _ at_ | waits _ at_ => rw [at_] at hjob; cases hjob
    | works i pc charge stays stops =>
      rw [StopPc.job_of_charge charge] at hjob
      rw [stops, Function.update_self, StopPc.job_of_charge stays]
      exact hjob
    | leaves i charge _ stops | kills i charge stops | fails i _ charge stops =>
      rw [StopPc.job_of_charge charge] at hjob
      rw [stops, Function.update_self]
      exact hjob
    | givesUp i at_ stops =>
      rw [at_] at hjob
      rw [stops, Function.update_self]
      exact hjob
  · rw [h.stops_ne heq]
    exact hjob

theorem Move.jobs {g g' : Watched} {c : Caller} (h : Move g c g') :
    g'.world.state.jobs = g.world.state.jobs := by
  cases h with
  | marks _ _ _ _ _ _ jobs | fails _ _ _ _ jobs => exact jobs
  | absent _ _ _ state | waits _ _ _ _ _ state | works _ _ _ _ _ state | leaves _ _ _ _ state
  | kills _ _ _ state | givesUp _ _ _ state => rw [state]

/-- A call that has returned does nothing more. -/
theorem Move.not_returned {g g' : Watched} {c : Caller} {id : Nat} {r : Except Text Bool}
    (h : Move g c g') : g.world.stops c ≠ .returned id r := by
  intro hpc
  cases h with
  | absent _ at_ | marks _ _ _ at_ | waits _ at_ | givesUp _ at_ => rw [hpc] at at_; cases at_
  | works _ _ charge | leaves _ charge | kills _ charge | fails _ _ charge =>
    rw [hpc] at charge
    cases charge

/-! ## What the record knows -/

structure Watched.Sound (g : Watched) : Prop where
  /-- A call's job is one `run` has answered. -/
  known : ∀ c id, (g.world.stops c).job = some id → id ∈ g.world.handedOut
  /-- The mark of a running job is a call's that found no other. -/
  marked : ∀ id, id ∈ g.world.state.jobs → id ∈ g.world.state.stopping →
    ∃ o, g.marker id = some o ∧ (g.world.stops o).job = some id ∧ g.found o = none
  /-- A waiting call has found the stop of a call that found no other. -/
  waits : ∀ c id, g.world.stops c = .waitingOther id → ∃ o, g.found c = some o
  found : ∀ c o, g.found c = some o → g.found o = none ∧
    ∃ id, (g.world.stops o).job = some id ∧
      (g.world.stops c = .waitingOther id ∨ g.world.stops c = .returned id (.ok true))
  /-- A call that did not wait answers `true` on a running job only after a kill. -/
  answered : ∀ c id, g.world.stops c = .returned id (.ok true) → g.found c = none →
    id ∈ g.world.state.jobs → c ∈ g.killed
  killed : ∀ c ∈ g.killed, ∃ id, g.world.stops c = .returned id (.ok true)

namespace Watched.Sound

variable {g g' : Watched} {c : Caller}

theorem found_of_idle (h : g.Sound) (at_ : g.world.stops c = .idle) : g.found c = none := by
  by_contra hsome
  obtain ⟨o, ho⟩ := Option.ne_none_iff_exists'.mp hsome
  obtain ⟨-, id, -, hpc | hpc⟩ := h.found c o ho <;> rw [at_] at hpc <;> cases hpc

theorem found_of_charge (h : g.Sound) {id : Nat} (charge : (g.world.stops c).charge = some id) :
    g.found c = none := by
  by_contra hsome
  obtain ⟨o, ho⟩ := Option.ne_none_iff_exists'.mp hsome
  obtain ⟨-, i, -, hpc | hpc⟩ := h.found c o ho <;> rw [hpc] at charge <;> cases charge

/-- A call that has found its job in `jobs` is about a job `run` has answered. -/
theorem move_known (h : g.Sound) (hmove : Move g c g')
    (hids : ∀ id, id ∈ g.world.state.jobs → id ∈ g.world.handedOut) (c' : Caller) (id : Nat)
    (hjob : (g'.world.stops c').job = some id) : id ∈ g.world.handedOut := by
  by_cases heq : c' = c
  · subst heq
    cases hmove with
    | absent i _ stops =>
      rw [stops, Function.update_self] at hjob
      cases hjob
    | marks i _ _ _ stops entered | waits i _ stops entered =>
      rw [stops, Function.update_self] at hjob
      exact Option.some.inj hjob ▸ hids i entered
    | works i pc charge stays stops =>
      rw [stops, Function.update_self, StopPc.job_of_charge stays] at hjob
      exact h.known c' id ((StopPc.job_of_charge charge).trans hjob)
    | leaves i charge _ stops | kills i charge stops | fails i _ charge stops =>
      rw [stops, Function.update_self] at hjob
      exact h.known c' id ((StopPc.job_of_charge charge).trans hjob)
    | givesUp i at_ stops =>
      rw [stops, Function.update_self] at hjob
      exact h.known c' id (by rw [at_]; exact hjob)
  · rw [hmove.stops_ne heq] at hjob
    exact h.known c' id hjob

theorem move_marked (h : g.Sound) (hmove : Move g c g') (id : Nat)
    (hin : id ∈ g'.world.state.jobs) (hmark : id ∈ g'.world.state.stopping) :
    ∃ o, g'.marker id = some o ∧ (g'.world.stops o).job = some id ∧ g'.found o = none := by
  rw [hmove.jobs] at hin
  have hkeeps : ∀ o, (g.world.stops o).job = some id → (g'.world.stops o).job = some id :=
    fun o => hmove.job
  -- Wherever the mark was there before, the call that set it is still the one.
  have hbefore : id ∈ g.world.state.stopping → g'.marker id = g.marker id →
      (∀ o, (g.world.stops o).job = some id → g'.found o = g.found o) →
      ∃ o, g'.marker id = some o ∧ (g'.world.stops o).job = some id ∧ g'.found o = none := by
    intro hmark hmarker hfound
    obtain ⟨o, ho, hjob, hnone⟩ := h.marked id hin hmark
    exact ⟨o, hmarker.trans ho, hkeeps o hjob, (hfound o hjob).trans hnone⟩
  cases hmove with
  | absent _ _ _ state record | works _ _ _ _ _ state record | leaves _ _ _ _ state record
  | kills _ _ _ state record | givesUp _ _ _ state record =>
    obtain ⟨hmarker, hfound, -⟩ := record
    exact hbefore (state ▸ hmark) (by rw [hmarker]) (fun o _ => by rw [hfound])
  | fails _ _ _ _ _ stopping record =>
    obtain ⟨hmarker, hfound, -⟩ := record
    exact hbefore (stopping hmark) (by rw [hmarker]) (fun o _ => by rw [hfound])
  | marks i pid stopFile at_ stops entered _ stopping record =>
    obtain ⟨hmarker, hfound, -⟩ := record
    rw [stopping] at hmark
    by_cases heq : id = i
    · subst heq
      refine ⟨c, ?_, ?_, hfound ▸ h.found_of_idle at_⟩
      · rw [hmarker, Function.update_self]
      · rw [stops, Function.update_self]
        rfl
    · refine hbefore ((Finset.mem_insert.mp hmark).resolve_left heq) ?_ (fun o _ => by rw [hfound])
      rw [hmarker, Function.update_of_ne heq]
  | waits i at_ stops entered marked state record =>
    obtain ⟨hmarker, hfound, -⟩ := record
    refine hbefore (state ▸ hmark) (by rw [hmarker]) fun o hjob => ?_
    -- The call that found the mark was idle, so it is not the one that set it.
    have hne : o ≠ c := by
      rintro rfl
      rw [at_] at hjob
      cases hjob
    rw [hfound, Function.update_of_ne hne]

theorem move_waits (h : g.Sound) (hmove : Move g c g') (c' : Caller) (id : Nat)
    (hpc : g'.world.stops c' = .waitingOther id) : ∃ o, g'.found c' = some o := by
  by_cases heq : c' = c
  · subst heq
    cases hmove with
    | waits i at_ stops entered marked _ record =>
      obtain ⟨-, hfound, -⟩ := record
      obtain ⟨o, ho, -, -⟩ := h.marked i entered marked
      exact ⟨o, by rw [hfound, Function.update_self, ho]⟩
    | works i pc charge stays stops =>
      rw [stops, Function.update_self] at hpc
      rw [hpc] at stays
      cases stays
    | absent _ _ stops | marks _ _ _ _ stops | leaves _ _ _ stops | kills _ _ stops
    | fails _ _ _ stops | givesUp _ _ stops =>
      rw [stops, Function.update_self] at hpc
      cases hpc
  · rw [hmove.stops_ne heq] at hpc
    obtain ⟨o, ho⟩ := h.waits c' id hpc
    refine ⟨o, ?_⟩
    cases hmove with
    | waits _ _ _ _ _ _ record => rw [record.2.1, Function.update_of_ne heq, ho]
    | absent _ _ _ _ record | marks _ _ _ _ _ _ _ _ record | works _ _ _ _ _ _ record
    | leaves _ _ _ _ _ record | kills _ _ _ _ record | fails _ _ _ _ _ _ record
    | givesUp _ _ _ _ record => rw [record.2.1, ho]

theorem move_found (h : g.Sound) (hmove : Move g c g') (c' o : Caller)
    (ho : g'.found c' = some o) : g'.found o = none ∧ ∃ id, (g'.world.stops o).job = some id ∧
      (g'.world.stops c' = .waitingOther id ∨ g'.world.stops c' = .returned id (.ok true)) := by
  have hkeeps : ∀ o id, (g.world.stops o).job = some id → (g'.world.stops o).job = some id :=
    fun o id => hmove.job
  have hothers : c' ≠ c → g'.world.stops c' = g.world.stops c' := hmove.stops_ne
  -- A call that had found none before its step leaves what the others found as it was.
  have hbefore : g'.found = g.found → g.found c = none → g'.found o = none ∧
      ∃ id, (g'.world.stops o).job = some id ∧
        (g'.world.stops c' = .waitingOther id ∨ g'.world.stops c' = .returned id (.ok true)) := by
    intro hfound hnone
    rw [hfound] at ho
    obtain ⟨hno, id, hjob, hpc⟩ := h.found c' o ho
    have hne : c' ≠ c := by
      rintro rfl
      rw [hnone] at ho
      cases ho
    exact ⟨hfound ▸ hno, id, hkeeps o id hjob, by rw [hothers hne]; exact hpc⟩
  cases hmove with
  | absent _ at_ _ _ record | marks _ _ _ at_ _ _ _ _ record =>
    exact hbefore record.2.1 (h.found_of_idle at_)
  | works _ _ charge _ _ _ record | leaves _ charge _ _ _ record | kills _ charge _ _ record
  | fails _ _ charge _ _ _ record =>
    exact hbefore record.2.1 (h.found_of_charge charge)
  | waits i at_ stops entered marked _ record =>
    obtain ⟨-, hfound, -⟩ := record
    have hidle : ∀ o id, (g.world.stops o).job = some id → o ≠ c := by
      rintro o id hjob rfl
      rw [at_] at hjob
      cases hjob
    by_cases heq : c' = c
    · subst heq
      rw [hfound, Function.update_self] at ho
      obtain ⟨o', ho', hjob, hno⟩ := h.marked i entered marked
      obtain rfl : o' = o := Option.some.inj (ho'.symm.trans ho)
      refine ⟨?_, i, hkeeps o' i hjob, Or.inl (by rw [stops, Function.update_self])⟩
      rw [hfound, Function.update_of_ne (hidle o' i hjob), hno]
    · rw [hfound, Function.update_of_ne heq] at ho
      obtain ⟨hno, id, hjob, hpc⟩ := h.found c' o ho
      refine ⟨?_, id, hkeeps o id hjob, by rw [hothers heq]; exact hpc⟩
      rw [hfound, Function.update_of_ne (hidle o id hjob), hno]
  | givesUp i at_ stops _ record =>
    rw [record.2.1] at ho ⊢
    obtain ⟨hno, id, hjob, hpc⟩ := h.found c' o ho
    refine ⟨hno, id, hkeeps o id hjob, ?_⟩
    by_cases heq : c' = c
    · subst heq
      rw [at_] at hpc
      obtain rfl : i = id := by
        rcases hpc with hpc | hpc <;> cases hpc
        rfl
      exact Or.inr (by rw [stops, Function.update_self])
    · rw [hothers heq]
      exact hpc

theorem move_answered (h : g.Sound) (hmove : Move g c g') (c' : Caller) (id : Nat)
    (hpc : g'.world.stops c' = .returned id (.ok true)) (hnone : g'.found c' = none)
    (hin : id ∈ g'.world.state.jobs) : c' ∈ g'.killed := by
  rw [hmove.jobs] at hin
  by_cases heq : c' = c
  · subst heq
    cases hmove with
    | kills _ _ _ _ record => exact record.2.2 ▸ Finset.mem_insert_self _ _
    | leaves i _ left stops =>
      rw [stops, Function.update_self] at hpc
      cases hpc
      exact absurd hin left
    | givesUp i at_ _ _ record =>
      obtain ⟨o, ho⟩ := h.waits c' i at_
      rw [record.2.1, ho] at hnone
      cases hnone
    | works i pc _ stays stops =>
      rw [stops, Function.update_self] at hpc
      rw [hpc] at stays
      cases stays
    | absent _ _ stops | marks _ _ _ _ stops | waits _ _ stops | fails _ _ _ stops =>
      rw [stops, Function.update_self] at hpc
      cases hpc
  · rw [hmove.stops_ne heq] at hpc
    have hbefore : g.found c' = none → c' ∈ g.killed := fun hnone =>
      h.answered c' id hpc hnone hin
    cases hmove with
    | waits _ _ _ _ _ _ record =>
      rw [record.2.1, Function.update_of_ne heq] at hnone
      exact record.2.2 ▸ hbefore hnone
    | kills _ _ _ _ record =>
      exact record.2.2 ▸ Finset.mem_insert_of_mem (hbefore (record.2.1 ▸ hnone))
    | absent _ _ _ _ record | marks _ _ _ _ _ _ _ _ record | works _ _ _ _ _ _ record
    | leaves _ _ _ _ _ record | fails _ _ _ _ _ _ record | givesUp _ _ _ _ record =>
      exact record.2.2 ▸ hbefore (record.2.1 ▸ hnone)

theorem move_killed (h : g.Sound) (hmove : Move g c g') (c' : Caller) (hin : c' ∈ g'.killed) :
    ∃ id, g'.world.stops c' = .returned id (.ok true) := by
  have hnew : c' ∈ g.killed ∨ c' = c ∧ ∃ id, g'.world.stops c = .returned id (.ok true) := by
    cases hmove with
    | kills id _ stops _ record =>
      rw [record.2.2] at hin
      rcases Finset.mem_insert.mp hin with heq | hin
      · exact Or.inr ⟨heq, id, by rw [stops, Function.update_self]⟩
      · exact Or.inl hin
    | absent _ _ _ _ record | marks _ _ _ _ _ _ _ _ record | waits _ _ _ _ _ _ record
    | works _ _ _ _ _ _ record | leaves _ _ _ _ _ record | fails _ _ _ _ _ _ record
    | givesUp _ _ _ _ record => exact Or.inl (record.2.2 ▸ hin)
  rcases hnew with hin | ⟨rfl, hid⟩
  · obtain ⟨id, hid⟩ := h.killed c' hin
    have hne : c' ≠ c := by
      rintro rfl
      exact hmove.not_returned hid
    exact ⟨id, by rw [hmove.stops_ne hne]; exact hid⟩
  · exact hid

/-- A step that moves no call: no job of a call and no marked job comes to be. -/
theorem other (h : g.Sound) {w' : World} (stops : w'.stops = g.world.stops)
    (handedOut : ∀ id ∈ g.world.handedOut, id ∈ w'.handedOut)
    (marks : ∀ id, id ∈ w'.state.jobs → id ∈ w'.state.stopping →
      id ∈ g.world.state.jobs ∧ id ∈ g.world.state.stopping)
    (jobs : ∀ id ∈ g.world.handedOut, id ∈ w'.state.jobs → id ∈ g.world.state.jobs) :
    Watched.Sound { g with world := w' } where
  known c id hjob := by
    rw [show w'.stops c = g.world.stops c by rw [stops]] at hjob
    exact handedOut id (h.known c id hjob)
  marked id hin hmark := by
    obtain ⟨hin, hmark⟩ := marks id hin hmark
    obtain ⟨o, ho, hjob, hnone⟩ := h.marked id hin hmark
    exact ⟨o, ho, by rw [show w'.stops o = g.world.stops o by rw [stops]]; exact hjob, hnone⟩
  waits c id hpc := by
    rw [show w'.stops c = g.world.stops c by rw [stops]] at hpc
    exact h.waits c id hpc
  found c o ho := by
    rw [show w'.stops = g.world.stops from stops]
    exact h.found c o ho
  answered c id hpc hnone hin := by
    rw [show w'.stops c = g.world.stops c by rw [stops]] at hpc
    refine h.answered c id hpc hnone (jobs id (h.known c id ?_) hin)
    rw [hpc]
    rfl
  killed c hin := by
    rw [show w'.stops = g.world.stops from stops]
    exact h.killed c hin

theorem move (h : g.Sound) (hmove : Move g c g')
    (hids : ∀ id, id ∈ g.world.state.jobs → id ∈ g.world.handedOut)
    (handedOut : g'.world.handedOut = g.world.handedOut) : g'.Sound where
  known c' id hjob := handedOut ▸ h.move_known hmove hids c' id hjob
  marked := h.move_marked hmove
  waits := h.move_waits hmove
  found := h.move_found hmove
  answered := h.move_answered hmove
  killed := h.move_killed hmove

end Watched.Sound

/-- An id that has been handed out comes into the table once. -/
theorem Table.Step.jobs_known {T T' : Table} (hinv : T.Inv) (hstep : T.Step T') {id : Nat}
    (known : id ∈ T.handedOut) (hin : id ∈ T'.jobs) : id ∈ T.jobs := by
  cases hstep with
  | quiet | goOn | mark | unmark => exact hin
  | accept a stopFile idle fresh =>
    have hlt := (hinv.fresh id known).2
    rcases (AList.mem_insert _).mp hin with rfl | hin
    · rw [fresh] at hlt
      exact absurd hlt (Nat.lt_irrefl _)
    · exact hin
  | restart i t job pid _ _ entry =>
    rcases (AList.mem_insert _).mp hin with rfl | hin
    · exact AList.lookup_isSome.mp (by rw [entry]; rfl)
    · exact hin
  | forget i t stopped _ => exact (AList.mem_erase.mp hin).2

section

variable [UnicodeTables]

theorem StopStep.handedOut {w w' : World} {c : Caller} (h : StopStep w c w') :
    w'.handedOut = w.handedOut := by
  cases h <;> rfl

theorem Watched.Sound.step {paths : AppPaths} {g g' : Watched} (h : g.Sound)
    (hinv : g.world.table.Inv) (hstep : WatchedStep paths g g') : g'.Sound := by
  have hids : ∀ id, id ∈ g.world.state.jobs → id ∈ g.world.handedOut :=
    fun id => hinv.handedOut_of_mem
  have hknown : ∀ id ∈ g.world.handedOut, id ∈ g'.world.state.jobs → id ∈ g.world.state.jobs :=
    fun id => (step_table hstep.step).jobs_known hinv
  cases hstep with
  | stop c step => exact h.move step.move hids step.handedOut
  | @other w' step others =>
    cases step.kind with
    | stop c stop => exact absurd stop (others c)
    | other frame =>
      refine h.other frame.stops (fun id hid => frame.handedOut ▸ hid) ?_ hknown
      exact fun id hin hmark => ⟨frame.jobs id hin, (frame.stopping id hin).mp hmark⟩
    | accepted a idle id stops handedOut jobs stopping =>
      refine h.other stops (fun i hi => handedOut ▸ List.mem_append_left _ hi) ?_ hknown
      -- The table was empty, so nothing is marked.
      intro i _ hmark
      have hin : i ∈ g.world.state.jobs := hinv.marked i (stopping.subset hmark)
      rw [idle] at hin
      exact absurd hin (AList.notMem_empty i)

theorem watched_sound {paths : AppPaths} {g : Watched} (h : (watchedApp paths).Reachable g) :
    g.Sound := by
  have hind : (watchedApp paths).Inductive Watched.Sound :=
    { start := by
        rintro _ ⟨files, rfl⟩
        refine ⟨?_, ?_, ?_, ?_, ?_, ?_⟩
        · intro c id hjob
          cases hjob
        · intro id hin
          exact absurd hin (AList.notMem_empty id)
        · intro c id hpc
          cases hpc
        · intro c o ho
          cases ho
        · intro c id hpc
          cases hpc
        · intro c hin
          exact absurd hin (Finset.notMem_empty c)
      step := fun hreach hsound hnext =>
        hsound.step (table_inv (Watched.reachable hreach)) hnext.2 }
  exact hind.reachable h

end

/-! ## What a waiting call answers -/

/-- What the call `c` answers, if it waited, agrees with the stop it found. -/
def Agreed (g : Watched) (c : Caller) : Prop :=
  ∀ o id r, g.found c = some o → g.world.stops c = .returned id r →
    (r = .ok true → g.world.state.isRunning id = false ∨ o ∈ g.killed) ∧
    ((∃ error, g.world.stops o = .returned id (.error error)) →
      g.world.state.isRunning id = true → ∃ error, r = .error error)

/-- A call that gives up on a job that still runs has found a stop that has answered
    `true`. -/
def Patient (g g' : Watched) : Prop :=
  ∀ c id, g.world.stops c = .waitingOther id → g'.world.stops c ≠ .waitingOther id →
    g.world.state.isRunning id = true →
    ∃ o, g.found c = some o ∧ g.world.stops o = .returned id (.ok true)

/-- The step in which a waiting call returns. -/
def Watched.giveUp (g : Watched) (c : Caller) (id : Nat) : Watched :=
  g.observe c (g.world.setStop c (.returned id (.ok true)))

theorem mem_of_isRunning {s : State} {id : Nat} (h : s.isRunning id = true) : id ∈ s.jobs :=
  AList.lookup_isSome.mp h

/-- It is enough that whoever answers `true` on a running job has found a killer. -/
theorem Watched.Sound.agreed {g : Watched} {c : Caller} (h : g.Sound)
    (hkilled : ∀ o id, g.found c = some o → g.world.stops c = .returned id (.ok true) →
      g.world.state.isRunning id = true → o ∈ g.killed) : Agreed g c := by
  intro o id r ho hpc
  have hcases : g.world.state.isRunning id = true → o ∈ g.killed := by
    intro hrun
    obtain ⟨-, i, -, hwaits | hok⟩ := h.found c o ho
    · rw [hpc] at hwaits
      cases hwaits
    · rw [hpc] at hok
      cases hok
      exact hkilled o id ho hpc hrun
  constructor
  · intro _
    cases hrun : g.world.state.isRunning id with
    | false => exact Or.inl rfl
    | true => exact Or.inr (hcases hrun)
  · rintro ⟨error, herror⟩ hrun
    -- A call that killed the tree did not answer an error.
    obtain ⟨i, hi⟩ := h.killed o (hcases hrun)
    rw [herror] at hi
    cases hi

/-- One waiting call, as it gives up. -/
theorem Watched.Sound.giveUp_agreed_iff {g : Watched} {c : Caller} {id : Nat} (h : g.Sound)
    (h' : (g.giveUp c id).Sound) (at_ : g.world.stops c = .waitingOther id) :
    Agreed (g.giveUp c id) c ↔ (g.world.state.isRunning id = true →
      ∃ o, g.found c = some o ∧ g.world.stops o = .returned id (.ok true)) := by
  obtain ⟨o, ho⟩ := h.waits c id at_
  obtain ⟨hnone, i, hjob, hwaits⟩ := h.found c o ho
  obtain rfl : id = i := by
    rw [at_] at hwaits
    rcases hwaits with hwaits | hwaits <;> cases hwaits
    rfl
  have hpc : (g.giveUp c id).world.stops c = .returned id (.ok true) := Function.update_self ..
  have hfound : (g.giveUp c id).found = g.found := by
    simp [Watched.giveUp, Watched.observe]
  have hkilled : (g.giveUp c id).killed = g.killed := by
    simp [Watched.giveUp, Watched.observe, at_]
  constructor
  · intro hagreed hrun
    have hleft := (hagreed o id (.ok true) (hfound ▸ ho) hpc).1 rfl
    rw [hkilled, show (g.giveUp c id).world.state = g.world.state from rfl, hrun] at hleft
    obtain ⟨i, hi⟩ := h.killed o (hleft.resolve_left (by simp))
    refine ⟨o, ho, ?_⟩
    rw [hi] at hjob ⊢
    rw [Option.some.inj (show some i = some id from hjob)]
  · intro hpatient
    refine h'.agreed fun o' i ho' hpc' hrun => ?_
    rw [hpc] at hpc'
    cases hpc'
    obtain ⟨o'', ho'', hok⟩ := hpatient hrun
    obtain rfl : o' = o'' := Option.some.inj ((hfound ▸ ho').symm.trans ho'')
    obtain rfl : o' = o := Option.some.inj (ho''.symm.trans ho)
    rw [hkilled]
    exact h.answered o' id hok hnone (mem_of_isRunning hrun)

/-- Who answers `true` on a running job, after having waited, has found a killer. -/
def Watched.Answers (g : Watched) : Prop :=
  ∀ c o id, g.found c = some o → g.world.stops c = .returned id (.ok true) →
    id ∈ g.world.state.jobs → o ∈ g.killed

theorem Watched.Answers.move {g g' : Watched} {c : Caller} (h : g.Answers) (hsound : g.Sound)
    (hmove : Move g c g') (hpatient : Patient g g') : g'.Answers := by
  intro c' o id ho hpc hin
  rw [hmove.jobs] at hin
  by_cases heq : c' = c
  · subst heq
    -- The call that moves answers `true` after having waited only by giving up.
    cases hmove with
    | givesUp i at_ stops _ record =>
      rw [stops, Function.update_self] at hpc
      cases hpc
      rw [record.2.1] at ho
      obtain ⟨hnone, -⟩ := hsound.found c' o ho
      have hgone : g'.world.stops c' ≠ .waitingOther id := by
        rw [stops, Function.update_self]
        exact StopPc.noConfusion
      obtain ⟨o', ho', hok⟩ := hpatient c' id at_ hgone (AList.lookup_isSome.mpr hin)
      obtain rfl : o = o' := Option.some.inj (ho.symm.trans ho')
      exact record.2.2 ▸ hsound.answered o id hok hnone hin
    | waits i _ stops =>
      rw [stops, Function.update_self] at hpc
      cases hpc
    | absent _ at_ _ _ record | marks _ _ _ at_ _ _ _ _ record =>
      rw [record.2.1, hsound.found_of_idle at_] at ho
      cases ho
    | works _ _ charge _ _ _ record | leaves _ charge _ _ _ record | kills _ charge _ _ record
    | fails _ _ charge _ _ _ record =>
      rw [record.2.1, hsound.found_of_charge charge] at ho
      cases ho
  · rw [hmove.stops_ne heq] at hpc
    cases hmove with
    | waits _ _ _ _ _ _ record =>
      rw [record.2.1, Function.update_of_ne heq] at ho
      exact record.2.2 ▸ h c' o id ho hpc hin
    | kills _ _ _ _ record =>
      rw [record.2.1] at ho
      exact record.2.2 ▸ Finset.mem_insert_of_mem (h c' o id ho hpc hin)
    | absent _ _ _ _ record | marks _ _ _ _ _ _ _ _ record | works _ _ _ _ _ _ record
    | leaves _ _ _ _ _ record | fails _ _ _ _ _ _ record | givesUp _ _ _ _ record =>
      rw [record.2.1] at ho
      exact record.2.2 ▸ h c' o id ho hpc hin

variable [UnicodeTables]

/-- Only a stop moves a stop. -/
theorem Step.stops_of_others {paths : AppPaths} {w w' : World} (h : Step paths w w')
    (others : ∀ c, ¬ StopStep w c w') : w'.stops = w.stops := by
  cases h.kind with
  | other frame => exact frame.stops
  | accepted _ _ _ stops _ _ _ => exact stops
  | stop c step => exact absurd step (others c)

theorem answers {paths : AppPaths} {g : Watched}
    (h : ((watchedApp paths).restrict Patient).Reachable g) : g.Answers := by
  have hind : ((watchedApp paths).restrict Patient).Inductive Watched.Answers :=
    { start := by
        rintro _ ⟨files, rfl⟩ c o id ho
        cases ho
      step := by
        rintro g g' hreach hanswers ⟨hnext, hpatient⟩
        have hsound := watched_sound hreach.of_restrict
        have hinv := table_inv (Watched.reachable hreach.of_restrict)
        have hstep := hnext.2
        cases hstep with
        | stop c step => exact hanswers.move hsound step.move hpatient
        | @other w' step others =>
          intro c o id ho hpc hin
          rw [show w'.stops = g.world.stops from step.stops_of_others others] at hpc
          have hjob : (g.world.stops c).job = some id := by
            rw [hpc]
            rfl
          exact hanswers c o id ho hpc
            ((step_table step).jobs_known hinv (hsound.known c id hjob) hin) }
  exact hind.reachable h

/-- **When a waiting stop agrees with the one it waits for.** The answer of a call that
    has found another stop under way agrees with that stop exactly when, on giving up on
    a job that still runs, the call has waited long enough: the stop it found has
    answered `true` by then. In a run in which every waiting call is as patient, every
    answer agrees, whatever the number of stops and their order. -/
theorem waiting_stop_agrees_iff (paths : AppPaths) :
    (∀ g c id, (watchedApp paths).Reachable g → g.world.close ≠ .exited →
      g.world.stops c = .waitingOther id →
      (Agreed (g.giveUp c id) c ↔ (g.world.state.isRunning id = true →
        ∃ o, g.found c = some o ∧ g.world.stops o = .returned id (.ok true)))) ∧
    ∀ g, ((watchedApp paths).restrict Patient).Reachable g → ∀ c, Agreed g c := by
  constructor
  · intro g c id hreach hopen at_
    have hnext : (watchedApp paths).Reachable (g.giveUp c id) :=
      hreach.next ⟨hopen, .stop c (.waited id at_)⟩
    exact (watched_sound hreach).giveUp_agreed_iff (watched_sound hnext) at_
  · intro g hreach c
    refine (watched_sound hreach.of_restrict).agreed fun o id ho hpc hrun => ?_
    exact answers hreach c o id ho hpc (mem_of_isRunning hrun)

/-- The recording of `recordingWorld`, with nothing stopped yet. -/
def recordingWatched : Watched := ⟨recordingWorld, fun _ => none, fun _ => none, ∅⟩

/-- The page has asked to stop it, and a second call has found the job marked. -/
def waitingWatched : Watched :=
  let marked := recordingWatched.observe (.command 0) markedWorld
  marked.observe (.command 1) ((marked.world.setState (enterStop marked.world.state 1).1).setStop
    (.command 1) (.entered 1 (enterStop marked.world.state 1).2))

omit [UnicodeTables] in
theorem Patient.of_stop {g : Watched} {c : Caller} {w' : World} {pc : StopPc}
    (stops : w'.stops = Function.update g.world.stops c pc)
    (hne : ∀ id, g.world.stops c ≠ .waitingOther id) : Patient g (g.observe c w') := by
  intro c' id at_ hgone
  by_cases heq : c' = c
  · subst heq
    exact absurd at_ (hne id)
  · refine absurd ?_ hgone
    show w'.stops c' = _
    rw [stops, Function.update_of_ne heq, at_]

theorem waitingWatched_reachable :
    ((watchedApp somePaths).restrict Patient).Reachable waitingWatched := by
  have hrun : Step somePaths (World.start fun _ => none) recordingWorld := .run recordRequest
  have hothers : ∀ c, ¬ StopStep (World.start fun _ => none) c recordingWorld := by
    intro c step
    have : [1] = [] := step.handedOut
    cases this
  have h₀ : ((watchedApp somePaths).restrict Patient).Reachable recordingWatched :=
    .next (.start ⟨fun _ => none, rfl⟩)
      ⟨⟨by decide, .other hrun hothers⟩, fun _ _ at_ => absurd at_ (by simp [World.start])⟩
  have h₁ := h₀.next ⟨⟨by decide, .stop (.command 0) (.enter 1 rfl trivial)⟩,
    .of_stop rfl (fun _ h => by cases h)⟩
  exact h₁.next ⟨⟨by decide, .stop (.command 1) (.enter 1 rfl trivial)⟩,
    .of_stop rfl (fun _ h => by cases h)⟩

/-- The page's stop has killed the process tree, and its waiter has not run yet. -/
theorem killed_reachable : ∃ g, ((watchedApp somePaths).restrict Patient).Reachable g ∧
    g.world.close ≠ .exited ∧ g.world.stops (.command 1) = .waitingOther 1 ∧
    g.world.state.isRunning 1 = true ∧ g.found (.command 1) = some (.command 0) ∧
    g.world.stops (.command 0) = .returned 1 (.ok true) := by
  have hopen : ClosePc.open_ ≠ .exited := by decide
  have h₁ := waitingWatched_reachable.next ⟨⟨hopen,
    .stop (.command 0) (.write 1 4242 (somePaths.stopFile 1) rfl)⟩,
    .of_stop rfl (fun _ h => by cases h)⟩
  have h₂ := h₁.next ⟨⟨hopen, .stop (.command 0) (.logStopping [] 1 4242 rfl)⟩,
    .of_stop rfl (fun _ h => by cases h)⟩
  have h₃ := h₂.next ⟨⟨hopen, .stop (.command 0) (.waitedCooperative 1 4242 rfl)⟩,
    .of_stop rfl (fun _ h => by cases h)⟩
  have h₄ := h₃.next ⟨⟨hopen, .stop (.command 0) (.force 1 4242 rfl rfl)⟩,
    .of_stop rfl (fun _ h => by cases h)⟩
  have h₅ := h₄.next ⟨⟨hopen, .stop (.command 0) (.logForced [] 1 4242 rfl)⟩,
    .of_stop rfl (fun _ h => by cases h)⟩
  have h₆ := h₅.next ⟨⟨hopen, .stop (.command 0) (.killed 1 4242 rfl)⟩,
    .of_stop rfl (fun _ h => by cases h)⟩
  exact ⟨_, h₆, hopen, rfl, rfl, rfl, rfl⟩

omit [UnicodeTables] in
theorem waiting_stop_agrees_iff_killed : ∃ g, g.world.state.isRunning 1 = true ∧
    Agreed (g.giveUp (.command 1) 1) (.command 1) ∧ Agreed g (.command 0) := by
  let := asciiTables
  obtain ⟨g, hreach, hopen, at_, hrun, ho, hok⟩ := killed_reachable
  have h := waiting_stop_agrees_iff somePaths
  refine ⟨g, hrun, ?_, h.2 g hreach (.command 0)⟩
  exact (h.1 g (.command 1) 1 hreach.of_restrict hopen at_).mpr fun _ => ⟨_, ho, hok⟩

/-- The first stop cannot write the stop file and the second, having waited, answers
    `true`. -/
def disagreeingWatched : Watched :=
  (waitingWatched.observe (.command 0) ((waitingWatched.world.attempt 1).setStop (.command 0)
    (.returned 1 (.error "Access is denied.".toList)))).giveUp (.command 1) 1

omit [UnicodeTables] in
theorem waiting_stop_disagrees : ¬ ∀ g, (@watchedApp asciiTables somePaths).Reachable g →
    ∀ c, Agreed g c := by
  let := asciiTables
  intro h
  have hreach : (watchedApp somePaths).Reachable disagreeingWatched := by
    have h₁ := waitingWatched_reachable.of_restrict.next ⟨by decide, .stop (.command 0)
      (.writeFails 1 4242 (somePaths.stopFile 1) "Access is denied.".toList rfl)⟩
    exact h₁.next ⟨by decide, .stop (.command 1) (.waited 1 rfl)⟩
  obtain ⟨hleft, -⟩ := h disagreeingWatched hreach (.command 1) (.command 0) 1 (.ok true) rfl rfl
  rcases hleft rfl with hgone | hkilled
  · exact absurd hgone (by decide)
  · exact absurd hkilled (by decide)

end Jobs
end LocalMeetingStt
