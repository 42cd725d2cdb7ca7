import LocalMeetingStt.Loopback.Overlap
import Mathlib.Tactic.Linarith
import Mathlib.Tactic.Ring

/-!
# Preview mode (`stream-loopback.cpp`, the voice detection branch of the main loop)

Each iteration looks at the clock, waits if `vad_check_ms` have not passed since the last
speech, and otherwise asks `vad_simple`. Speech is recognized and remembered; without it
`vad_check_ms` are added to a count of silence, and at `preview_commit_ms` of it the
preview becomes final.

The check after the first silent one comes 100 ms later, not `vad_check_ms`, since only
speech moves `t_last`. So the count runs ahead of the clock, and what is final after
`preview_commit_ms` of it need not have been silent for as long (`finals_late_iff`).

Times are in nanoseconds, as the clock has them. What the calls of an iteration take and
answer is arbitrary, and an `int` that overflows has no next state.
-/

namespace LocalMeetingStt
namespace Loopback
namespace Preview

/-- The two parameters of the branch, clamped. -/
structure Params where
  vadCheckMs : Int
  previewCommitMs : Int
  vad_ge : 250 ≤ vadCheckMs
  commit_ge : vadCheckMs ≤ previewCommitMs

def Params.clamp (vadCheckMs previewCommitMs : Int) : Params where
  vadCheckMs := max 250 vadCheckMs
  previewCommitMs := max (max 250 vadCheckMs) previewCommitMs
  vad_ge := Int.le_max_left _ _
  commit_ge := Int.le_max_left _ _

/-- A text printed behind `@@FINAL`, when, and the `t_last` of then. -/
structure Final where
  text : List UInt8
  printedAt : Int
  spokenAt : Int

structure State where
  now : Int
  tLast : Int
  previewSilenceMs : Int
  previewHasSpeech : Bool
  lastPreviewOutput : List UInt8
  lastCommittedOutput : List UInt8
  finals : List Final

/-- `t_last` is the time the loop begins. -/
def State.init (start : Int) : State where
  now := start
  tLast := start
  previewSilenceMs := 0
  previewHasSpeech := false
  lastPreviewOutput := []
  lastCommittedOutput := []
  finals := []

/-- What an iteration meets: how long it listens, whether `vad_simple` hears a voice, the
    segments of the inference that are not taken for noise, if it succeeds, how long it
    takes, and how late a sleep ends. -/
structure Turn where
  listening : Nat
  voice : Bool
  segments : Option (List (List UInt8))
  working : Nat
  late : Nat

/-- Milliseconds of a clock that counts nanoseconds. -/
def millis (n : Int) : Int := n * 1000000

/-- `x + y` of two `int`s. -/
def addInt (x y : Int) : Option Int :=
  if -2 ^ 31 ≤ x + y ∧ x + y < 2 ^ 31 then some (x + y) else none

def hybridText (segments : List (List UInt8)) : List UInt8 :=
  trimAscii <| segments.foldl (fun text segment =>
    (if text.isEmpty then text else text ++ [0x20]) ++ trimAscii segment) []

def State.sleep (s : State) (late : Nat) : State := { s with now := s.now + millis 100 + late }

/-- The inference, which prints and remembers a preview if there is a text. -/
def State.infer (s : State) (turn : Turn) : Option State :=
  turn.segments.map fun segments =>
    let text := hybridText segments
    let s := { s with now := s.now + turn.working }
    if text.isEmpty then s else { s with lastPreviewOutput := text, previewHasSpeech := true }

namespace Params

variable (p : Params)

/-- No voice. -/
def silent (s : State) : Option State :=
  if s.previewHasSpeech then
    (addInt s.previewSilenceMs p.vadCheckMs).bind fun previewSilenceMs =>
      if previewSilenceMs ≥ p.previewCommitMs then
        (suppressPlainOverlap s.lastPreviewOutput s.lastCommittedOutput).map fun (finalText, _) =>
          let s := if finalText.isEmpty then s else
            { s with
              finals := s.finals ++ [⟨finalText, s.now, s.tLast⟩]
              lastCommittedOutput := s.lastPreviewOutput }
          { s with lastPreviewOutput := [], previewHasSpeech := false, previewSilenceMs := 0 }
      else some { s with previewSilenceMs }
  else some s

def iterate (turn : Turn) (s : State) : Option State :=
  let tNow := s.now
  let tDiff := (tNow - s.tLast).tdiv 1000000
  if tDiff < p.vadCheckMs then some (s.sleep turn.late)
  else
    let s := { s with now := s.now + turn.listening }
    if turn.voice then { s with previewSilenceMs := 0, tLast := tNow }.infer turn
    else (p.silent s).map (·.sleep turn.late)

def run : List Turn → State → Option State
  | [], s => some s
  | turn :: turns, s => (p.iterate turn s).bind (run turns)

/-- The silent checks in a row after which a preview is final. -/
def checks : Nat := ((p.previewCommitMs + p.vadCheckMs - 1) / p.vadCheckMs).toNat

variable {p}

theorem checks_le_iff {k : Nat} : p.checks ≤ k ↔ p.previewCommitMs ≤ k * p.vadCheckMs := by
  have hvad := p.vad_ge
  have hsucc : ((k : Int) + 1) * p.vadCheckMs = k * p.vadCheckMs + p.vadCheckMs := by ring
  unfold checks
  rw [Int.toNat_le, ← Int.lt_add_one_iff, Int.ediv_lt_iff_lt_mul (by omega), hsucc]
  omega

theorem checks_pos : 0 < p.checks := by
  have hvad := p.vad_ge
  have hcommit := p.commit_ge
  refine Nat.pos_of_ne_zero fun hzero => ?_
  have := checks_le_iff.mp (Nat.le_of_eq hzero)
  omega

/-! ## The count of silence and the clock -/

omit p in
theorem addInt_eq_some {x y z : Int} (h : addInt x y = some z) : z = x + y ∧ z < 2 ^ 31 := by
  unfold addInt at h
  split_ifs at h with hfits
  obtain rfl := Option.some.inj h
  exact ⟨rfl, hfits.2⟩

/-- A check is made when the time since the last speech is at least that between checks. -/
theorem check_due {s : State} (h : ¬(s.now - s.tLast).tdiv 1000000 < p.vadCheckMs) :
    s.tLast + millis p.vadCheckMs ≤ s.now := by
  have hvad := p.vad_ge
  have hpos : 0 ≤ s.now - s.tLast := by
    by_contra hneg
    have hback : 0 ≤ (-(s.now - s.tLast)).tdiv 1000000 := Int.tdiv_nonneg (by omega) (by decide)
    rw [Int.neg_tdiv] at hback
    omega
  rw [Int.tdiv_eq_ediv_of_nonneg hpos] at h
  unfold millis
  omega

/-- `k` checks were silent, and what that takes has passed since the last speech; so it
    had for what is final. -/
structure Waited (p : Params) (s : State) : Prop where
  counted : ∃ k : Nat, s.previewSilenceMs = k * p.vadCheckMs ∧
    (0 < k → s.tLast + millis (p.vadCheckMs + 100 * k) ≤ s.now)
  finals : ∀ f ∈ s.finals, ∃ k : Nat, p.previewCommitMs ≤ k * p.vadCheckMs ∧
    k * p.vadCheckMs < 2 ^ 31 ∧ f.spokenAt + millis (p.vadCheckMs + 100 * (k - 1)) ≤ f.printedAt

theorem waited_init (start : Int) : p.Waited (.init start) :=
  ⟨⟨0, by simp [State.init], fun h => absurd h (Nat.lt_irrefl 0)⟩,
    fun _ hf => absurd hf List.not_mem_nil⟩

theorem Waited.later {s s' : State} (h : p.Waited s) (hnow : s.now ≤ s'.now)
    (htLast : s'.tLast = s.tLast) (hsilence : s'.previewSilenceMs = s.previewSilenceMs)
    (hfinals : s'.finals = s.finals) : p.Waited s' := by
  obtain ⟨k, hk, hwait⟩ := h.counted
  refine ⟨⟨k, hsilence.trans hk, fun hpos => ?_⟩, hfinals ▸ h.finals⟩
  rw [htLast]
  exact Int.le_trans (hwait hpos) hnow

theorem Waited.sleep {s : State} (h : p.Waited s) (late : Nat) : p.Waited (s.sleep late) :=
  h.later (by dsimp [State.sleep, millis]; omega) rfl rfl rfl

theorem Waited.infer {s s' : State} {turn : Turn} (h : p.Waited s)
    (heq : s.infer turn = some s') : p.Waited s' := by
  obtain ⟨segments, -, rfl⟩ := Option.map_eq_some_iff.mp heq
  dsimp only
  split_ifs <;> exact h.later (by dsimp only; omega) rfl rfl rfl

/-- A silent check, and the sleep behind it. -/
theorem Waited.silent {s s' : State} (h : p.Waited s)
    (hdue : s.tLast + millis p.vadCheckMs ≤ s.now) (heq : p.silent s = some s') (late : Nat) :
    p.Waited (s'.sleep late) := by
  unfold Params.silent at heq
  split_ifs at heq
  · obtain ⟨silence, hsilence, hrest⟩ := Option.bind_eq_some_iff.mp heq
    obtain ⟨k, hk, hwait⟩ := h.counted
    obtain ⟨rfl, hfits⟩ := addInt_eq_some hsilence
    have hnext : s.previewSilenceMs + p.vadCheckMs = (k + 1 : Nat) * p.vadCheckMs := by
      rw [hk]
      push_cast
      ring
    have hclock : s.tLast + millis (p.vadCheckMs + 100 * k) ≤ s.now := by
      obtain rfl | hpos := Nat.eq_zero_or_pos k
      · simpa using hdue
      · exact hwait hpos
    rw [hnext] at hrest hfits
    split_ifs at hrest with hcommit
    · obtain ⟨⟨finalText, counted⟩, -, rfl⟩ := Option.map_eq_some_iff.mp hrest
      refine ⟨⟨0, by simp [State.sleep], fun hpos => absurd hpos (Nat.lt_irrefl 0)⟩, fun f hf => ?_⟩
      have hf' : f ∈ s.finals ∨ f = ⟨finalText, s.now, s.tLast⟩ := by
        dsimp only [State.sleep] at hf
        split_ifs at hf
        · exact .inl hf
        · simpa using hf
      obtain hold | rfl := hf'
      · exact h.finals f hold
      · refine ⟨k + 1, hcommit, hfits, ?_⟩
        simpa using hclock
    · obtain rfl := Option.some.inj hrest
      refine ⟨⟨k + 1, rfl, fun _ => ?_⟩, h.finals⟩
      dsimp only [State.sleep, millis] at hclock ⊢
      push_cast
      omega
  · obtain rfl := Option.some.inj heq
    exact h.sleep late

theorem iterate_waited {turn : Turn} {s s' : State} (h : p.Waited s)
    (heq : p.iterate turn s = some s') : p.Waited s' := by
  unfold iterate at heq
  dsimp only at heq
  split_ifs at heq with hsoon hvoice
  · obtain rfl := Option.some.inj heq
    exact h.sleep turn.late
  · have hspoken : p.Waited { s with
        now := s.now + turn.listening, previewSilenceMs := 0, tLast := s.now } :=
      ⟨⟨0, (Int.zero_mul _).symm, fun hpos => absurd hpos (Nat.lt_irrefl 0)⟩, h.finals⟩
    exact hspoken.infer heq
  · obtain ⟨s₁, hsilent, rfl⟩ := Option.map_eq_some_iff.mp heq
    have hdue := check_due hsoon
    have hlistened : p.Waited { s with now := s.now + turn.listening } :=
      h.later (by dsimp only; omega) rfl rfl rfl
    exact hlistened.silent (by dsimp only; omega) hsilent turn.late

theorem run_waited {turns : List Turn} {s s' : State} (h : p.Waited s)
    (heq : p.run turns s = some s') : p.Waited s' := by
  induction turns generalizing s with
  | nil => exact Option.some.inj heq ▸ h
  | cons turn turns ih =>
    obtain ⟨s₁, hstep, hrun⟩ := Option.bind_eq_some_iff.mp heq
    exact ih (iterate_waited h hstep) hrun

/-! ## One preview, and nothing after it -/

def pause (p : Params) : Turn := ⟨0, false, none, 0, (millis (p.vadCheckMs - 100)).toNat⟩

/-- The inference takes as long as there is between checks. -/
def spoken (p : Params) : Turn := ⟨0, true, some [[97]], (millis p.vadCheckMs).toNat, 0⟩

def quiet : Turn := ⟨0, false, none, 0, 0⟩

/-- After the speech and some silent checks. -/
def silentFor (p : Params) (k : Nat) : State where
  now := millis (2 * p.vadCheckMs + 100 * k)
  tLast := millis p.vadCheckMs
  previewSilenceMs := k * p.vadCheckMs
  previewHasSpeech := true
  lastPreviewOutput := [97]
  lastCommittedOutput := []
  finals := []

omit p in
theorem millis_tdiv (n : Int) : (millis n).tdiv 1000000 = n := Int.mul_tdiv_cancel n (by decide)

theorem not_due : ¬(millis p.vadCheckMs - 0).tdiv 1000000 < p.vadCheckMs := by
  rw [Int.sub_zero, millis_tdiv]
  exact Int.lt_irrefl _

omit p in
theorem hybridText_single : hybridText [[97]] = [97] := by decide

theorem silentFor_due (k : Nat) :
    ¬((silentFor p k).now - (silentFor p k).tLast).tdiv 1000000 < p.vadCheckMs := by
  have hspan : (silentFor p k).now - (silentFor p k).tLast = millis (p.vadCheckMs + 100 * k) := by
    dsimp only [silentFor, millis]
    ring
  rw [hspan, millis_tdiv]
  omega

theorem run_spoken : p.run [pause p, spoken p] (.init 0) = some (silentFor p 0) := by
  have hvad := p.vad_ge
  have hpause : p.iterate (pause p) (.init 0) =
      some { State.init 0 with now := millis p.vadCheckMs } := by
    unfold iterate
    have hsoon : ((State.init 0).now - (State.init 0).tLast).tdiv 1000000 < p.vadCheckMs := by
      show (0 : Int) < p.vadCheckMs
      omega
    dsimp only
    rw [if_pos hsoon]
    simp [State.sleep, State.init, pause, millis]
    omega
  have hspoken : p.iterate (spoken p) { State.init 0 with now := millis p.vadCheckMs } =
      some (silentFor p 0) := by
    unfold iterate
    dsimp only [State.init]
    rw [if_neg not_due]
    simp [State.infer, spoken, silentFor, hybridText_single, millis]
    omega
  rw [run, hpause, Option.bind_some, run, hspoken]
  rfl

/-- The count stays an `int` up to the check that makes the preview final. -/
theorem addInt_silentFor {k : Nat} (hk : k + 1 ≤ p.checks)
    (hfits : p.checks * p.vadCheckMs < 2 ^ 31) :
    addInt (silentFor p k).previewSilenceMs p.vadCheckMs =
      some ((k + 1 : Nat) * p.vadCheckMs) := by
  have hvad := p.vad_ge
  have hle : ((k + 1 : Nat) : Int) * p.vadCheckMs ≤ p.checks * p.vadCheckMs :=
    Int.mul_le_mul_of_nonneg_right (Int.ofNat_le.mpr hk) (by omega)
  have hpos : 0 ≤ ((k + 1 : Nat) : Int) * p.vadCheckMs :=
    Int.mul_nonneg (Int.natCast_nonneg _) (by omega)
  have hsum : (silentFor p k).previewSilenceMs + p.vadCheckMs =
      ((k + 1 : Nat) : Int) * p.vadCheckMs := by
    dsimp only [silentFor]
    push_cast
    ring
  rw [addInt, hsum, if_pos ⟨by omega, by omega⟩]

theorem iterate_silentFor (k : Nat) :
    p.iterate quiet (silentFor p k) = (p.silent (silentFor p k)).map (·.sleep 0) := by
  have hquiet : ¬quiet.voice = true := Bool.false_ne_true
  unfold iterate
  dsimp only
  rw [if_neg (silentFor_due k), if_neg hquiet]
  simp [quiet]

/-- One more silent check. -/
theorem iterate_quiet {k : Nat} (hk : k + 1 < p.checks)
    (hfits : p.checks * p.vadCheckMs < 2 ^ 31) :
    p.iterate quiet (silentFor p k) = some (silentFor p (k + 1)) := by
  have hfew : ¬((k + 1 : Nat) : Int) * p.vadCheckMs ≥ p.previewCommitMs := by
    rw [ge_iff_le, ← checks_le_iff]
    omega
  have hsilent : p.silent (silentFor p k) = some { silentFor p k with
      previewSilenceMs := (k + 1 : Nat) * p.vadCheckMs } := by
    unfold silent
    rw [addInt_silentFor hk.le hfits, Option.bind_some, if_neg hfew]
    rfl
  rw [iterate_silentFor, hsilent]
  simp [State.sleep, silentFor, millis]
  omega

theorem run_quiet {k m : Nat} (hk : k + m < p.checks) (hfits : p.checks * p.vadCheckMs < 2 ^ 31) :
    p.run (.replicate m quiet) (silentFor p k) = some (silentFor p (k + m)) := by
  induction m generalizing k with
  | zero => rfl
  | succ m ih =>
    rw [List.replicate_succ, run, iterate_quiet (by omega) hfits, Option.bind_some, ih (by omega),
      Nat.add_right_comm, Nat.add_assoc]

/-- The check that makes the preview final. -/
theorem iterate_final {k : Nat} (hk : k + 1 = p.checks)
    (hfits : p.checks * p.vadCheckMs < 2 ^ 31) :
    ∃ s, p.iterate quiet (silentFor p k) = some s ∧
      s.finals = [⟨[97], millis (2 * p.vadCheckMs + 100 * k), millis p.vadCheckMs⟩] := by
  have henough : ((k + 1 : Nat) : Int) * p.vadCheckMs ≥ p.previewCommitMs :=
    checks_le_iff.mp (Nat.le_of_eq hk.symm)
  have hsilent : p.silent (silentFor p k) = some { silentFor p k with
      previewSilenceMs := 0
      previewHasSpeech := false
      lastPreviewOutput := []
      lastCommittedOutput := [97]
      finals := [⟨[97], millis (2 * p.vadCheckMs + 100 * k), millis p.vadCheckMs⟩] } := by
    unfold silent
    rw [addInt_silentFor hk.le hfits, Option.bind_some, if_pos henough]
    rfl
  rw [iterate_silentFor, hsilent]
  exact ⟨_, rfl, rfl⟩

theorem run_append (turns turns' : List Turn) (s : State) :
    p.run (turns ++ turns') s = (p.run turns s).bind (p.run turns') := by
  induction turns generalizing s with
  | nil => rfl
  | cons turn turns ih =>
    rw [List.cons_append, run, run, Option.bind_assoc]
    exact congrArg _ (funext fun s' => ih s')

/-- A run with one final text, which had to wait for `vad_check_ms` and then for 100 ms a
    check. -/
theorem exists_final (hfits : p.checks * p.vadCheckMs < 2 ^ 31) :
    ∃ turns s f, p.run turns (.init 0) = some s ∧ f ∈ s.finals ∧
      f.printedAt - f.spokenAt = millis (p.vadCheckMs + 100 * (p.checks - 1)) := by
  have hpos := checks_pos (p := p)
  obtain ⟨k, hk⟩ : ∃ k, k + 1 = p.checks := ⟨p.checks - 1, by omega⟩
  obtain ⟨s, hstep, hfinals⟩ := iterate_final hk hfits
  have hquiet := run_quiet (k := 0) (m := k) (by omega) hfits
  rw [Nat.zero_add] at hquiet
  refine ⟨[pause p, spoken p] ++ .replicate k quiet ++ [quiet], s, _, ?_,
    by rw [hfinals]; exact List.mem_singleton.mpr rfl, ?_⟩
  · rw [run_append, run_append, run_spoken, Option.bind_some, hquiet, Option.bind_some, run, hstep]
    rfl
  · rw [← hk]
    dsimp only [millis]
    push_cast
    ring

/-- **When what is final has been silent for `preview_commit_ms`.** In every run, if and only
    if that is at most `vad_check_ms` and the 100 ms to the check behind it, or no run gets
    so far since the count leaves `int` first. -/
theorem finals_late_iff (vadCheckMs previewCommitMs : Int) :
    (∀ start turns s, (clamp vadCheckMs previewCommitMs).run turns (.init start) = some s →
      ∀ f ∈ s.finals,
        millis (clamp vadCheckMs previewCommitMs).previewCommitMs ≤ f.printedAt - f.spokenAt) ↔
    (clamp vadCheckMs previewCommitMs).previewCommitMs ≤
        (clamp vadCheckMs previewCommitMs).vadCheckMs + 100 ∨
      2 ^ 31 ≤ (clamp vadCheckMs previewCommitMs).checks *
        (clamp vadCheckMs previewCommitMs).vadCheckMs := by
  generalize clamp vadCheckMs previewCommitMs = p
  have hvad := p.vad_ge
  constructor
  · intro hall
    by_contra hnot
    obtain ⟨hlong, hfits⟩ := not_or.mp hnot
    obtain ⟨turns, s, f, hrun, hf, hspan⟩ := exists_final (Int.not_le.mp hfits)
    have hlate := hall 0 turns s hrun f hf
    rw [hspan] at hlate
    -- one check less is not enough, and each of those adds more than 100 ms to the count
    have hpos := checks_pos (p := p)
    obtain ⟨m, hm⟩ : ∃ m, p.checks = m + 1 := ⟨p.checks - 1, by omega⟩
    have hless : ¬p.previewCommitMs ≤ m * p.vadCheckMs := mt checks_le_iff.mpr (by omega)
    have hspan' : p.previewCommitMs ≤ p.vadCheckMs + 100 * m := by
      rw [hm] at hlate
      unfold millis at hlate
      omega
    obtain ⟨n, rfl⟩ : ∃ n, m = n + 1 := ⟨m - 1, by omega⟩
    have hslow : (n : Int) * 250 ≤ n * p.vadCheckMs :=
      Int.mul_le_mul_of_nonneg_left hvad (Int.natCast_nonneg n)
    have hsum : ((n + 1 : Nat) : Int) * p.vadCheckMs = n * p.vadCheckMs + p.vadCheckMs := by
      push_cast
      ring
    omega
  · rintro hcond start turns s hrun f hf
    obtain ⟨k, hk, hfits, hwait⟩ := (run_waited (waited_init start) hrun).finals f hf
    have hcommit := p.commit_ge
    unfold millis at hwait ⊢
    obtain hshort | hlong := hcond
    · obtain rfl | rfl | hmany : k = 0 ∨ k = 1 ∨ 2 ≤ k := by omega
      all_goals omega
    · have hle : (p.checks : Int) * p.vadCheckMs ≤ k * p.vadCheckMs :=
        Int.mul_le_mul_of_nonneg_right (Int.ofNat_le.mpr (checks_le_iff.mpr hk)) (by omega)
      omega

/-- With `--vad-check 750` a preview is final 850 ms after the last speech, not 1500. -/
theorem final_too_soon :
    ¬∀ start turns s, (clamp 750 1500).run turns (.init start) = some s →
      ∀ f ∈ s.finals, millis (clamp 750 1500).previewCommitMs ≤ f.printedAt - f.spokenAt := by
  intro hall
  have hrun : (clamp 750 1500).run
      [⟨0, false, none, 0, 650000000⟩, ⟨0, true, some [[97]], 750000000, 0⟩, quiet, quiet]
      (.init 0) = some ⟨1700000000, 750000000, 0, false, [], [97],
        [⟨[97], 1600000000, 750000000⟩]⟩ := rfl
  exact absurd (hall _ _ _ hrun _ List.mem_cons_self) (by decide)

end Params
end Preview
end Loopback
end LocalMeetingStt
