import LocalMeetingStt.Lib.Rounding
import LocalMeetingStt.Lib.Transition
import LocalMeetingStt.Loopback.Audio

/-!
# The fixed-step loop (`stream-loopback.cpp`, `--step` above zero)

The main thread reads the last step of the capture buffer until there is enough of it,
clears the buffer and runs an inference on what it read. The capture thread appends its
packets between any two calls. A warning is there for an inference that took too long.

It is never printed: `get` answers one step at most, and the test is for more than two
(`never_warned`). So what a slow inference leaves in the buffer before the last step is
cleared without a word, and so is a packet that comes between the `get` and the `clear`.
`captured_accounted` is what remains: nothing is lost in a run in which each clear finds
what was just read and each packet finds room.

Samples are told apart by the number they were captured as; nothing here looks at them.
-/

namespace LocalMeetingStt
namespace Loopback
namespace Steps

open Rounding Transition

/-- A captured sample, or one of the zeros buffers begin with. -/
abbrev Sample := Option Nat

/-- `WHISPER_SAMPLE_RATE` -/
def sampleRate : Int := 16000

/-- `(1e-3*ms)*WHISPER_SAMPLE_RATE` in an `int`. -/
def nSamples (ms : Int) : Int :=
  truncate (double (double (double (1 / 1000) * ms) * (sampleRate : ℚ)))

/-- The length is at least a step, and the size of the buffer an `int`. -/
structure Params where
  stepMs : Int
  lengthMs : Int
  step_pos : 0 < stepMs
  length_ge : stepMs ≤ lengthMs
  fits : sampleRate * lengthMs < 2 ^ 31

/-- Where the main thread is: before a poll of the outer or the inner loop, before `get`,
    before a `clear` behind the warning or in front of the inference, in the sleep or in
    the inference. -/
inductive Pc
  | outer
  | poll
  | get
  | dropping
  | clearing
  | sleeping
  | inferring
  | ended
  deriving DecidableEq

/-- `steps` is the new audio of each inference, `warned` what was cleared behind a warning. -/
structure State where
  audio : AudioAsync Sample
  pc : Pc
  isRunning : Bool
  pcmf32New : List Sample
  captured : Nat
  steps : List (List Sample)
  warned : List Sample

/-- A packet comes, or the main thread goes on; where that depends on a poll or on the
    inference, with its answer. -/
inductive Event
  | packet (count : Nat)
  | main (answer : Bool)

/-- The samples of a capture from one number on. -/
def numbered (first count : Nat) : List Sample := (List.range' first count).map some

/-- What is in the buffer. -/
def held (audio : AudioAsync Sample) : List Sample :=
  (Ring.view audio.audio audio.audioPos).rtake audio.audioLen

def State.infer (s : State) : State :=
  { s with steps := s.steps ++ [s.pcmf32New], pc := .inferring }

namespace Params

variable (p : Params)

def start : State where
  audio := .init p.lengthMs sampleRate
  pc := .outer
  isRunning := true
  pcmf32New := .replicate (nSamples 30000).toNat none
  captured := 0
  steps := []
  warned := []

def step : Event → State → Option State
  | .packet count, s =>
    if s.pc = .ended then none
    else (s.audio.appendSamples (numbered s.captured count)).map fun audio =>
      { s with audio, captured := s.captured + count }
  | .main answer, s =>
    match s.pc with
    | .outer =>
      if answer then some { s with pc := .poll }
      else some { s with isRunning := false, pc := .ended }
    | .poll =>
      if answer then some { s with pc := .get }
      else some { s with isRunning := false }.infer
    | .get =>
      (s.audio.get p.stepMs).map fun pcmf32New =>
        let s := { s with pcmf32New }
        if pcmf32New.length > 2 * nSamples p.stepMs then { s with pc := .dropping }
        else if pcmf32New.length ≥ nSamples p.stepMs then { s with pc := .clearing }
        else { s with pc := .sleeping }
    | .dropping =>
      some { s with warned := s.warned ++ held s.audio, audio := s.audio.clear, pc := .poll }
    | .clearing => some { s with audio := s.audio.clear }.infer
    | .sleeping => some { s with pc := .poll }
    | .inferring => some { s with pc := if answer && s.isRunning then .outer else .ended }
    | .ended => none

def system : System State where
  init s := s = p.start
  next s s' := ∃ e, p.step e s = some s'

end Params

/-- Every captured sample is in the buffer or the new audio of an inference, or a warning
    was printed when it was cleared. -/
def State.Accounted (s : State) : Prop :=
  ∀ x < s.captured, some x ∈ held s.audio ∨ (∃ new ∈ s.steps, some x ∈ new) ∨ some x ∈ s.warned

/-- A packet finds room behind what is in the buffer, and the buffer is cleared with no more
    in it than was just read. -/
def Kept (s s' : State) : Prop :=
  s.audio.audioLen + (s'.captured - s.captured) ≤ s.audio.audio.length ∧
    (s.pc = .clearing → s'.pc = .inferring → s.audio.audioLen = s.pcmf32New.length)

/-! ## How many samples a step has -/

theorem abs_double_sub_le {x : ℚ} (hx : 0 < x) : |double x - x| ≤ x / 2 ^ 53 :=
  abs_round_sub_le 53 hx

/-- The product of the doubles is one short at most. -/
theorem nSamples_bounds {ms : Int} (hpos : 0 < ms) (hfits : sampleRate * ms < 2 ^ 31) :
    16 * ms - 1 ≤ nSamples ms ∧ nSamples ms ≤ 16 * ms := by
  have hms : (0 : ℚ) < ms := Int.cast_pos.mpr hpos
  have hsmall : (16 : ℚ) * ms < 2 ^ 31 / 1000 := by
    have : ((sampleRate * ms : Int) : ℚ) < (2 ^ 31 : Int) := Int.cast_lt.mpr hfits
    unfold sampleRate at this
    push_cast at this
    linarith
  unfold nSamples sampleRate
  -- each of the three roundings adds at most its own part
  obtain ⟨hc₁, hc₂⟩ := abs_le.mp (abs_double_sub_le (x := 1 / 1000) (by norm_num))
  generalize double (1 / 1000) = c at hc₁ hc₂ ⊢
  have hc : 0 < c := by linarith
  have hcms : 0 < c * ms := mul_pos hc hms
  obtain ⟨ha₁, ha₂⟩ := abs_le.mp (abs_double_sub_le hcms)
  generalize double (c * ms) = a at ha₁ ha₂ ⊢
  have hlow : (1 / 1000 - 1 / 1000 / 2 ^ 53) * (ms : ℚ) ≤ c * ms :=
    mul_le_mul_of_nonneg_right (by linarith) hms.le
  have hhigh : c * ms ≤ (1 / 1000 + 1 / 1000 / 2 ^ 53) * (ms : ℚ) :=
    mul_le_mul_of_nonneg_right (by linarith) hms.le
  have ha : 0 < a * (16000 : Int) := by
    push_cast
    linarith
  obtain ⟨hb₁, hb₂⟩ := abs_le.mp (abs_double_sub_le ha)
  generalize double (a * (16000 : Int)) = b at hb₁ hb₂ ⊢
  push_cast at hb₁ hb₂
  rw [truncate_eq_floor (by linarith)]
  refine ⟨Int.le_floor.mpr ?_, Int.lt_add_one_iff.mp (Int.floor_lt.mpr ?_)⟩ <;> push_cast <;>
    linarith

/-! ## Numbered samples -/

@[simp] theorem length_numbered (first count : Nat) : (numbered first count).length = count := by
  simp [numbered]

theorem mem_numbered {first count x : Nat} :
    some x ∈ numbered first count ↔ first ≤ x ∧ x < first + count := by
  simp [numbered]

theorem numbered_append (first count count' : Nat) :
    numbered first count ++ numbered (first + count) count' = numbered first (count + count') := by
  rw [numbered, numbered, numbered, ← List.map_append, List.range'_append_1]

/-- All of what was captured is the samples themselves when there are no more of them. -/
theorem rtake_numbered_of_le {first count n : Nat} (h : count ≤ n) :
    (numbered first count).rtake n = numbered first count :=
  Ring.rtake_of_length_le (by rw [length_numbered]; exact h)

/-! ## What one step does -/

variable {p : Params} {s s' : State} {first : Nat}

/-- The buffer holds what was captured from one number on. -/
structure Buffered (p : Params) (first : Nat) (s : State) : Prop where
  first_le : first ≤ s.captured
  holds : s.audio.Holds (numbered first (s.captured - first))
  len : s.audio.lenMs = p.lengthMs
  rate : s.audio.sampleRate = sampleRate
  room : s.audio.audio.length = (16 * p.lengthMs).toNat

theorem buffered_start : Buffered p 0 p.start := by
  have hlen := p.length_ge
  have hpos := p.step_pos
  have hfits := p.fits
  unfold sampleRate at hfits
  refine ⟨Nat.le_refl 0, AudioAsync.init_holds ?_ p.fits, rfl, rfl, ?_⟩
  · unfold sampleRate
    omega
  · refine (AudioAsync.init_length ?_ p.fits).trans ?_ <;> unfold sampleRate <;> omega

/-- What `get` answers. -/
theorem Buffered.get (h : Buffered p first s) :
    s.audio.get p.stepMs =
      some ((numbered first (s.captured - first)).rtake (16 * p.stepMs).toNat) := by
  have hstep := p.step_pos
  have hlen := p.length_ge
  have hfits := p.fits
  have hroom := h.room
  unfold sampleRate at hfits
  have hms : (if p.stepMs ≤ 0 then s.audio.lenMs else p.stepMs) = p.stepMs := if_neg (by omega)
  have hget : s.audio.get p.stepMs = _ := h.holds.get
    (by rw [hms, h.rate]; unfold sampleRate; omega)
    (by rw [hms, h.rate]; unfold sampleRate; omega)
  rw [hms, h.rate, length_numbered] at hget
  rw [hget]
  have hasked : (sampleRate * p.stepMs / 1000).toNat = (16 * p.stepMs).toNat := by
    unfold sampleRate
    omega
  rw [hasked]
  rcases Nat.le_total (16 * p.stepMs).toNat (s.captured - first) with hmany | hfew
  · rw [Nat.min_eq_left (by omega)]
  · rw [rtake_numbered_of_le (by omega), rtake_numbered_of_le hfew]

/-- A step of either thread, and what stays as it is. -/
inductive Does (p : Params) (first : Nat) (s : State) : State → Prop
  | packet {audio : AudioAsync Sample} {count : Nat} :
      Buffered p first { s with audio, captured := s.captured + count } →
      Does p first s { s with audio, captured := s.captured + count }
  | reads {pc : Pc} : s.pc = .get → pc = .clearing ∨ pc = .sleeping →
      Does p first s { s with
        pc
        pcmf32New := (numbered first (s.captured - first)).rtake (16 * p.stepMs).toNat }
  | clears : s.pc = .clearing → Does p first s { s with audio := s.audio.clear }.infer
  | goesOn {pc : Pc} {isRunning : Bool} {steps : List (List Sample)} : s.pc ≠ .clearing →
      pc ≠ .clearing → pc ≠ .dropping → s.steps <+: steps →
      Does p first s { s with pc, isRunning, steps }

theorem Buffered.packet (h : Buffered p first s) (count : Nat) :
    ∃ audio, s.audio.appendSamples (numbered s.captured count) = some audio ∧
      Buffered p first { s with audio, captured := s.captured + count } := by
  have hle := h.first_le
  obtain ⟨audio, happend, hholds, hsize, hlen, hrate⟩ :=
    h.holds.appendSamples (numbered s.captured count)
  refine ⟨audio, happend, ⟨by dsimp only; omega, ?_, hlen.trans h.len, hrate.trans h.rate,
    hsize.trans h.room⟩⟩
  have hnext : numbered first (s.captured - first) ++ numbered s.captured count =
      numbered first (s.captured + count - first) := by
    conv_lhs => rw [← Nat.add_sub_cancel' hle]
    rw [Nat.add_sub_cancel_left, numbered_append]
    congr 1
    omega
  exact hnext ▸ hholds

/-- The samples of a step are not more than two steps. -/
theorem not_too_many (p : Params) {new : List Sample}
    (hnew : new.length ≤ (16 * p.stepMs).toNat) : ¬(new.length : Int) > 2 * nSamples p.stepMs := by
  have hstep := p.step_pos
  have hlen := p.length_ge
  have hfits := p.fits
  unfold sampleRate at hfits
  have hbounds := nSamples_bounds hstep (by unfold sampleRate; omega)
  omega

theorem does {e : Event} (h : Buffered p first s) (hpc : s.pc ≠ .dropping)
    (hstep : p.step e s = some s') : Does p first s s' := by
  cases e with
  | packet count =>
    rw [Params.step] at hstep
    split_ifs at hstep
    obtain ⟨audio, happend, hbuffered⟩ := h.packet count
    rw [happend] at hstep
    obtain rfl := Option.some.inj hstep
    exact .packet hbuffered
  | main answer =>
    rw [Params.step] at hstep
    cases hs : s.pc <;> rw [hs] at hstep <;> dsimp only at hstep
    case outer =>
      split_ifs at hstep <;> obtain rfl := Option.some.inj hstep <;>
        exact .goesOn (by simp [hs]) (by simp) (by simp) (List.prefix_refl _)
    case poll =>
      split_ifs at hstep <;> obtain rfl := Option.some.inj hstep
      · exact .goesOn (by simp [hs]) (by simp) (by simp) (List.prefix_refl _)
      · exact .goesOn (by simp [hs]) (by simp) (by simp) (List.prefix_append _ _)
    case get =>
      rw [h.get] at hstep
      obtain rfl := Option.some.inj hstep
      have hfew : ((numbered first (s.captured - first)).rtake (16 * p.stepMs).toNat).length ≤
          (16 * p.stepMs).toNat := by
        rw [Ring.rtake_length]
        exact Nat.min_le_left _ _
      dsimp only
      rw [if_neg (not_too_many p hfew)]
      split_ifs
      · exact .reads hs (.inl rfl)
      · exact .reads hs (.inr rfl)
    case dropping => exact absurd hs hpc
    case clearing =>
      obtain rfl := Option.some.inj hstep
      exact .clears hs
    case sleeping =>
      obtain rfl := Option.some.inj hstep
      exact .goesOn (by simp [hs]) (by simp) (by simp) (List.prefix_refl _)
    case inferring =>
      obtain rfl := Option.some.inj hstep
      refine .goesOn (by simp [hs]) ?_ ?_ (List.prefix_refl _) <;> split_ifs <;> simp
    case ended => cases hstep

theorem Buffered.clear (h : Buffered p first s) :
    Buffered p s.captured { s with audio := s.audio.clear }.infer := by
  refine ⟨Nat.le_refl _, ?_, h.len, h.rate, h.room⟩
  show s.audio.clear.Holds (numbered s.captured (s.captured - s.captured))
  rw [Nat.sub_self]
  exact h.holds.clear

/-- A step goes from a buffer to a buffer, and not to the warning. -/
theorem Does.buffered (h : Buffered p first s) (hpc : s.pc ≠ .dropping)
    (hdoes : Does p first s s') :
    s'.pc ≠ .dropping ∧ s'.warned = s.warned ∧ ∃ first', Buffered p first' s' := by
  cases hdoes with
  | packet hbuffered => exact ⟨hpc, rfl, first, hbuffered⟩
  | reads _ hnext =>
    refine ⟨?_, rfl, first, h.first_le, h.holds, h.len, h.rate, h.room⟩
    rcases hnext with rfl | rfl <;> exact Pc.noConfusion
  | clears => exact ⟨Pc.noConfusion, rfl, s.captured, h.clear⟩
  | goesOn _ _ hwarning => exact ⟨hwarning, rfl, first, h.first_le, h.holds, h.len, h.rate, h.room⟩

/-- **The warning is never printed**, in no run. -/
theorem never_warned (hs : p.system.Reachable s) :
    s.pc ≠ .dropping ∧ s.warned = [] ∧ ∃ first, Buffered p first s := by
  refine System.Inductive.reachable
    (I := fun s => s.pc ≠ .dropping ∧ s.warned = [] ∧ ∃ first, Buffered p first s) ⟨?_, ?_⟩ hs
  · rintro _ rfl
    exact ⟨Pc.noConfusion, rfl, 0, buffered_start⟩
  · rintro s s' - ⟨hpc, hwarned, first, h⟩ ⟨e, hstep⟩
    obtain ⟨hpc', hwarned', hbuffered⟩ := (does h hpc hstep).buffered h hpc
    exact ⟨hpc', hwarned'.trans hwarned, hbuffered⟩

/-- And the program never copies past a buffer: what may happen next does. -/
theorem step_isSome (hs : p.system.Reachable s) (hpc : s.pc ≠ .ended) (e : Event) :
    (p.step e s).isSome = true := by
  obtain ⟨-, -, first, h⟩ := never_warned hs
  cases e with
  | packet count =>
    obtain ⟨audio, happend, -⟩ := h.packet count
    rw [Params.step, if_neg hpc, happend]
    rfl
  | main answer =>
    rw [Params.step]
    cases hs : s.pc
    case outer | poll => cases answer <;> rfl
    case get =>
      dsimp only
      rw [h.get]
      rfl
    case dropping | clearing | sleeping | inferring => rfl
    case ended => exact absurd hs hpc

/-! ## Runs in which nothing is lost -/

/-- Everything before the buffer was the new audio of an inference, and the buffer has what
    was just read and what came behind it. -/
structure Heard (p : Params) (first : Nat) (s : State) : Prop where
  fits : s.captured - first ≤ s.audio.audio.length
  heard : ∀ x < first, ∃ new ∈ s.steps, some x ∈ new
  reading : s.pc = .clearing → ∃ count ≤ s.captured - first,
    s.pcmf32New = (numbered first count).rtake (16 * p.stepMs).toNat

theorem Heard.audioLen (h : Buffered p first s) (hheard : Heard p first s) :
    s.audio.audioLen = s.captured - first := by
  have hlen := h.holds.len
  rw [length_numbered] at hlen
  exact hlen.trans (Nat.min_eq_left hheard.fits)

/-- What was read is all there is, if there is no more than that. -/
theorem Heard.whole (h : Buffered p first s) (hheard : Heard p first s) (hpc : s.pc = .clearing)
    (hkept : s.audio.audioLen = s.pcmf32New.length) :
    s.pcmf32New = numbered first (s.captured - first) := by
  obtain ⟨count, hcount, hnew⟩ := hheard.reading hpc
  rw [hheard.audioLen h, hnew, Ring.rtake_length, length_numbered] at hkept
  obtain rfl : count = s.captured - first := by omega
  rw [hnew, rtake_numbered_of_le (by omega)]

theorem Does.heard (h : Buffered p first s) (hheard : Heard p first s) (hdoes : Does p first s s')
    (hkept : Kept s s') : ∃ first', Buffered p first' s' ∧ Heard p first' s' := by
  have hlen := hheard.audioLen h
  have hle := h.first_le
  obtain ⟨hroom, hclear⟩ := hkept
  cases hdoes with
  | @packet audio count hbuffered =>
    refine ⟨first, hbuffered, ?_, hheard.heard, fun hpc => ?_⟩
    · have hsize : audio.audio.length = s.audio.audio.length := hbuffered.room.trans h.room.symm
      dsimp only at hroom ⊢
      omega
    · obtain ⟨n, hn, hnew⟩ := hheard.reading hpc
      exact ⟨n, by dsimp only; omega, hnew⟩
  | reads =>
    exact ⟨first, ⟨h.first_le, h.holds, h.len, h.rate, h.room⟩, hheard.fits, hheard.heard,
      fun _ => ⟨_, Nat.le_refl _, rfl⟩⟩
  | clears hpc =>
    have hwhole := hheard.whole h hpc (hclear hpc rfl)
    refine ⟨s.captured, h.clear, ?_, fun x hx => ?_, fun hpc' => Pc.noConfusion hpc'⟩
    · show s.captured - s.captured ≤ _
      omega
    · rcases Nat.lt_or_ge x first with hold | hnew
      · obtain ⟨new, hmem, hx'⟩ := hheard.heard x hold
        exact ⟨new, List.mem_append_left _ hmem, hx'⟩
      · refine ⟨s.pcmf32New, List.mem_append_right _ (List.mem_singleton.mpr rfl), ?_⟩
        rw [hwhole]
        exact mem_numbered.mpr ⟨hnew, by omega⟩
  | goesOn _ hpc _ hsteps =>
    refine ⟨first, ⟨h.first_le, h.holds, h.len, h.rate, h.room⟩, hheard.fits, fun x hx => ?_,
      fun hpc' => absurd hpc' hpc⟩
    obtain ⟨new, hmem, hx'⟩ := hheard.heard x hx
    exact ⟨new, hsteps.subset hmem, hx'⟩

theorem heard_reachable (hs : (p.system.restrict Kept).Reachable s) :
    ∃ first, Buffered p first s ∧ Heard p first s := by
  refine System.Inductive.reachable (I := fun s => ∃ first, Buffered p first s ∧ Heard p first s)
    ⟨?_, ?_⟩ hs
  · rintro _ rfl
    exact ⟨0, buffered_start, Nat.zero_le _, fun x hx => absurd hx (Nat.not_lt_zero x),
      fun hpc => Pc.noConfusion hpc⟩
  · rintro s s' hr ⟨first, h, hheard⟩ ⟨⟨e, hstep⟩, hkept⟩
    exact (does h (never_warned hr.of_restrict).1 hstep).heard h hheard hkept

/-- **When no sample is dropped.** In a run in which every packet finds room and the buffer
    is never cleared with more in it than was just read, whatever the packets, the answers
    and the time an inference takes. -/
theorem captured_accounted (p : Params) (s : State) (hs : (p.system.restrict Kept).Reachable s) :
    s.Accounted := by
  obtain ⟨first, h, hheard⟩ := heard_reachable hs
  intro x hx
  rcases Nat.lt_or_ge x first with hold | hnew
  · exact .inr (.inl (hheard.heard x hold))
  · refine .inl ?_
    rw [held, h.holds.last, hheard.audioLen h, rtake_numbered_of_le (Nat.le_refl _)]
    exact mem_numbered.mpr ⟨hnew, by omega⟩

/-! ## A step of a millisecond -/

/-- The `get` that has a step. -/
theorem step_get {new : List Sample} (hpc : s.pc = .get) (hget : s.audio.get p.stepMs = some new)
    (hnew : new.length = (16 * p.stepMs).toNat) (answer : Bool) :
    p.step (.main answer) s = some { s with pcmf32New := new, pc := .clearing } := by
  have hpos := p.step_pos
  have hlen := p.length_ge
  have hfits := p.fits
  unfold sampleRate at hfits
  have hbounds := nSamples_bounds hpos (by unfold sampleRate; omega)
  rw [Params.step, hpc]
  dsimp only
  rw [hget, Option.map_some, if_neg (by omega), if_pos (by omega)]

def oneStep : Params := ⟨1, 1, by decide, by decide, by decide⟩

/-- A packet of a step, and the inference on it. -/
theorem captured_accounted_one_step :
    ∃ s, (oneStep.system.restrict Kept).Reachable s ∧ s.captured = 16 ∧
      s.steps = [numbered 0 16] ∧ s.Accounted := by
  have hget : (⟨1, 16000, numbered 0 16, 0, 16⟩ : AudioAsync Sample).get 1 =
      some (numbered 0 16) := rfl
  have h := System.Reachable.start (S := oneStep.system.restrict Kept) rfl
  have h : (oneStep.system.restrict Kept).Reachable { oneStep.start with
      audio := ⟨1, 16000, numbered 0 16, 0, 16⟩, captured := 16 } :=
    h.next ⟨⟨.packet 16, rfl⟩, by decide, Pc.noConfusion⟩
  have h := h.next ⟨⟨.main true, rfl⟩, by decide, Pc.noConfusion⟩
  have h := h.next ⟨⟨.main true, rfl⟩, by decide, Pc.noConfusion⟩
  have hstep := step_get (p := oneStep) (s := { oneStep.start with
    audio := ⟨1, 16000, numbered 0 16, 0, 16⟩, captured := 16, pc := .get }) rfl hget rfl true
  have h := h.next ⟨⟨.main true, hstep⟩, by decide, Pc.noConfusion⟩
  have h := h.next ⟨⟨.main true, rfl⟩, by decide, fun _ _ => rfl⟩
  exact ⟨_, h, rfl, rfl, captured_accounted _ _ h⟩

def roomForTwo : Params := ⟨1, 2, by decide, by decide, by decide⟩

/-- Two steps in the buffer, as an inference leaves them that takes two steps' time: the
    first is cleared with the second, and not a word of it. -/
theorem slow_inference_drops :
    ∃ s, roomForTwo.system.Reachable s ∧ s.captured = 32 ∧ s.steps = [numbered 16 16] ∧
      s.warned = [] ∧ ¬s.Accounted := by
  have hget : (⟨2, 16000, numbered 0 32, 0, 32⟩ : AudioAsync Sample).get 1 =
      some (numbered 16 16) := rfl
  have h := System.Reachable.start (S := roomForTwo.system) rfl
  have h : roomForTwo.system.Reachable { roomForTwo.start with
      audio := ⟨2, 16000, numbered 0 32, 0, 32⟩, captured := 32 } := h.next ⟨.packet 32, rfl⟩
  have h := h.next ⟨.main true, rfl⟩
  have h := h.next ⟨.main true, rfl⟩
  have hstep := step_get (p := roomForTwo) (s := { roomForTwo.start with
    audio := ⟨2, 16000, numbered 0 32, 0, 32⟩, captured := 32, pc := .get }) rfl hget rfl true
  have h := h.next ⟨.main true, hstep⟩
  have h := h.next ⟨.main true, rfl⟩
  refine ⟨_, h, rfl, rfl, rfl, fun hall => ?_⟩
  have hlost : ¬∃ new ∈ [numbered 16 16], some 0 ∈ new := by decide
  rcases hall 0 (by decide) with hheld | hstep | hwarned
  · exact absurd hheld (by decide)
  · exact hlost hstep
  · exact absurd hwarned List.not_mem_nil

end Steps
end Loopback
end LocalMeetingStt
