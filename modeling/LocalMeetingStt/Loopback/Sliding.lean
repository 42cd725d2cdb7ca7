import LocalMeetingStt.Loopback.Steps

/-!
# What an inference hears (`stream-loopback.cpp`, the sliding window)

The new audio of a step is never recognized alone: in front of it stands the end of what
the inference before it heard, up to the length and what is kept. Every `n_new_line` steps,
unless the output is plain, the window starts over with the kept samples.

The code carries one vector from inference to inference. `windows_slide` says what that
comes to: the end of all the new audio of the line, cut to size; and that the copy that
starts a line stays inside its vector, but for a program stopped before its first step.
-/

namespace LocalMeetingStt
namespace Loopback
namespace Steps

open Ring Rounding Transition

/-- `--keep` and `--plain` (`--preview` and `--hybrid` set it, too), next to the others.
    The code cuts what is kept down to a step. -/
structure Slide extends Params where
  keepMs : Int
  plainOutput : Bool
  keep_le : keepMs ≤ stepMs

/-- The vectors that outlive an iteration, and its number. -/
structure Windows where
  pcmf32 : List Sample
  pcmf32Old : List Sample
  nIter : Nat
deriving DecidableEq

def Windows.start : Windows where
  pcmf32 := .replicate (nSamples 30000).toNat none
  pcmf32Old := []
  nIter := 0

namespace Slide

variable (p : Slide)

def nSamplesKeep : Int := nSamples p.keepMs

def nSamplesLen : Int := nSamples p.lengthMs

/-- How much an inference hears, unless a step alone is more. -/
def size : Nat := (p.nSamplesKeep + p.nSamplesLen).toNat

def nNewLine : Nat := (max 1 (p.lengthMs / p.stepMs - 1)).toNat

def startsLine (nIter : Nat) : Bool := !p.plainOutput && nIter % p.nNewLine == 0

/-- Up to the inference. -/
def slide (new : List Sample) (w : Windows) : Windows :=
  let take := min (w.pcmf32Old.length : Int) (max 0 (p.nSamplesKeep + p.nSamplesLen - new.length))
  let pcmf32 := w.pcmf32Old.rtake take.toNat ++ new
  { w with pcmf32, pcmf32Old := pcmf32 }

/-- Behind it; nothing where `pcmf32.end() - n_samples_keep` is not inside the vector. -/
def infer (w : Windows) : Option Windows :=
  let w := { w with nIter := w.nIter + 1 }
  if p.startsLine w.nIter then
    if 0 ≤ p.nSamplesKeep ∧ p.nSamplesKeep ≤ w.pcmf32.length then
      some { w with pcmf32Old := w.pcmf32.rtake p.nSamplesKeep.toNat }
    else none
  else some w

/-- What the inferences of a run hear, and the vectors behind the last of them. -/
def windows : Windows → List (List Sample) → List (List Sample) × Option Windows
  | w, [] => ([], some w)
  | w, new :: news =>
    let w := p.slide new w
    match p.infer w with
    | none => ([w.pcmf32], none)
    | some w' =>
      let (heard, last) := windows w' news
      (w.pcmf32 :: heard, last)

/-- What they are meant to hear: the end of the line's audio. -/
def lineWindows : List Sample → Nat → List (List Sample) → List (List Sample)
  | _, _, [] => []
  | line, nIter, new :: news =>
    let line := line ++ new
    line.rtake (max new.length p.size) ::
      lineWindows (if p.startsLine (nIter + 1) then line.rtake p.nSamplesKeep.toNat else line)
        (nIter + 1) news

/-! ## The carried vector is the end of the line -/

variable {p}

/-- As much of the line's end as any window needs. -/
def Carries (p : Slide) (line : List Sample) (w : Windows) : Prop :=
  ∃ n, p.size ≤ n ∧ w.pcmf32Old = line.rtake n

theorem Carries.slide {line : List Sample} {w : Windows} (h : p.Carries line w)
    (new : List Sample) :
    (p.slide new w).pcmf32 = (line ++ new).rtake (max new.length p.size) ∧
      (p.slide new w).pcmf32Old = (p.slide new w).pcmf32 ∧
      (p.slide new w).nIter = w.nIter := by
  refine ⟨?_, rfl, rfl⟩
  obtain ⟨n, hn, hold⟩ := h
  have htake : w.pcmf32Old.rtake (min (w.pcmf32Old.length : Int)
      (max 0 (p.nSamplesKeep + p.nSamplesLen - new.length))).toNat =
      line.rtake (p.size - new.length) := by
    have hsize : (min (w.pcmf32Old.length : Int)
        (max 0 (p.nSamplesKeep + p.nSamplesLen - new.length))).toNat =
        min w.pcmf32Old.length (p.size - new.length) := by
      unfold size
      omega
    rw [hsize]
    rcases Nat.le_total w.pcmf32Old.length (p.size - new.length) with hshort | hlong
    · rw [Nat.min_eq_left hshort, rtake_of_length_le le_rfl, hold]
      rw [hold, rtake_length] at hshort
      rcases Nat.le_total line.length n with hall | hcut
      · rw [rtake_of_length_le hall, rtake_of_length_le (by omega)]
      · have : p.size - new.length = n := by omega
        rw [this]
    · rw [Nat.min_eq_right hlong, hold, rtake_rtake (by omega)]
  show w.pcmf32Old.rtake _ ++ new = _
  rw [htake, rtake_append_of_ge (Nat.le_max_left _ _)]
  congr 2
  omega

theorem Carries.infer {line new : List Sample} {w w' : Windows} (h : p.Carries line w)
    (hinfer : p.infer (p.slide new w) = some w') :
    w'.nIter = w.nIter + 1 ∧
      p.Carries (if p.startsLine (w.nIter + 1) then (line ++ new).rtake p.nSamplesKeep.toNat
        else line ++ new) w' := by
  obtain ⟨hheard, hold, hiter⟩ := h.slide new
  unfold Slide.infer at hinfer
  dsimp only at hinfer
  rw [hiter] at hinfer
  split_ifs at hinfer with hline hrange <;> obtain rfl := Option.some.inj hinfer
  · rw [if_pos hline]
    refine ⟨rfl, max p.size p.nSamplesKeep.toNat, Nat.le_max_left _ _, ?_⟩
    have hlen := hrange.2
    rw [hheard, rtake_length] at hlen
    have hcut : ((line ++ new).rtake p.nSamplesKeep.toNat).rtake
        (max p.size p.nSamplesKeep.toNat) = (line ++ new).rtake p.nSamplesKeep.toNat :=
      rtake_of_length_le (by rw [rtake_length]; omega)
    rw [hcut]
    show (p.slide new w).pcmf32.rtake p.nSamplesKeep.toNat = _
    rw [hheard, rtake_rtake (by omega)]
  · rw [if_neg hline]
    exact ⟨rfl, max new.length p.size, Nat.le_max_right _ _, hold.trans hheard⟩

/-- **The windows are those of the line**, as long as there is one. -/
theorem windows_lineWindows {line : List Sample} {w : Windows} (h : p.Carries line w)
    (news : List (List Sample)) :
    (p.windows w news).1 <+: p.lineWindows line w.nIter news ∧
      ((p.windows w news).2.isSome = true →
        (p.windows w news).1 = p.lineWindows line w.nIter news) := by
  induction news generalizing line w with
  | nil => exact ⟨List.prefix_refl _, fun _ => rfl⟩
  | cons new news ih =>
    rw [windows, lineWindows]
    dsimp only
    rw [← (h.slide new).1]
    cases hinfer : p.infer (p.slide new w) with
    | none => exact ⟨List.prefix_cons_inj _ |>.mpr List.nil_prefix, fun hsome => by cases hsome⟩
    | some w' =>
      obtain ⟨hiter, hcarries⟩ := h.infer hinfer
      obtain ⟨hstart, heq⟩ := ih hcarries
      rw [hiter] at hstart heq
      refine ⟨List.prefix_cons_inj _ |>.mpr hstart, fun hsome => ?_⟩
      exact congrArg ((p.slide new w).pcmf32 :: ·) (heq hsome)

theorem carries_start : p.Carries [] .start := ⟨p.size, le_rfl, by simp [Windows.start]⟩

/-! ## The copy that starts a line -/

theorem nSamples_zero : nSamples 0 = 0 := by
  simp [nSamples, double, Rounding.round, roundEven, truncate]

/-- Samples of a time that is kept, of a step and of the whole length. -/
theorem nSamplesKeep_bounds (hkeep : 0 ≤ p.keepMs) :
    0 ≤ p.nSamplesKeep ∧ p.nSamplesKeep ≤ nSamples p.stepMs ∧ p.nSamplesKeep ≤ p.nSamplesLen := by
  have hle := p.keep_le
  have hpos := p.step_pos
  have hlen := p.length_ge
  have hfits := p.fits
  unfold sampleRate at hfits
  have hbounds : ∀ ms, 0 < ms → ms ≤ p.lengthMs →
      16 * ms - 1 ≤ nSamples ms ∧ nSamples ms ≤ 16 * ms := fun ms hpos hms =>
    nSamples_bounds hpos (by unfold sampleRate; omega)
  have hstep := hbounds p.stepMs hpos hlen
  have hlength := hbounds p.lengthMs (by omega) le_rfl
  unfold nSamplesKeep nSamplesLen
  by_cases hzero : p.keepMs = 0
  · rw [hzero, nSamples_zero]
    omega
  · have hkept := hbounds p.keepMs (by omega) (by omega)
    by_cases heq : p.keepMs = p.stepMs
    · rw [heq]
      refine ⟨by omega, le_rfl, ?_⟩
      by_cases heq' : p.stepMs = p.lengthMs
      · rw [heq']
      · omega
    · omega

theorem slide_length (new : List Sample) (w : Windows) :
    (p.slide new w).pcmf32.length =
      min w.pcmf32Old.length (p.size - new.length) + new.length := by
  show (w.pcmf32Old.rtake _ ++ new).length = _
  rw [List.length_append, rtake_length]
  unfold size
  omega

/-- A window is not shorter than what is to be kept, once something was. -/
theorem keep_le_slide (hkeep : 0 ≤ p.keepMs) (new : List Sample) {w : Windows}
    (h : p.nSamplesKeep ≤ w.pcmf32Old.length ∨ p.nSamplesKeep ≤ new.length) :
    p.nSamplesKeep ≤ (p.slide new w).pcmf32.length := by
  obtain ⟨hnonneg, -, hlen⟩ := nSamplesKeep_bounds hkeep
  rw [slide_length]
  unfold size
  omega

theorem infer_none (hkeep : 0 ≤ p.keepMs) {w : Windows} :
    p.infer w = none ↔
      p.startsLine (w.nIter + 1) = true ∧ (w.pcmf32.length : Int) < p.nSamplesKeep := by
  have hnonneg := (nSamplesKeep_bounds hkeep).1
  unfold infer
  dsimp only
  split_ifs with hline hrange
  · simp only [false_iff]
    rintro ⟨-, hshort⟩
    omega
  · simp only [true_iff]
    exact ⟨hline, by omega⟩
  · simp [hline]

theorem infer_old {w w' : Windows} (hkeep : 0 ≤ p.keepMs) (h : p.infer w = some w')
    (hold : w.pcmf32Old = w.pcmf32) (hlong : p.nSamplesKeep ≤ w.pcmf32.length) :
    p.nSamplesKeep ≤ w'.pcmf32Old.length := by
  have hnonneg := (nSamplesKeep_bounds hkeep).1
  unfold infer at h
  dsimp only at h
  split_ifs at h <;> obtain rfl := Option.some.inj h
  · show p.nSamplesKeep ≤ (w.pcmf32.rtake p.nSamplesKeep.toNat).length
    rw [rtake_length]
    omega
  · show p.nSamplesKeep ≤ w.pcmf32Old.length
    rw [hold]
    exact hlong

/-- From a window on that is long enough, every copy is inside. -/
theorem windows_isSome (hkeep : 0 ≤ p.keepMs) (news : List (List Sample)) {w : Windows}
    (h : p.nSamplesKeep ≤ w.pcmf32Old.length) : (p.windows w news).2.isSome = true := by
  induction news generalizing w with
  | nil => rfl
  | cons new news ih =>
    have hlong := keep_le_slide hkeep new (.inl h)
    rw [windows]
    dsimp only
    cases hinfer : p.infer (p.slide new w) with
    | none =>
      have hshort := ((infer_none hkeep).mp hinfer).2
      omega
    | some w' => exact ih (infer_old hkeep hinfer rfl hlong)

theorem windows_whole (hkeep : 0 ≤ p.keepMs) {new : List Sample}
    (h : p.nSamplesKeep ≤ new.length) (rest : List (List Sample)) :
    (p.windows .start (new :: rest)).2.isSome = true := by
  have hlong := keep_le_slide hkeep new (w := .start) (.inr h)
  rw [windows]
  dsimp only
  cases hinfer : p.infer (p.slide new .start) with
  | none =>
    have hshort := ((infer_none hkeep).mp hinfer).2
    omega
  | some w' => exact windows_isSome hkeep rest (infer_old hkeep hinfer rfl hlong)

theorem windows_one (hkeep : 0 ≤ p.keepMs) (new : List Sample) :
    (p.windows .start [new]).2 = none ↔
      p.startsLine 1 = true ∧ (new.length : Int) < p.nSamplesKeep := by
  have hfirst : (p.slide new .start).pcmf32.length = new.length := by
    rw [slide_length, show Windows.start.pcmf32Old = [] from rfl, List.length_nil]
    omega
  have hiff := infer_none hkeep (w := p.slide new .start)
  rw [hfirst] at hiff
  rw [show p.startsLine 1 = p.startsLine ((p.slide new .start).nIter + 1) from rfl, ← hiff, windows]
  dsimp only
  cases p.infer (p.slide new .start) <;> simp [windows]

/-! ## Every window ends with its step -/

theorem length_lineWindows (line : List Sample) (nIter : Nat) (news : List (List Sample)) :
    (p.lineWindows line nIter news).length = news.length := by
  induction news generalizing line nIter with
  | nil => rfl
  | cons new news ih =>
    rw [lineWindows, List.length_cons, List.length_cons, ih]

theorem lineWindows_get {before line : List Sample} (hline : line <:+ before)
    (news : List (List Sample)) (nIter k : Nat) {new heard : List Sample}
    (hnew : news[k]? = some new) (hheard : (p.lineWindows line nIter news)[k]? = some heard) :
    heard <:+ before ++ (news.take (k + 1)).flatten ∧ new <:+ heard ∧
      heard.length ≤ max new.length p.size ∧
      (p.plainOutput = true → line = before →
        heard = (before ++ (news.take (k + 1)).flatten).rtake (max new.length p.size)) := by
  induction news generalizing before line nIter k with
  | nil => cases hnew
  | cons first news ih =>
    have hgrown : line ++ first <:+ before ++ first := by
      obtain ⟨front, rfl⟩ := hline
      exact ⟨front, by rw [List.append_assoc]⟩
    cases k with
    | zero =>
      obtain rfl := Option.some.inj hnew
      obtain rfl := Option.some.inj hheard
      have htake : ((first :: news).take (0 + 1)).flatten = first := by simp
      rw [htake]
      refine ⟨(List.drop_suffix _ _).trans hgrown, ?_, ?_, fun _ heq => by rw [heq]⟩
      · rw [rtake_append_of_ge (Nat.le_max_left _ _)]
        exact List.suffix_append _ _
      · rw [rtake_length]
        exact Nat.min_le_left _ _
    | succ k =>
      rw [List.take_succ_cons, List.flatten_cons, ← List.append_assoc]
      have hnext : (if p.startsLine (nIter + 1) then (line ++ first).rtake p.nSamplesKeep.toNat
          else line ++ first) <:+ before ++ first := by
        split_ifs
        · exact (List.drop_suffix _ _).trans hgrown
        · exact hgrown
      obtain ⟨hsuffix, hends, hlen, hplain⟩ := ih hnext (nIter + 1) k hnew hheard
      refine ⟨hsuffix, hends, hlen, fun hp heq => hplain hp ?_⟩
      rw [if_neg (by simp [startsLine, hp]), heq]

end Slide

/-! ## The steps of a run -/

/-- A step is read whole, unless the program is stopped in it. -/
structure Whole (p : Params) (s : State) : Prop where
  stopped : s.isRunning = false → s.pc = .inferring ∨ s.pc = .ended
  reading : s.pc = .clearing → nSamples p.stepMs ≤ s.pcmf32New.length
  running : s.isRunning = true → ∀ new ∈ s.steps, nSamples p.stepMs ≤ new.length
  before : ∀ new ∈ s.steps.dropLast, nSamples p.stepMs ≤ new.length

section

variable {p : Params} {s s' : State}

/-- A step that leaves the inferences alone. -/
theorem Whole.goesOn (h : Whole p s) (hpc : s.isRunning = true ∨ s'.pc = .ended)
    (hrunning : s'.isRunning = s.isRunning) (hsteps : s'.steps = s.steps)
    (hreading : s'.pc = .clearing → nSamples p.stepMs ≤ s'.pcmf32New.length) : Whole p s' := by
  refine ⟨fun hstopped => ?_, hreading, ?_, ?_⟩
  · rcases hpc with hrun | hended
    · rw [hrunning, hrun] at hstopped
      cases hstopped
    · exact .inr hended
  · rw [hrunning, hsteps]
    exact h.running
  · rw [hsteps]
    exact h.before

theorem Whole.infer (h : Whole p s) (hrun : s.isRunning = true) {isRunning : Bool}
    (audio : AudioAsync Sample)
    (hnew : isRunning = true → nSamples p.stepMs ≤ s.pcmf32New.length) :
    Whole p { s with audio, isRunning }.infer := by
  refine ⟨fun _ => .inl rfl, Pc.noConfusion, fun hrunning new hmem => ?_, ?_⟩
  · rcases List.mem_append.mp hmem with hold | hlast
    · exact h.running hrun new hold
    · rw [List.mem_singleton.mp hlast]
      exact hnew hrunning
  · show ∀ new ∈ (s.steps ++ [s.pcmf32New]).dropLast, _
    rw [List.dropLast_concat]
    exact h.running hrun

theorem Whole.step (h : Whole p s) {e : Event} (hstep : p.step e s = some s') : Whole p s' := by
  cases e with
  | packet count =>
    rw [Params.step] at hstep
    split_ifs at hstep
    cases happend : s.audio.appendSamples (numbered s.captured count) with
    | none => rw [happend] at hstep; cases hstep
    | some audio =>
      rw [happend] at hstep
      obtain rfl := Option.some.inj hstep
      exact ⟨h.stopped, h.reading, h.running, h.before⟩
  | main answer =>
    have hrun : s.pc ≠ .inferring → s.pc ≠ .ended → s.isRunning = true := by
      intro hinferring hended
      by_contra hstopped
      rcases h.stopped (by simpa using hstopped) with hpc | hpc
      · exact hinferring hpc
      · exact hended hpc
    rw [Params.step] at hstep
    cases hpc : s.pc <;> rw [hpc] at hstep hrun <;> dsimp only at hstep
    case outer =>
      split_ifs at hstep <;> obtain rfl := Option.some.inj hstep
      · exact h.goesOn (.inl (hrun Pc.noConfusion Pc.noConfusion)) rfl rfl Pc.noConfusion
      · exact ⟨fun _ => .inr rfl, Pc.noConfusion, Bool.noConfusion, h.before⟩
    case poll =>
      split_ifs at hstep <;> obtain rfl := Option.some.inj hstep
      · exact h.goesOn (.inl (hrun Pc.noConfusion Pc.noConfusion)) rfl rfl Pc.noConfusion
      · exact h.infer (hrun Pc.noConfusion Pc.noConfusion) s.audio Bool.noConfusion
    case get =>
      cases hget : s.audio.get p.stepMs with
      | none => rw [hget] at hstep; cases hstep
      | some new =>
        rw [hget] at hstep
        obtain rfl := Option.some.inj hstep
        dsimp only
        split_ifs with hmany henough
        · exact h.goesOn (.inl (hrun Pc.noConfusion Pc.noConfusion)) rfl rfl Pc.noConfusion
        · exact h.goesOn (.inl (hrun Pc.noConfusion Pc.noConfusion)) rfl rfl fun _ => henough
        · exact h.goesOn (.inl (hrun Pc.noConfusion Pc.noConfusion)) rfl rfl Pc.noConfusion
    case clearing =>
      obtain rfl := Option.some.inj hstep
      exact h.infer (hrun Pc.noConfusion Pc.noConfusion) _ fun _ => h.reading hpc
    case dropping | sleeping =>
      obtain rfl := Option.some.inj hstep
      exact h.goesOn (.inl (hrun Pc.noConfusion Pc.noConfusion)) rfl rfl Pc.noConfusion
    case inferring =>
      obtain rfl := Option.some.inj hstep
      cases hrunning : s.isRunning with
      | false => exact h.goesOn (.inr (by simp)) hrunning.symm rfl (by simp)
      | true => exact h.goesOn (.inl hrunning) hrunning.symm rfl (by cases answer <;> simp)
    case ended => cases hstep

theorem whole_reachable (hs : p.system.Reachable s) : Whole p s := by
  refine System.Inductive.reachable (I := Whole p) ⟨?_, ?_⟩ hs
  · rintro _ rfl
    exact ⟨Bool.noConfusion, Pc.noConfusion, fun _ _ h => absurd h List.not_mem_nil,
      fun _ h => absurd h List.not_mem_nil⟩
  · rintro s s' - h ⟨e, hstep⟩
    exact h.step hstep

/-- What a step adds to the inferences while the program is not stopped. -/
theorem step_steps {e : Event} (hstep : p.step e s = some s') (hrunning : s'.isRunning = true) :
    s.isRunning = true ∧ (s'.steps = s.steps ∨
      s.pc = .clearing ∧ s' = { s with audio := s.audio.clear }.infer) := by
  cases e with
  | packet count =>
    rw [Params.step] at hstep
    split_ifs at hstep
    obtain ⟨audio, -, rfl⟩ := Option.map_eq_some_iff.mp hstep
    exact ⟨hrunning, .inl rfl⟩
  | main answer =>
    rw [Params.step] at hstep
    cases hpc : s.pc <;> rw [hpc] at hstep <;> dsimp only at hstep
    case outer | poll =>
      split_ifs at hstep <;> obtain rfl := Option.some.inj hstep
      · exact ⟨hrunning, .inl rfl⟩
      · cases hrunning
    case get =>
      obtain ⟨new, -, rfl⟩ := Option.map_eq_some_iff.mp hstep
      revert hrunning
      split_ifs <;> exact fun hrunning => ⟨hrunning, .inl rfl⟩
    case clearing =>
      obtain rfl := Option.some.inj hstep
      exact ⟨hrunning, .inr ⟨rfl, rfl⟩⟩
    case dropping | sleeping | inferring =>
      obtain rfl := Option.some.inj hstep
      exact ⟨hrunning, .inl rfl⟩
    case ended => cases hstep

/-- The state behind the clear that ended a step, in the run that has come to `s`. -/
structure Cleared (p : Params) (s : State) (steps : List (List Sample)) (s₀ : State) : Prop where
  reachable : (p.system.restrict Kept).Reachable s₀
  stretch : Relation.ReflTransGen (p.system.restrict Kept).next s₀ s
  running : s₀.isRunning = true
  inferring : s₀.pc = .inferring
  empty : s₀.audio.audioLen = 0
  steps_eq : s₀.steps = steps

/-- Each step was cleared once, and everything captured by then is in the steps. -/
theorem cleared_reachable (hs : (p.system.restrict Kept).Reachable s)
    (hrunning : s.isRunning = true) (k : Nat) (hk : k < s.steps.length) :
    ∃ s₀, Cleared p s (s.steps.take (k + 1)) s₀ := by
  refine System.Inductive.reachable (S := p.system.restrict Kept)
    (I := fun s => s.isRunning = true → k < s.steps.length →
      ∃ s₀, Cleared p s (s.steps.take (k + 1)) s₀) ⟨?_, ?_⟩ hs hrunning hk
  · rintro _ rfl - hk
    cases hk
  · rintro s s' hr ih hnext hrunning hk
    obtain ⟨e, hstep⟩ := hnext.1
    obtain ⟨hrun, hsteps⟩ := step_steps hstep hrunning
    have hearlier : k < s.steps.length → s'.steps.take (k + 1) = s.steps.take (k + 1) →
        ∃ s₀, Cleared p s' (s'.steps.take (k + 1)) s₀ := by
      intro hold htake
      obtain ⟨s₀, h⟩ := ih hrun hold
      rw [htake]
      exact ⟨s₀, h.reachable, h.stretch.tail hnext, h.running, h.inferring, h.empty, h.steps_eq⟩
    rcases hsteps with heq | ⟨hpc, rfl⟩
    · exact hearlier (heq ▸ hk) (by rw [heq])
    · -- either the step just cleared is the one asked for, or an earlier one is
      have hgrown : { s with audio := s.audio.clear }.infer.steps = s.steps ++ [s.pcmf32New] := rfl
      rw [hgrown, List.length_append, List.length_singleton] at hk
      rcases Nat.lt_or_ge k s.steps.length with hold | hlast
      · exact hearlier hold (by rw [hgrown, List.take_append_of_le_length hold])
      · refine ⟨_, hr.next hnext, .refl, hrun, rfl, rfl, ?_⟩
        rw [List.take_of_length_le]
        rw [hgrown, List.length_append, List.length_singleton]
        omega

/-- In a run in which nothing is lost the steps are what was captured, and the buffer has
    the rest. -/
theorem gapless_reachable (hs : (p.system.restrict Kept).Reachable s)
    (hrunning : s.isRunning = true) :
    s.steps.flatten = numbered 0 (s.captured - s.audio.audioLen) := by
  have hend : ∀ {s : State} {first : Nat}, Buffered p first s → Heard p first s →
      s.captured - s.audio.audioLen = first := by
    intro s first h hheard
    have hlen := hheard.audioLen h
    have hle := h.first_le
    omega
  refine System.Inductive.reachable (S := p.system.restrict Kept)
    (I := fun s => s.isRunning = true →
      s.steps.flatten = numbered 0 (s.captured - s.audio.audioLen)) ⟨?_, ?_⟩ hs hrunning
  · rintro _ rfl -
    rfl
  · rintro s s' hr ih ⟨⟨e, hstep⟩, hkept⟩ hrunning
    obtain ⟨hrun, hsteps⟩ := step_steps hstep hrunning
    obtain ⟨first, h, hheard⟩ := heard_reachable hr
    have hflat := ih hrun
    rw [hend h hheard] at hflat
    cases does h (never_warned hr.of_restrict).1 hstep with
    | @packet audio count hbuffered =>
      -- the buffer goes on from the same sample
      have hfits := hheard.fits
      have hlen := hheard.audioLen h
      have hsize : audio.audio.length = s.audio.audio.length := hbuffered.room.trans h.room.symm
      have hroom := hkept.1
      have hle := h.first_le
      have hnow := hbuffered.holds.len
      rw [length_numbered] at hnow
      dsimp only at hroom hnow ⊢
      rw [hflat]
      congr 1
      omega
    | reads =>
      show s.steps.flatten = numbered 0 (s.captured - s.audio.audioLen)
      rw [hend h hheard, hflat]
    | clears hpc =>
      have hwhole := hheard.whole h hpc (hkept.2 hpc rfl)
      have hle := h.first_le
      show (s.steps ++ [s.pcmf32New]).flatten = numbered 0 (s.captured - 0)
      rw [List.flatten_append, hflat, List.flatten_singleton, hwhole]
      have hnext := numbered_append 0 first (s.captured - first)
      rw [Nat.zero_add] at hnext
      rw [hnext]
      congr 1
      omega
    | goesOn hpc =>
      show _ = numbered 0 (s.captured - s.audio.audioLen)
      rw [hend h hheard, ← hflat]
      exact congrArg List.flatten (hsteps.resolve_right fun hclears => hpc hclears.1)

end

/-- **What an inference hears.** In every run, whatever the packets and the answers, the
    windows are the ends of their lines: each ends with its own step, is a run of the new
    audio so far, and no longer than the length and what is kept (or its step); with plain
    output it is all of that audio, cut to this size. The copy that starts a line leaves its
    vector only in a program that is stopped in its first step, with less of it read than is
    to be kept and lines of one step. -/
theorem windows_slide (p : Slide) (hkeep : 0 ≤ p.keepMs) (s : State)
    (hs : p.system.Reachable s) :
    ((p.windows .start s.steps).2 = none ↔
      s.isRunning = false ∧ p.startsLine 1 = true ∧
        ∃ new, s.steps = [new] ∧ (new.length : Int) < p.nSamplesKeep) ∧
    (p.windows .start s.steps).1 = p.lineWindows [] 0 s.steps ∧
    ∀ (k : Nat) (new heard : List Sample), s.steps[k]? = some new →
      (p.windows .start s.steps).1[k]? = some heard →
      heard <:+ (s.steps.take (k + 1)).flatten ∧ new <:+ heard ∧
        heard.length ≤ max new.length p.size ∧
        (p.plainOutput = true →
          heard = (s.steps.take (k + 1)).flatten.rtake (max new.length p.size)) := by
  have h := whole_reachable hs
  have hstep := (Slide.nSamplesKeep_bounds hkeep).2.1
  -- a step that is read whole is long enough to keep
  have hlong : ∀ new : List Sample, nSamples p.stepMs ≤ new.length →
      p.nSamplesKeep ≤ new.length := fun new hnew => hstep.trans hnew
  have hnone : (p.windows .start s.steps).2 = none ↔
      s.isRunning = false ∧ p.startsLine 1 = true ∧
        ∃ new, s.steps = [new] ∧ (new.length : Int) < p.nSamplesKeep := by
    cases hsteps : s.steps with
    | nil => simp [Slide.windows]
    | cons new rest =>
      cases rest with
      | nil =>
        rw [Slide.windows_one hkeep]
        refine ⟨fun ⟨hline, hshort⟩ => ⟨?_, hline, new, rfl, hshort⟩, ?_⟩
        · by_contra hrunning
          have hread := hlong new (h.running (by simpa using hrunning) new (by simp [hsteps]))
          omega
        · rintro ⟨-, hline, _, heq, hshort⟩
          obtain ⟨rfl, -⟩ := List.cons.inj heq
          exact ⟨hline, hshort⟩
      | cons next rest =>
        have hread := hlong new (h.before new (by simp [hsteps]))
        have hsome := Slide.windows_whole hkeep hread (next :: rest)
        refine iff_of_false (fun hnone => ?_) ?_
        · rw [hnone] at hsome
          cases hsome
        · rintro ⟨-, -, _, heq, -⟩
          cases heq
  obtain ⟨hstart, heq⟩ := Slide.windows_lineWindows (p := p) Slide.carries_start s.steps
  have hall : (p.windows .start s.steps).1 = p.lineWindows [] 0 s.steps := by
    cases hlast : (p.windows .start s.steps).2 with
    | some w => exact heq (by rw [hlast]; rfl)
    | none =>
      obtain ⟨-, -, new, hsteps, -⟩ := hnone.mp hlast
      rw [hsteps] at hstart ⊢
      refine hstart.eq_of_length ?_
      rw [Slide.windows]
      dsimp only
      cases p.infer (p.slide new .start) <;> rfl
  refine ⟨hnone, hall, fun k new heard hnew hheard => ?_⟩
  rw [hall] at hheard
  obtain ⟨hsuffix, hends, hlen, hplain⟩ :=
    Slide.lineWindows_get (List.suffix_refl []) s.steps 0 k hnew hheard
  exact ⟨hsuffix, hends, hlen, fun hp => hplain hp rfl⟩

/-- **And without a gap.** In a run in which nothing is lost, until it is stopped, an
    inference hears the last samples captured when its step was cleared, every one of them. -/
theorem windows_gapless (p : Slide) (s : State) (hs : (p.system.restrict Kept).Reachable s)
    (hrunning : s.isRunning = true) (k : Nat) (heard : List Sample)
    (hheard : (p.windows .start s.steps).1[k]? = some heard) :
    ∃ s₀, Cleared p.toParams s (s.steps.take (k + 1)) s₀ ∧
      heard = (numbered 0 s₀.captured).rtake heard.length := by
  obtain ⟨rest, hstart⟩ := (Slide.windows_lineWindows (p := p) Slide.carries_start s.steps).1
  have hspec : (p.lineWindows [] 0 s.steps)[k]? = some heard := by
    rw [show Windows.start.nIter = 0 from rfl] at hstart
    rw [← hstart]
    exact (List.getElem?_append_left (List.getElem?_eq_some_iff.mp hheard).1).trans hheard
  have hlt := (List.getElem?_eq_some_iff.mp hspec).1
  rw [Slide.length_lineWindows] at hlt
  obtain ⟨hsuffix, -⟩ := Slide.lineWindows_get (List.suffix_refl []) s.steps 0 k
    (List.getElem?_eq_getElem hlt) hspec
  rw [List.nil_append] at hsuffix
  obtain ⟨s₀, hcleared⟩ := cleared_reachable hs hrunning k hlt
  have hflat := gapless_reachable hcleared.reachable hcleared.running
  rw [hcleared.steps_eq, hcleared.empty, Nat.sub_zero] at hflat
  refine ⟨s₀, hcleared, ?_⟩
  rw [← hflat]
  exact List.suffix_iff_eq_drop.mp hsuffix

/-! ## Steps of a millisecond -/

/-- Lines of one step, and a whole step kept. -/
def shortLines : Slide := ⟨oneStep, 1, false, by decide⟩

/-- In the inference on the second packet of a step. -/
def secondStep : State where
  audio := ⟨1, 16000, numbered 16 16, 0, 0⟩
  pc := .inferring
  isRunning := true
  pcmf32New := numbered 16 16
  captured := 32
  steps := [numbered 0 16, numbered 16 16]
  warned := []

theorem secondStep_reachable : (shortLines.system.restrict Kept).Reachable secondStep := by
  have hget : (⟨1, 16000, numbered 0 16, 0, 16⟩ : AudioAsync Sample).get 1 =
      some (numbered 0 16) := rfl
  have hget' : (⟨1, 16000, numbered 16 16, 0, 16⟩ : AudioAsync Sample).get 1 =
      some (numbered 16 16) := rfl
  have h := System.Reachable.start (S := shortLines.system.restrict Kept) rfl
  have h : (shortLines.system.restrict Kept).Reachable { oneStep.start with
      audio := ⟨1, 16000, numbered 0 16, 0, 16⟩, captured := 16 } :=
    h.next ⟨⟨.packet 16, rfl⟩, by decide, Pc.noConfusion⟩
  have h := h.next ⟨⟨.main true, rfl⟩, by decide, Pc.noConfusion⟩
  have h := h.next ⟨⟨.main true, rfl⟩, by decide, Pc.noConfusion⟩
  have hstep := step_get (p := oneStep) (s := { oneStep.start with
    audio := ⟨1, 16000, numbered 0 16, 0, 16⟩, captured := 16, pc := .get }) rfl hget rfl true
  have h := h.next ⟨⟨.main true, hstep⟩, by decide, Pc.noConfusion⟩
  have h := h.next ⟨⟨.main true, rfl⟩, by decide, fun _ _ => rfl⟩
  have h := h.next ⟨⟨.main true, rfl⟩, by decide, Pc.noConfusion⟩
  have h : (shortLines.system.restrict Kept).Reachable { secondStep with
      audio := ⟨1, 16000, numbered 16 16, 0, 16⟩
      pc := .outer
      pcmf32New := numbered 0 16
      steps := [numbered 0 16] } := h.next ⟨⟨.packet 16, rfl⟩, by decide, Pc.noConfusion⟩
  have h := h.next ⟨⟨.main true, rfl⟩, by decide, Pc.noConfusion⟩
  have h := h.next ⟨⟨.main true, rfl⟩, by decide, Pc.noConfusion⟩
  have hstep := step_get (p := oneStep) (s := { secondStep with
    audio := ⟨1, 16000, numbered 16 16, 0, 16⟩
    pc := .get
    pcmf32New := numbered 0 16
    steps := [numbered 0 16] }) rfl hget' rfl true
  have h := h.next ⟨⟨.main true, hstep⟩, by decide, Pc.noConfusion⟩
  exact h.next ⟨⟨.main true, rfl⟩, by decide, fun _ _ => rfl⟩

/-- The second inference hears its step, and the one that is kept. -/
theorem secondStep_lineWindows :
    shortLines.lineWindows [] 0 secondStep.steps = [numbered 0 16, numbered 0 32] := by
  decide +kernel

/-- What the second inference of a run hears; the copies stay inside their vector. -/
theorem windows_slide_second :
    ∃ s, shortLines.system.Reachable s ∧ s.steps = [numbered 0 16, numbered 16 16] ∧
      (shortLines.windows .start s.steps).2 ≠ none ∧
      (shortLines.windows .start s.steps).1 = [numbered 0 16, numbered 0 32] := by
  obtain ⟨hnone, hall, -⟩ :=
    windows_slide shortLines (by decide) secondStep secondStep_reachable.of_restrict
  exact ⟨_, secondStep_reachable.of_restrict, rfl, fun h => Bool.noConfusion (hnone.mp h).1,
    hall.trans secondStep_lineWindows⟩

/-- And that it is the last that was captured when its step was cleared. -/
theorem windows_gapless_second :
    ∃ s₀, Cleared oneStep secondStep secondStep.steps s₀ ∧
      numbered 0 32 = (numbered 0 s₀.captured).rtake 32 := by
  have hheard : (shortLines.windows .start secondStep.steps).1[1]? = some (numbered 0 32) := by
    decide +kernel
  exact windows_gapless shortLines secondStep secondStep_reachable rfl 1 (numbered 0 32) hheard

end Steps
end Loopback
end LocalMeetingStt
