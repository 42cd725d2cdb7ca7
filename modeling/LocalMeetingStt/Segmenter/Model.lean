import LocalMeetingStt.Lib.Slices

/-!
# `SpeechSegmenter` (`live_streaming.py`)

The segmenter keeps the audio it has not yet finalized in `pending` and runs the voice
activity detector over all of it after every block. A detector is an arbitrary
function of the audio, bundled with the one thing the segmenter relies on: its spans
are sorted, disjoint, non-empty and inside what it was given. The field is what makes
the `while` loop of `feed` terminate, so `feedLoop` needs no fuel: every pass that
continues drops at least one sample (`feedPass_again_lt`, `feed_terminates`).

The thresholds are sample counts the constructor rounds from its arguments. The ones
that depend on an argument are fields of `Config`; the constructor refuses every sample
rate but 16 kHz, so the others are constants.
-/

namespace LocalMeetingStt

/-- One span of a detector's answer, in samples of the audio it was given. -/
structure Span where
  start : Nat
  stop : Nat
deriving DecidableEq, Repr

/-- Sorted, disjoint, non-empty and inside `n` samples. -/
def WellPlaced (n : Nat) (spans : List Span) : Prop :=
  (∀ span ∈ spans, span.start < span.stop ∧ span.stop ≤ n) ∧
    spans.Pairwise fun before after => before.stop ≤ after.start

/-- Where the audio of the spans stands in a stream, its spans are increasing slices. -/
theorem WellPlaced.within {n : Nat} {spans : List Span} (h : WellPlaced n spans) (base : Nat) :
    Slices.Within base (spans.map fun span => (base + span.start, base + span.stop))
      (base + n) := by
  obtain ⟨hin, hsorted⟩ := h
  -- The bound on the first span moves along with the induction.
  suffices hfrom : ∀ lo, (∀ span ∈ spans, lo ≤ span.start) → lo ≤ n →
      Slices.Within (base + lo) (spans.map fun span => (base + span.start, base + span.stop))
        (base + n) from
    hfrom 0 (fun _ _ => Nat.zero_le _) (Nat.zero_le _)
  induction spans with
  | nil =>
    intro lo _ hlo
    exact Nat.add_le_add_left hlo base
  | cons span rest ih =>
    intro lo hlo _
    obtain ⟨hlater, hsorted⟩ := List.pairwise_cons.mp hsorted
    have hspan := hin span List.mem_cons_self
    refine ⟨Nat.add_le_add_left (hlo span List.mem_cons_self) base,
      Nat.add_le_add_left (Nat.le_of_lt hspan.1) base, ?_⟩
    exact ih (fun s hs => hin s (List.mem_cons_of_mem span hs)) hsorted span.stop hlater hspan.2

/-- A voice activity detector with its contract. -/
structure Vad (α : Type*) where
  spans : List α → List Span
  wellPlaced : ∀ audio, WellPlaced audio.length (spans audio)

namespace Segmenter

/-- `round(0.3 * sample_rate)` -/
def preRollSamples : Nat := 4800
/-- `round(0.1 * sample_rate)` -/
def endMarginSamples : Nat := 1600
/-- `round(2.0 * sample_rate)` -/
def minSplitSamples : Nat := 32000

structure Config (α : Type*) where
  vad : Vad α
  /-- `None` when `split_after_seconds` is. -/
  shortPauseVad : Option (Vad α)
  splitAfterSamples : Int
  previewIntervalSamples : Int
  maxUtteranceSamples : Int
  minPreviewSamples : Int

structure State (α : Type*) where
  pending : List α
  totalSamples : Nat
  lastPreviewSamples : Nat
deriving DecidableEq, Repr

def State.new {α : Type*} : State α := ⟨[], 0, 0⟩

/-- `"partial"` and `"final"`. -/
inductive Kind where
  | preview
  | final
deriving DecidableEq, Repr

structure CaptionRequest (α : Type*) where
  kind : Kind
  audio : List α
deriving DecidableEq, Repr

variable {α : Type*}

open Slices

/-- Where to end a long unfinished utterance: the middle of its latest short pause, if
    that leaves at least 2 s to finalize. -/
def shortPauseCut (cfg : Config α) (pending : List α) (start : Nat) : Option Nat :=
  match cfg.shortPauseVad with
  | none => none
  | some vad =>
    if (pending.length : Int) - start < cfg.splitAfterSamples then none
    else
      let spans := vad.spans (pending.drop start)
      (spans.dropLast.reverse.zip spans.tail.reverse).findSome? fun (before, after) =>
        let cut := start + (before.stop + after.start) / 2
        if cut - start ≥ minSplitSamples then some cut else none

/-- How one pass of the `while` loop ends: `return requests`, or `continue`. -/
inductive Pass (α : Type*) where
  | done (s : State α) (requests : List (CaptionRequest α))
  | again (s : State α) (requests : List (CaptionRequest α))

/-- The body of the `while` loop of `feed`. -/
def feedPass (cfg : Config α) (s : State α) : Pass α :=
  match cfg.vad.spans s.pending with
  | [] => .done { s with pending := s.pending.drop (s.pending.length - preRollSamples) } []
  | first :: rest =>
    let start := max 0 first.start
    let stop := min s.pending.length first.stop
    let complete := !rest.isEmpty || stop + endMarginSamples < s.pending.length
    if complete then
      .again { s with pending := s.pending.drop stop, lastPreviewSamples := s.totalSamples }
        [⟨.final, slice s.pending (start, stop)⟩]
    else if (s.pending.length : Int) ≥ cfg.maxUtteranceSamples then
      .done { s with pending := [], lastPreviewSamples := s.totalSamples }
        [⟨.final, s.pending.drop start⟩]
    else
      let previewDue :=
        (s.totalSamples : Int) - s.lastPreviewSamples ≥ cfg.previewIntervalSamples
      match (if previewDue then shortPauseCut cfg s.pending start else none) with
      | some cut =>
        .again { s with pending := s.pending.drop cut, lastPreviewSamples := s.totalSamples }
          [⟨.final, slice s.pending (start, cut)⟩]
      | none =>
        if previewDue ∧ (s.pending.length : Int) - start ≥ cfg.minPreviewSamples then
          .done { s with lastPreviewSamples := s.totalSamples }
            [⟨.preview, s.pending.drop start⟩]
        else .done s []

/-! ## The spans of a contract-abiding detector -/

theorem Vad.first_mem {vad : Vad α} {audio : List α} {first : Span} {rest : List Span}
    (h : vad.spans audio = first :: rest) : first.start < first.stop ∧ first.stop ≤ audio.length :=
  (vad.wellPlaced audio).1 first (by simp [h])

/-- Each span with the one after it. -/
def gaps (spans : List Span) : List (Span × Span) := spans.dropLast.zip spans.tail

/-- The two reversed lists the cut looks through. -/
theorem zip_reversed (spans : List Span) :
    spans.dropLast.reverse.zip spans.tail.reverse = (gaps spans).reverse := by
  rw [List.zip, ← List.reverse_zipWith (by simp), ← List.zip, gaps]

theorem gaps_split {spans : List Span} {before after : Span} (h : (before, after) ∈ gaps spans) :
    ∃ front back, spans = front ++ before :: after :: back := by
  unfold gaps at h
  induction spans with
  | nil => simp at h
  | cons a rest ih =>
    cases rest with
    | nil => simp at h
    | cons b rest =>
      simp only [List.dropLast_cons_cons, List.tail_cons, List.zip_cons_cons, List.mem_cons,
        Prod.mk.injEq] at h
      rcases h with ⟨rfl, rfl⟩ | h
      · exact ⟨[], rest, rfl⟩
      · obtain ⟨front, back, heq⟩ := ih h
        exact ⟨a :: front, back, by rw [heq, List.cons_append]⟩

/-- The gap between two neighbouring spans is inside the audio. -/
theorem mem_gaps {n : Nat} {spans : List Span} (h : WellPlaced n spans) {before after : Span}
    (hmem : (before, after) ∈ gaps spans) :
    before.stop ≤ after.start ∧ after.start < after.stop ∧ after.stop ≤ n := by
  obtain ⟨front, back, rfl⟩ := gaps_split hmem
  obtain ⟨hin, hsorted⟩ := h
  have hpair := (List.pairwise_append.mp hsorted).2.1
  exact ⟨(List.pairwise_cons.mp hpair).1 after List.mem_cons_self, hin after (by simp)⟩

/-- A cut lies after the start, and audio is left behind it. -/
theorem shortPauseCut_bounds {cfg : Config α} {pending : List α} {start cut : Nat}
    (h : shortPauseCut cfg pending start = some cut) :
    start + minSplitSamples ≤ cut ∧ cut < pending.length := by
  unfold shortPauseCut at h
  split at h
  · exact absurd h (by simp)
  · next vad _ =>
    split_ifs at h with hlen
    obtain ⟨⟨before, after⟩, hmem, hcut⟩ := List.exists_of_findSome?_eq_some h
    rw [zip_reversed, List.mem_reverse] at hmem
    obtain ⟨hgap, hpos, hle⟩ := mem_gaps (vad.wellPlaced (pending.drop start)) hmem
    dsimp only at hcut
    split_ifs at hcut with hmin
    obtain rfl := Option.some.inj hcut
    rw [List.length_drop] at hle
    unfold minSplitSamples at hmin ⊢
    omega

/-! ## What one pass does

The one case analysis of `feedPass`. The detector's contract has removed the clamping
of the span to the buffer. -/

/-- The six ways a pass over `s` ends. `first` is the first span the detector found. -/
inductive PassOutcome (cfg : Config α) (s : State α) : Pass α → Prop
  /-- No speech: the buffer keeps its pre-roll. -/
  | silence (k : Nat) (hspans : cfg.vad.spans s.pending = [])
      (hk : k = s.pending.length - preRollSamples) :
      PassOutcome cfg s (.done { s with pending := s.pending.drop k } [])
  /-- The first span is over. -/
  | utterance (first : Span) (rest : List Span)
      (hspans : cfg.vad.spans s.pending = first :: rest)
      (hcomplete : rest ≠ [] ∨ first.stop + endMarginSamples < s.pending.length) :
      PassOutcome cfg s (.again
        { s with pending := s.pending.drop first.stop, lastPreviewSamples := s.totalSamples }
        [⟨.final, slice s.pending (first.start, first.stop)⟩])
  /-- The utterance has reached its longest length. -/
  | limit (first : Span) (hspans : cfg.vad.spans s.pending = [first])
      (hlong : cfg.maxUtteranceSamples ≤ s.pending.length) :
      PassOutcome cfg s (.done
        { s with pending := [], lastPreviewSamples := s.totalSamples }
        [⟨.final, slice s.pending (first.start, s.pending.length)⟩])
  /-- The utterance is long, and ends at its latest short pause. -/
  | shortPause (first : Span) (cut : Nat) (hspans : cfg.vad.spans s.pending = [first])
      (hshort : (s.pending.length : Int) < cfg.maxUtteranceSamples)
      (hdue : cfg.previewIntervalSamples ≤ (s.totalSamples : Int) - s.lastPreviewSamples)
      (hcut : shortPauseCut cfg s.pending first.start = some cut) :
      PassOutcome cfg s (.again
        { s with pending := s.pending.drop cut, lastPreviewSamples := s.totalSamples }
        [⟨.final, slice s.pending (first.start, cut)⟩])
  | preview (first : Span) (hspans : cfg.vad.spans s.pending = [first])
      (hshort : (s.pending.length : Int) < cfg.maxUtteranceSamples)
      (hdue : cfg.previewIntervalSamples ≤ (s.totalSamples : Int) - s.lastPreviewSamples)
      (hlong : cfg.minPreviewSamples ≤ (s.pending.length : Int) - first.start) :
      PassOutcome cfg s (.done { s with lastPreviewSamples := s.totalSamples }
        [⟨.preview, s.pending.drop first.start⟩])
  | wait (first : Span) (hspans : cfg.vad.spans s.pending = [first])
      (hshort : (s.pending.length : Int) < cfg.maxUtteranceSamples) :
      PassOutcome cfg s (.done s [])

theorem feedPass_outcome (cfg : Config α) (s : State α) : PassOutcome cfg s (feedPass cfg s) := by
  unfold feedPass
  split
  · next hspans => exact .silence _ hspans rfl
  · next first rest hspans =>
    have hle := (Vad.first_mem hspans).2
    -- `max(0, start)` and `min(len, stop)` are the span's own ends.
    simp only [Nat.zero_max, Nat.min_eq_right hle]
    by_cases hcomplete : rest ≠ [] ∨ first.stop + endMarginSamples < s.pending.length
    · rw [if_pos (by simpa using hcomplete)]
      exact .utterance first rest hspans hcomplete
    · obtain ⟨rfl, -⟩ : rest = [] ∧ _ := by simpa using hcomplete
      rw [if_neg (by simpa using hcomplete)]
      by_cases hlong : cfg.maxUtteranceSamples ≤ s.pending.length
      · rw [if_pos hlong, ← slice_all_from]
        exact .limit first hspans hlong
      · rw [if_neg hlong]
        rw [Int.not_le] at hlong
        by_cases hdue : cfg.previewIntervalSamples ≤ (s.totalSamples : Int) - s.lastPreviewSamples
        · simp only [ge_iff_le, hdue, if_true, true_and]
          cases hcut : shortPauseCut cfg s.pending first.start with
          | some cut => exact .shortPause first cut hspans hlong hdue hcut
          | none =>
            dsimp only
            split_ifs with hmin
            · exact .preview first hspans hlong hdue hmin
            · exact .wait first hspans hlong
        · simp only [ge_iff_le, hdue, if_false, false_and]
          exact .wait first hspans hlong

/-! ## The loop -/

/-- **A pass that continues leaves a strictly shorter buffer.** -/
theorem feedPass_again_lt {cfg : Config α} {s s' : State α} {requests : List (CaptionRequest α)}
    (hne : s.pending ≠ []) (h : feedPass cfg s = .again s' requests) :
    s'.pending.length < s.pending.length := by
  have hpos : 0 < s.pending.length := List.length_pos_iff.mpr hne
  have hout := feedPass_outcome cfg s
  rw [h] at hout
  cases hout with
  | utterance first rest hspans _ =>
    have := Vad.first_mem hspans
    simp only [List.length_drop]
    omega
  | shortPause first cut _ _ _ hcut =>
    have := shortPauseCut_bounds hcut
    simp only [List.length_drop]
    unfold minSplitSamples at this
    omega

/-- The `while` loop of `feed`, from its head. -/
def feedLoop (cfg : Config α) (s : State α) : State α × List (CaptionRequest α) :=
  if _hempty : s.pending = [] then (s, [])
  else
    match _hpass : feedPass cfg s with
    | .done s' requests => (s', requests)
    | .again s' requests =>
      let (s'', more) := feedLoop cfg s'
      (s'', requests ++ more)
termination_by s.pending.length
decreasing_by exact feedPass_again_lt _hempty _hpass

theorem feedLoop_nil (cfg : Config α) {s : State α} (h : s.pending = []) :
    feedLoop cfg s = (s, []) := by
  rw [feedLoop, dif_pos h]

theorem feedLoop_done {cfg : Config α} {s s' : State α} {requests : List (CaptionRequest α)}
    (hne : s.pending ≠ []) (h : feedPass cfg s = .done s' requests) :
    feedLoop cfg s = (s', requests) := by
  rw [feedLoop, dif_neg hne]
  split <;> simp_all

theorem feedLoop_again {cfg : Config α} {s s' : State α} {requests : List (CaptionRequest α)}
    (hne : s.pending ≠ []) (h : feedPass cfg s = .again s' requests) :
    feedLoop cfg s = ((feedLoop cfg s').1, requests ++ (feedLoop cfg s').2) := by
  rw [feedLoop, dif_neg hne]
  split <;> simp_all

def feed (cfg : Config α) (s : State α) (block : List α) : State α × List (CaptionRequest α) :=
  if block.isEmpty then (s, [])
  else
    feedLoop cfg { s with
      pending := s.pending ++ block
      totalSamples := s.totalSamples + block.length }

def finish (cfg : Config α) (s : State α) : State α × List (CaptionRequest α) :=
  let spans := if s.pending.isEmpty then [] else cfg.vad.spans s.pending
  ({ s with pending := [] },
    spans.map fun span => ⟨.final, slice s.pending (span.start, span.stop)⟩)

/-! ## The loop turn by turn

`feedLoop` is defined because it ends. The interpreter knows nothing of that, so here is the
same loop with a number of turns it may take. A detector may also keep a state of its own
and answer otherwise the next time: each turn has its own `cfg`, of which no more is known
than the contract. -/

/-- The `while` loop of `feed` with so many turns to go; `none` if it wants more. -/
def feedTurns : (Nat → Config α) → Nat → State α → List (CaptionRequest α) →
    Option (State α × List (CaptionRequest α))
  | cfg, turns, s, requests =>
    if s.pending = [] then some (s, requests)
    else
      match turns with
      | 0 => none
      | turns + 1 =>
        match feedPass (cfg 0) s with
        | .done s' more => some (s', requests ++ more)
        | .again s' more => feedTurns (fun n => cfg (n + 1)) turns s' (requests ++ more)

def feedWithin (cfg : Nat → Config α) (turns : Nat) (s : State α) (block : List α) :
    Option (State α × List (CaptionRequest α)) :=
  if block.isEmpty then some (s, [])
  else
    feedTurns cfg turns
      { s with
        pending := s.pending ++ block
        totalSamples := s.totalSamples + block.length } []

/-- There is a turn for each sample of the buffer, and a turn takes one at least. -/
theorem feedTurns_isSome (cfg : Nat → Config α) {turns : Nat} {s : State α}
    (requests : List (CaptionRequest α)) (hturns : s.pending.length ≤ turns) :
    (feedTurns cfg turns s requests).isSome := by
  induction turns generalizing cfg s requests with
  | zero =>
    have hnil : s.pending = [] := List.eq_nil_of_length_eq_zero (Nat.le_zero.mp hturns)
    rw [feedTurns, if_pos hnil]
    rfl
  | succ turns ih =>
    rw [feedTurns]
    split
    · rfl
    · next hne =>
      cases hpass : feedPass (cfg 0) s with
      | done s' more => rfl
      | again s' more =>
        have hlt := feedPass_again_lt hne hpass
        apply ih
        omega

/-- Detectors that do not change make it the loop above. -/
theorem feedTurns_const (cfg : Config α) {turns : Nat} {s : State α}
    (requests : List (CaptionRequest α)) (hturns : s.pending.length ≤ turns) :
    feedTurns (fun _ => cfg) turns s requests =
      some ((feedLoop cfg s).1, requests ++ (feedLoop cfg s).2) := by
  induction turns generalizing s requests with
  | zero =>
    have hnil : s.pending = [] := List.eq_nil_of_length_eq_zero (Nat.le_zero.mp hturns)
    rw [feedTurns, if_pos hnil, feedLoop_nil cfg hnil, List.append_nil]
  | succ turns ih =>
    rw [feedTurns]
    split
    · next hnil => rw [feedLoop_nil cfg hnil, List.append_nil]
    · next hne =>
      cases hpass : feedPass cfg s with
      | done s' more => rw [feedLoop_done hne hpass]
      | again s' more =>
        have hlt := feedPass_again_lt hne hpass
        dsimp only
        rw [ih (requests ++ more) (by omega), feedLoop_again hne hpass, List.append_assoc]

/-- **The loop of `feed` ends**, for every state and block: a turn that goes on leaves a
    shorter buffer, so there are no more turns than samples in it, also where the detectors
    answer otherwise each time. Where they do not, it returns what `feed` does. -/
theorem feed_terminates (cfg : Nat → Config α) (s : State α) (block : List α) :
    (∀ n t t' requests, t.pending ≠ [] → feedPass (cfg n) t = .again t' requests →
      t'.pending.length < t.pending.length) ∧
    (feedWithin cfg (s.pending.length + block.length) s block).isSome ∧
    ∀ c, feedWithin (fun _ => c) (s.pending.length + block.length) s block =
      some (feed c s block) := by
  refine ⟨fun n t t' requests => feedPass_again_lt, ?_, ?_⟩
  · unfold feedWithin
    split
    · rfl
    · apply feedTurns_isSome
      exact Nat.le_of_eq List.length_append
  · intro c
    unfold feedWithin feed
    split
    · rfl
    · apply feedTurns_const
      exact Nat.le_of_eq List.length_append

/-- Every block of a session, in order. -/
def feedAll (cfg : Config α) : State α → List (List α) → State α × List (CaptionRequest α)
  | s, [] => (s, [])
  | s, block :: blocks =>
    let (s', requests) := feed cfg s block
    let (s'', more) := feedAll cfg s' blocks
    (s'', requests ++ more)

end Segmenter

end LocalMeetingStt
