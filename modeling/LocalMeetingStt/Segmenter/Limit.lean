import LocalMeetingStt.Segmenter.Model

/-!
# The limit on an utterance (`SpeechSegmenter.feed`, `run_streaming`)

An utterance is cut when the buffer has reached `max_utterance_samples`, and the limit is
looked at when audio arrives. As long as audio arrives in capture blocks, a final is at
most one block longer than the limit. But `run_streaming` concatenates whatever has
queued up while it was recognizing, and then the buffer passes the limit by as much as
has queued up.

What a feed may bring depends on what the buffer can hold before it. `carried` is that
bound, as a function of the lengths of the feeds alone, and `finals_bounded_iff` says
that it is exact: the limit holds for every detector if and only if no feed, on top of
what is carried, passes it by more than a block.
-/

namespace LocalMeetingStt
namespace Segmenter

open Slices

variable {α : Type*}

/-! ## What the buffer can hold -/

/-- The most a feed can leave of a buffer of `n` samples: it waits below the limit, or keeps
    the pre-roll. -/
def carried (max : Int) (n : Nat) : Nat := min n (Max.max (max - 1).toNat preRollSamples)

/-- No feed passes the limit by more than a block of `block` samples, with `held` samples in
    the buffer before the first. -/
def FeedsFit (max : Int) (block : Nat) : Nat → List Nat → Prop
  | _, [] => True
  | held, n :: rest =>
    (n = 0 ∨ ((held + n : Nat) : Int) ≤ max + block) ∧
      FeedsFit max block (carried max (held + n)) rest

/-- The requests of a session: what its feeds and the closing `finish` answer. -/
def session (cfg : Config α) (feeds : List (List α)) : List (CaptionRequest α) :=
  (feedAll cfg .new feeds).2 ++ (finish cfg (feedAll cfg .new feeds).1).2

/-- The contract: a final is at most a block longer than the limit. -/
def FinalsBounded (max : Int) (block : Nat) (requests : List (CaptionRequest α)) : Prop :=
  ∀ request ∈ requests, request.kind = .final → (request.audio.length : Int) ≤ max + block

/-! ## Feeds that fit -/

theorem carried_le (max : Int) (n : Nat) : carried max n ≤ n := Nat.min_le_left _ _

theorem carried_mono (max : Int) {n m : Nat} (h : n ≤ m) : carried max n ≤ carried max m := by
  unfold carried
  omega

/-- A buffer below the limit may be kept whole. -/
theorem le_carried_of_lt {max : Int} {n : Nat} (h : (n : Int) < max) : n ≤ carried max n := by
  unfold carried
  omega

theorem FinalsBounded.append {max : Int} {block : Nat} {xs ys : List (CaptionRequest α)}
    (hx : FinalsBounded max block xs) (hy : FinalsBounded max block ys) :
    FinalsBounded max block (xs ++ ys) := by
  intro request hmem
  rcases List.mem_append.mp hmem with hmem | hmem
  · exact hx request hmem
  · exact hy request hmem

/-- Everything a pass answers is a part of the buffer, and a pass that returns leaves no more
    than can be carried. -/
theorem feedPass_bounds (cfg : Config α) (s : State α) :
    match feedPass cfg s with
    | .done s' requests =>
      s'.pending.length ≤ carried cfg.maxUtteranceSamples s.pending.length ∧
        ∀ request ∈ requests, request.audio.length ≤ s.pending.length
    | .again s' requests =>
      s'.pending.length ≤ s.pending.length ∧
        ∀ request ∈ requests, request.audio.length ≤ s.pending.length := by
  have hout := feedPass_outcome cfg s
  generalize feedPass cfg s = pass at hout
  cases hout with
  | silence k hspans hk =>
    refine ⟨?_, ?_⟩
    · show (s.pending.drop k).length ≤ _
      rw [List.length_drop]
      unfold carried
      omega
    · intro request hmem
      cases hmem
  | utterance first rest hspans _ =>
    refine ⟨(List.drop_sublist _ _).length_le, ?_⟩
    intro request hmem
    rw [List.mem_singleton.mp hmem]
    show (slice s.pending (first.start, first.stop)).length ≤ _
    rw [slice_length (Vad.first_mem hspans).2]
    have := (Vad.first_mem hspans).2
    omega
  | limit first hspans _ =>
    refine ⟨Nat.zero_le _, ?_⟩
    intro request hmem
    rw [List.mem_singleton.mp hmem]
    show (slice s.pending (first.start, s.pending.length)).length ≤ _
    rw [slice_length (Nat.le_refl _)]
    omega
  | shortPause first cut hspans _ _ hcut =>
    refine ⟨(List.drop_sublist _ _).length_le, ?_⟩
    intro request hmem
    rw [List.mem_singleton.mp hmem]
    have hend := Nat.le_of_lt (shortPauseCut_bounds hcut).2
    show (slice s.pending (first.start, cut)).length ≤ _
    rw [slice_length hend]
    omega
  | preview first hspans hshort _ _ =>
    refine ⟨le_carried_of_lt hshort, ?_⟩
    intro request hmem
    rw [List.mem_singleton.mp hmem]
    exact (List.drop_sublist _ _).length_le
  | wait first hspans hshort =>
    refine ⟨le_carried_of_lt hshort, ?_⟩
    intro request hmem
    cases hmem

/-- The same of the whole loop, by induction on the buffer. -/
theorem feedLoop_bounds (cfg : Config α) (s : State α) :
    (feedLoop cfg s).1.pending.length ≤ carried cfg.maxUtteranceSamples s.pending.length ∧
      ∀ request ∈ (feedLoop cfg s).2, request.audio.length ≤ s.pending.length := by
  induction hlen : s.pending.length using Nat.strongRecOn generalizing s with
  | ind n ih =>
    subst hlen
    by_cases hempty : s.pending = []
    · rw [feedLoop_nil cfg hempty, hempty]
      refine ⟨Nat.zero_le _, ?_⟩
      intro request hmem
      cases hmem
    · have hpassed := feedPass_bounds cfg s
      cases hpass : feedPass cfg s with
      | done s' requests =>
        rw [hpass] at hpassed
        rw [feedLoop_done hempty hpass]
        exact hpassed
      | again s' requests =>
        rw [hpass] at hpassed
        obtain ⟨hle, hrequests⟩ := hpassed
        have hlater := ih _ (feedPass_again_lt hempty hpass) s' rfl
        rw [feedLoop_again hempty hpass]
        refine ⟨Nat.le_trans hlater.1 (carried_mono _ hle), ?_⟩
        intro request hmem
        rcases List.mem_append.mp hmem with hmem | hmem
        · exact hrequests request hmem
        · exact Nat.le_trans (hlater.2 request hmem) hle

/-- The buffer holds no more than is carried, and no more than a final may have. -/
structure Held (max : Int) (block held : Nat) (s : State α) : Prop where
  le : s.pending.length ≤ held
  fits : s.pending = [] ∨ (s.pending.length : Int) ≤ max + block

/-- One feed that fits. -/
theorem feed_fits {cfg : Config α} {block held : Nat} {s : State α} {audio : List α}
    (h : Held cfg.maxUtteranceSamples block held s)
    (hfits : audio.length = 0 ∨ ((held + audio.length : Nat) : Int) ≤
      cfg.maxUtteranceSamples + block) :
    FinalsBounded cfg.maxUtteranceSamples block (feed cfg s audio).2 ∧
      (held ≤ carried cfg.maxUtteranceSamples held ∨ audio.length ≠ 0 →
        Held cfg.maxUtteranceSamples block
          (carried cfg.maxUtteranceSamples (held + audio.length)) (feed cfg s audio).1) := by
  cases audio with
  | nil =>
    refine ⟨?_, ?_⟩
    · intro request hmem
      cases hmem
    · intro hcap
      have hheld := hcap.resolve_right (fun h => h rfl)
      exact ⟨Nat.le_trans h.le hheld, h.fits⟩
  | cons x xs =>
    have hfits := hfits.resolve_left (Nat.succ_ne_zero _)
    have hle := h.le
    obtain ⟨hkept, hrequests⟩ := feedLoop_bounds cfg
      { s with
        pending := s.pending ++ x :: xs
        totalSamples := s.totalSamples + (x :: xs).length }
    simp only [List.length_append] at hkept hrequests
    refine ⟨?_, fun _ => ⟨?_, ?_⟩⟩
    · intro request hmem _
      have := hrequests request hmem
      omega
    · exact Nat.le_trans hkept (carried_mono _ (by omega))
    · right
      have := Nat.le_trans hkept (carried_le _ _)
      show ((feedLoop cfg _).1.pending.length : Int) ≤ _
      omega

theorem carried_idem (max : Int) (n : Nat) : carried max n ≤ carried max (carried max n) := by
  unfold carried
  omega

/-- A run of feeds that fit, by induction on the feeds. -/
theorem feedAll_fits {cfg : Config α} {block : Nat} (feeds : List (List α)) {held : Nat}
    {s : State α} (h : Held cfg.maxUtteranceSamples block held s)
    (hcap : held ≤ carried cfg.maxUtteranceSamples held)
    (hfits : FeedsFit cfg.maxUtteranceSamples block held (feeds.map List.length)) :
    FinalsBounded cfg.maxUtteranceSamples block (feedAll cfg s feeds).2 ∧
      ∃ held, Held cfg.maxUtteranceSamples block held (feedAll cfg s feeds).1 := by
  induction feeds generalizing s held with
  | nil =>
    refine ⟨?_, held, h⟩
    intro request hmem
    cases hmem
  | cons audio feeds ih =>
    obtain ⟨hnow, hlater⟩ := hfits
    obtain ⟨hbounded, hheld⟩ := feed_fits h hnow
    obtain ⟨hrest, hlast⟩ := ih (hheld (Or.inl hcap)) (carried_idem _ _) hlater
    exact ⟨hbounded.append hrest, hlast⟩

theorem finish_bounded {cfg : Config α} {block held : Nat} {s : State α}
    (h : Held cfg.maxUtteranceSamples block held s) :
    FinalsBounded cfg.maxUtteranceSamples block (finish cfg s).2 := by
  intro request hmem _
  unfold finish at hmem
  obtain ⟨span, hspan, rfl⟩ := List.mem_map.mp hmem
  cases hpending : s.pending.isEmpty with
  | true =>
    rw [hpending, if_pos rfl] at hspan
    cases hspan
  | false =>
    rw [hpending, if_neg Bool.false_ne_true] at hspan
    have hin := (cfg.vad.wellPlaced s.pending).1 span hspan
    have hfits := h.fits.resolve_left (List.isEmpty_eq_false_iff.mp hpending)
    show ((slice s.pending (span.start, span.stop)).length : Int) ≤ _
    rw [slice_length hin.2]
    omega

theorem session_fits (cfg : Config α) {block : Nat} {feeds : List (List α)}
    (hfits : FeedsFit cfg.maxUtteranceSamples block 0 (feeds.map List.length)) :
    FinalsBounded cfg.maxUtteranceSamples block (session cfg feeds) := by
  have hnew : Held cfg.maxUtteranceSamples block 0 (State.new : State α) :=
    ⟨Nat.le_refl 0, Or.inl rfl⟩
  obtain ⟨hfeeds, held, hheld⟩ := feedAll_fits feeds hnew (Nat.zero_le _) hfits
  exact hfeeds.append (finish_bounded hheld)

/-! ## A detector that makes the most of a backlog -/

/-- What it answers for `n` samples. It keeps the buffer as full as the limit allows, and once
    the buffer passes the limit by more than a block it hears one utterance in all of it. -/
def fullestSpans (max : Int) (block n : Nat) : List Span :=
  if n = 0 then []
  else if max + block < n then [⟨0, n⟩]
  else if max ≤ preRollSamples then []
  else if n < max then [⟨0, n⟩]
  else [⟨0, n - (max - 1).toNat⟩, ⟨n - (max - 1).toNat, n⟩]

theorem wellPlaced_whole {n : Nat} (hn : n ≠ 0) : WellPlaced n [⟨0, n⟩] := by
  refine ⟨?_, List.pairwise_singleton _ _⟩
  intro span hspan
  rw [List.mem_singleton.mp hspan]
  exact ⟨Nat.pos_of_ne_zero hn, Nat.le_refl n⟩

theorem wellPlaced_nil (n : Nat) : WellPlaced n [] :=
  ⟨fun _ h => absurd h List.not_mem_nil, .nil⟩

theorem wellPlaced_fullest (max : Int) (block n : Nat) :
    WellPlaced n (fullestSpans max block n) := by
  unfold fullestSpans
  split_ifs with hn hover hroll hbelow
  · exact wellPlaced_nil n
  · exact wellPlaced_whole hn
  · exact wellPlaced_nil n
  · exact wellPlaced_whole hn
  · unfold preRollSamples at hroll
    refine ⟨?_, ?_⟩
    · intro span hspan
      rcases List.mem_pair.mp hspan with rfl | rfl
      · exact ⟨by dsimp only; omega, Nat.sub_le _ _⟩
      · exact ⟨by dsimp only; omega, Nat.le_refl n⟩
    · exact List.pairwise_pair.mpr (Nat.le_refl _)

/-- The detector in a segmenter with this limit and no previews at all. -/
def fullest (max : Int) (block : Nat) : Config α where
  vad :=
    { spans := fun audio => fullestSpans max block audio.length
      wellPlaced := fun audio => wellPlaced_fullest max block audio.length }
  shortPauseVad := none
  splitAfterSamples := 0
  previewIntervalSamples := 0
  maxUtteranceSamples := max
  minPreviewSamples := 0

/-- A span that fills the buffer is not over. -/
theorem not_complete_of_whole {cfg : Config α} {s : State α} {first : Span} {rest : List Span}
    (hwhole : cfg.vad.spans s.pending = [⟨0, s.pending.length⟩])
    (hspans : cfg.vad.spans s.pending = first :: rest) :
    ¬(rest ≠ [] ∨ first.stop + endMarginSamples < s.pending.length) := by
  rw [hwhole] at hspans
  obtain ⟨rfl, rfl⟩ := List.cons_eq_cons.mp hspans
  rintro (hrest | hearly)
  · exact hrest rfl
  · dsimp only at hearly
    omega

/-- A buffer below the limit is kept whole. -/
theorem feedLoop_fullest_below {max : Int} {block : Nat} {s : State α} (hne : s.pending ≠ [])
    (hbelow : (s.pending.length : Int) < max) (hroll : preRollSamples < max) :
    (feedLoop (fullest max block) s).1.pending.length = s.pending.length := by
  have hspans : (fullest max block).vad.spans s.pending = [⟨0, s.pending.length⟩] := by
    have hn : s.pending.length ≠ 0 := fun h => hne (List.eq_nil_of_length_eq_zero h)
    show fullestSpans max block s.pending.length = _
    unfold fullestSpans
    rw [if_neg hn, if_neg (by omega), if_neg (by omega), if_pos hbelow]
  have hout := feedPass_outcome (fullest max block) s
  generalize hpass : feedPass (fullest max block) s = pass at hout
  cases hout with
  | silence k hother => rw [hspans] at hother; cases hother
  | utterance first rest hother hcomplete =>
    exact absurd hcomplete (not_complete_of_whole hspans hother)
  | limit first hother hlong =>
    have hlong : max ≤ s.pending.length := hlong
    omega
  | shortPause first cut _ _ _ hcut => cases hcut
  | preview first _ _ _ _ => rw [feedLoop_done hne hpass]
  | wait first _ _ => rw [feedLoop_done hne hpass]

/-- With a limit below the pre-roll, what fits is silence. -/
theorem feedLoop_fullest_silence {max : Int} {block : Nat} {s : State α} (hne : s.pending ≠ [])
    (hfits : (s.pending.length : Int) ≤ max + block) (hroll : max ≤ preRollSamples) :
    (feedLoop (fullest max block) s).1.pending.length = carried max s.pending.length := by
  have hn : s.pending.length ≠ 0 := fun h => hne (List.eq_nil_of_length_eq_zero h)
  have hspans : (fullest max block).vad.spans s.pending = [] := by
    show fullestSpans max block s.pending.length = _
    unfold fullestSpans
    rw [if_neg hn, if_neg (by omega), if_pos hroll]
  have hpass : feedPass (fullest max block) s =
      .done { s with pending := s.pending.drop (s.pending.length - preRollSamples) } [] := by
    unfold feedPass
    rw [hspans]
  rw [feedLoop_done hne hpass]
  simp only [List.length_drop]
  unfold carried
  omega

/-- A buffer that has reached the limit and fits is cut so that what is kept is just below
    the limit. -/
theorem feedLoop_fullest_cut {max : Int} {block : Nat} {s : State α} (hne : s.pending ≠ [])
    (hfits : (s.pending.length : Int) ≤ max + block) (hroll : preRollSamples < max)
    (hlong : ¬(s.pending.length : Int) < max) :
    (feedLoop (fullest max block) s).1.pending.length = (max - 1).toNat := by
  have hn : s.pending.length ≠ 0 := fun h => hne (List.eq_nil_of_length_eq_zero h)
  -- The first span is over, and the second is what is kept.
  have hspans : (fullest max block).vad.spans s.pending =
      [⟨0, s.pending.length - (max - 1).toNat⟩,
        ⟨s.pending.length - (max - 1).toNat, s.pending.length⟩] := by
    show fullestSpans max block s.pending.length = _
    unfold fullestSpans
    rw [if_neg hn, if_neg (by omega), if_neg (by omega), if_neg hlong]
  have hpass : feedPass (fullest max block) s =
      .again
        { s with
          pending := s.pending.drop (s.pending.length - (max - 1).toNat)
          lastPreviewSamples := s.totalSamples }
        [⟨.final, slice s.pending (0, s.pending.length - (max - 1).toNat)⟩] := by
    unfold feedPass
    rw [hspans]
    simp
  have hlength : (s.pending.drop (s.pending.length - (max - 1).toNat)).length =
      (max - 1).toNat := by
    rw [List.length_drop]
    omega
  have hkept : s.pending.drop (s.pending.length - (max - 1).toNat) ≠ [] := by
    intro hnil
    rw [hnil] at hlength
    unfold preRollSamples at hroll
    simp only [List.length_nil] at hlength
    omega
  have hbelow : ((s.pending.drop (s.pending.length - (max - 1).toNat)).length : Int) < max := by
    rw [hlength]
    omega
  rw [feedLoop_again hne hpass, feedLoop_fullest_below hkept hbelow hroll]
  exact hlength

/-- A buffer that fits is left as full as can be carried. -/
theorem feedLoop_fullest_fits {max : Int} {block : Nat} {s : State α} (hne : s.pending ≠ [])
    (hfits : (s.pending.length : Int) ≤ max + block) :
    (feedLoop (fullest max block) s).1.pending.length = carried max s.pending.length := by
  by_cases hroll : max ≤ preRollSamples
  · exact feedLoop_fullest_silence hne hfits hroll
  · rw [Int.not_le] at hroll
    by_cases hbelow : (s.pending.length : Int) < max
    · rw [feedLoop_fullest_below hne hbelow hroll]
      unfold carried
      omega
    · rw [feedLoop_fullest_cut hne hfits hroll hbelow]
      unfold carried
      unfold preRollSamples at hroll ⊢
      omega

/-- A backlog that does not fit becomes one final. -/
theorem feedLoop_fullest_over {max : Int} {block : Nat} {s : State α} (hne : s.pending ≠ [])
    (hover : max + block < s.pending.length) :
    ⟨.final, s.pending⟩ ∈ (feedLoop (fullest max block) s).2 := by
  have hn : s.pending.length ≠ 0 := fun h => hne (List.eq_nil_of_length_eq_zero h)
  have hspans : (fullest max block).vad.spans s.pending = [⟨0, s.pending.length⟩] := by
    show fullestSpans max block s.pending.length = _
    unfold fullestSpans
    rw [if_neg hn, if_pos hover]
  have hout := feedPass_outcome (fullest max block) s
  generalize hpass : feedPass (fullest max block) s = pass at hout
  have hlong : max ≤ s.pending.length := by omega
  cases hout with
  | silence k hother => rw [hspans] at hother; cases hother
  | utterance first rest hother hcomplete =>
    exact absurd hcomplete (not_complete_of_whole hspans hother)
  | limit first hother _ =>
    rw [hspans] at hother
    obtain ⟨rfl, -⟩ := List.cons_eq_cons.mp hother
    rw [feedLoop_done hne hpass, slice_all_from]
    exact List.mem_singleton.mpr rfl
  | shortPause first cut _ _ _ hcut => cases hcut
  | preview first _ hshort _ _ => exact absurd hlong (Int.not_le.mpr hshort)
  | wait first _ hshort => exact absurd hlong (Int.not_le.mpr hshort)

/-- The first feed that does not fit yields a final that is too long. -/
theorem feedAll_fullest_over {max : Int} {block : Nat} (feeds : List (List α)) {s : State α}
    (hcap : carried max s.pending.length = s.pending.length)
    (hover : ¬FeedsFit max block s.pending.length (feeds.map List.length)) :
    ∃ request ∈ (feedAll (fullest max block) s feeds).2,
      request.kind = .final ∧ max + block < request.audio.length := by
  induction feeds generalizing s with
  | nil => exact absurd trivial hover
  | cons audio feeds ih =>
    cases audio with
    | nil =>
      have hlater : ¬FeedsFit max block s.pending.length (feeds.map List.length) := by
        intro hfit
        apply hover
        refine ⟨Or.inl rfl, ?_⟩
        show FeedsFit max block (carried max s.pending.length) _
        rw [hcap]
        exact hfit
      obtain ⟨request, hmem, hrequest⟩ := ih hcap hlater
      exact ⟨request, hmem, hrequest⟩
    | cons x xs =>
      let fed : State α :=
        { s with
          pending := s.pending ++ x :: xs
          totalSamples := s.totalSamples + (x :: xs).length }
      have hne : fed.pending ≠ [] := fun h => by simp [fed] at h
      have hlength : fed.pending.length = s.pending.length + (x :: xs).length :=
        List.length_append
      by_cases hfits : (fed.pending.length : Int) ≤ max + block
      · have hleft := feedLoop_fullest_fits hne hfits
        have hlater : ¬FeedsFit max block (feedLoop (fullest max block) fed).1.pending.length
            (feeds.map List.length) := by
          intro hfit
          apply hover
          refine ⟨Or.inr ?_, ?_⟩
          · rw [hlength] at hfits
            exact hfits
          · rw [hleft, hlength] at hfit
            exact hfit
        have hcap : carried max (feedLoop (fullest max block) fed).1.pending.length =
            (feedLoop (fullest max block) fed).1.pending.length := by
          rw [hleft]
          exact Nat.le_antisymm (carried_le _ _) (carried_idem _ _)
        obtain ⟨request, hmem, hrequest⟩ := ih hcap hlater
        exact ⟨request, List.mem_append_right _ hmem, hrequest⟩
      · refine ⟨⟨.final, fed.pending⟩, ?_, rfl, Int.not_le.mp hfits⟩
        exact List.mem_append_left _ (feedLoop_fullest_over hne (Int.not_le.mp hfits))

/-! ## The limit -/

/-- **When the limit on an utterance holds.** Whatever the detectors hear, no final of a
    session is longer than the limit and a block if and only if no feed, together with
    what the buffer can hold before it, is. -/
theorem finals_bounded_iff (max : Int) (block : Nat) (feeds : List (List α)) :
    (∀ cfg : Config α, cfg.maxUtteranceSamples = max →
        FinalsBounded max block (session cfg feeds)) ↔
      FeedsFit max block 0 (feeds.map List.length) := by
  refine ⟨?_, ?_⟩
  · intro hbounded
    by_contra hover
    obtain ⟨request, hmem, hkind, hlong⟩ :=
      feedAll_fullest_over (s := (State.new : State α)) feeds (Nat.zero_min _) hover
    have := hbounded (fullest max block) rfl request (List.mem_append_left _ hmem) hkind
    omega
  · rintro hfits cfg rfl
    exact session_fits cfg hfits

/-- When every block is fed alone, the limit holds: it is the backlog that breaks it. -/
theorem feedsFit_of_blocks {max : Int} {block : Nat} (hroll : preRollSamples ≤ max)
    {feeds : List Nat} (hblocks : ∀ n ∈ feeds, n ≤ block) (held : Nat) (hheld : held ≤ max) :
    FeedsFit max block held feeds := by
  induction feeds generalizing held with
  | nil => trivial
  | cons n feeds ih =>
    have hn := hblocks n List.mem_cons_self
    refine ⟨Or.inr (by omega), ?_⟩
    apply ih fun m hm => hblocks m (List.mem_cons_of_mem _ hm)
    unfold carried
    omega

/-- `round(20.0 * sample_rate)`, and a capture block of 0.1 s. -/
def twentySeconds : Int := 320000

def captureBlock : List Unit := List.replicate 1600 ()

/-- 25 s of blocks that queued up while an utterance was recognized: one feed, and a final
    of 25 s. -/
theorem finals_not_bounded :
    ¬∀ (cfg : Config Unit) (backlogs : List (List (List Unit))),
      cfg.maxUtteranceSamples = twentySeconds →
      (∀ blocks ∈ backlogs, ∀ block ∈ blocks, block.length = captureBlock.length) →
      FinalsBounded twentySeconds captureBlock.length
        (session cfg (backlogs.map List.flatten)) := by
  intro hbounded
  let backlogs : List (List (List Unit)) := [List.replicate 250 captureBlock]
  have hblock : captureBlock.length = 1600 := List.length_replicate
  have hlength : (backlogs.map List.flatten).map List.length = [400000] := by
    show [(List.replicate 250 captureBlock).flatten.length] = _
    rw [List.length_flatten, List.map_replicate, List.sum_replicate_nat, hblock]
  have hover : ¬FeedsFit twentySeconds captureBlock.length 0
      ((backlogs.map List.flatten).map List.length) := by
    rw [hlength, hblock]
    intro hfit
    exact absurd hfit.1 (by decide)
  obtain ⟨request, hmem, hkind, hlong⟩ :=
    feedAll_fullest_over (s := (State.new : State Unit)) (backlogs.map List.flatten)
      (Nat.zero_min _) hover
  have hblocks : ∀ blocks ∈ backlogs, ∀ block ∈ blocks, block.length = captureBlock.length := by
    intro blocks hblocks block hblock
    rw [List.mem_singleton.mp hblocks] at hblock
    rw [List.eq_of_mem_replicate hblock]
  have := hbounded (fullest twentySeconds captureBlock.length) backlogs rfl hblocks request
    (List.mem_append_left _ hmem) hkind
  omega

end Segmenter
end LocalMeetingStt
