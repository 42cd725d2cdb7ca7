import LocalMeetingStt.Segmenter.Accounting

/-!
# When previews are made (`SpeechSegmenter.feed`)

The counter `last_preview_samples` is written at four exits of the loop and read at one. What
it holds is where the stream stood when something was last asked for (`LoopMakes.last`), and
so a preview waits for its interval behind finals and previews alike.

A final puts the counter to where the stream stands, and no sample arrives within one feed:
that alone keeps a preview from following a final of its own feed. It takes an interval of
at least one sample. The constructor refuses an interval that is not positive, but it counts
seconds, and what it keeps is rounded to samples.
-/

namespace LocalMeetingStt
namespace Segmenter

open Slices

variable {α : Type*}

/-! ## One feed -/

/-- What the loop of `feed` makes of `s`: finals, and at most one preview after them, of the
    buffer that it leaves. -/
structure LoopMakes (cfg : Config α) (s s' : State α) (requests : List (CaptionRequest α)) :
    Prop where
  total : s'.totalSamples = s.totalSamples
  last : s'.lastPreviewSamples = if requests = [] then s.lastPreviewSamples else s.totalSamples
  requests : (∀ request ∈ requests, request.kind = .final) ∨
    ∃ finals first, requests = finals ++ [⟨.preview, s'.pending.drop first.start⟩] ∧
      (∀ request ∈ finals, request.kind = .final) ∧ cfg.vad.spans s'.pending = [first] ∧
      cfg.minPreviewSamples ≤ (s'.pending.length : Int) - first.start ∧
      cfg.previewIntervalSamples ≤ (s.totalSamples : Int) -
        (if finals = [] then s.lastPreviewSamples else s.totalSamples : Nat)

theorem LoopMakes.nothing {cfg : Config α} {s s' : State α}
    (htotal : s'.totalSamples = s.totalSamples)
    (hlast : s'.lastPreviewSamples = s.lastPreviewSamples) : LoopMakes cfg s s' [] :=
  ⟨htotal, hlast, .inl fun _ h => absurd h List.not_mem_nil⟩

/-- A final, and then what the rest of the loop makes. -/
theorem LoopMakes.cons {cfg : Config α} {s s' s'' : State α} {audio : List α}
    {requests : List (CaptionRequest α)} (h : LoopMakes cfg s' s'' requests)
    (htotal : s'.totalSamples = s.totalSamples) (hlast : s'.lastPreviewSamples = s.totalSamples) :
    LoopMakes cfg s s'' (⟨.final, audio⟩ :: requests) where
  total := h.total.trans htotal
  last := by
    rw [h.last, hlast, htotal, ite_self, if_neg (List.cons_ne_nil _ _)]
  requests := by
    rcases h.requests with hfinals | ⟨finals, first, rfl, hfinals, hspans, hlong, hdue⟩
    · exact .inl (List.forall_mem_cons.mpr ⟨rfl, hfinals⟩)
    · refine .inr ⟨⟨.final, audio⟩ :: finals, first, rfl,
        List.forall_mem_cons.mpr ⟨rfl, hfinals⟩, hspans, hlong, ?_⟩
      rw [if_neg (List.cons_ne_nil _ _)]
      rwa [hlast, htotal, ite_self] at hdue

/-- By induction on the buffer. -/
theorem feedLoop_makes (cfg : Config α) (s : State α) :
    LoopMakes cfg s (feedLoop cfg s).1 (feedLoop cfg s).2 := by
  induction hlen : s.pending.length using Nat.strongRecOn generalizing s with
  | ind n ih =>
    subst hlen
    by_cases hempty : s.pending = []
    · rw [feedLoop_nil cfg hempty]
      exact .nothing rfl rfl
    · have hout := feedPass_outcome cfg s
      have hlater := fun s' requests (h : feedPass cfg s = .again s' requests) =>
        ih _ (feedPass_again_lt hempty h) s' rfl
      generalize hpass : feedPass cfg s = pass at hout
      cases hout with
      | silence =>
        rw [feedLoop_done hempty hpass]
        exact .nothing rfl rfl
      | utterance =>
        rw [feedLoop_again hempty hpass]
        exact (hlater _ _ hpass).cons rfl rfl
      | limit =>
        rw [feedLoop_done hempty hpass]
        have hrest : LoopMakes cfg ⟨[], s.totalSamples, s.totalSamples⟩
            ⟨[], s.totalSamples, s.totalSamples⟩ ([] : List (CaptionRequest α)) := .nothing rfl rfl
        exact hrest.cons rfl rfl
      | shortPause =>
        rw [feedLoop_again hempty hpass]
        exact (hlater _ _ hpass).cons rfl rfl
      | preview first hspans _ hdue hlong =>
        rw [feedLoop_done hempty hpass]
        refine ⟨rfl, rfl, .inr ⟨[], first, rfl, fun _ h => absurd h List.not_mem_nil, hspans,
          hlong, hdue⟩⟩
      | wait =>
        rw [feedLoop_done hempty hpass]
        exact .nothing rfl rfl

def State.receive (s : State α) (block : List α) : State α :=
  { s with pending := s.pending ++ block, totalSamples := s.totalSamples + block.length }

theorem feed_makes (cfg : Config α) (s : State α) (block : List α) :
    LoopMakes cfg (s.receive block) (feed cfg s block).1 (feed cfg s block).2 := by
  unfold feed
  split_ifs with hempty
  · obtain rfl := List.isEmpty_iff.mp hempty
    exact .nothing rfl rfl
  · exact feedLoop_makes cfg (s.receive block)

/-- A preview is the last request of its feed, and the others are finals. -/
theorem LoopMakes.preview {cfg : Config α} {s s' : State α}
    {earlier later : List (CaptionRequest α)} {request : CaptionRequest α}
    (h : LoopMakes cfg s s' (earlier ++ request :: later)) (hkind : request.kind = .preview) :
    later = [] ∧ (∀ final ∈ earlier, final.kind = .final) ∧ ∃ first,
      request = ⟨.preview, s'.pending.drop first.start⟩ ∧ cfg.vad.spans s'.pending = [first] ∧
      cfg.minPreviewSamples ≤ (s'.pending.length : Int) - first.start ∧
      cfg.previewIntervalSamples ≤ (s.totalSamples : Int) -
        (if earlier = [] then s.lastPreviewSamples else s.totalSamples : Nat) := by
  have hnot : ∀ finals : List (CaptionRequest α), (∀ final ∈ finals, final.kind = .final) →
      request ∉ finals := by
    intro finals hfinals hmem
    rw [hfinals request hmem] at hkind
    cases hkind
  rcases h.requests with hfinals | ⟨finals, first, heq, hfinals, hspans, hlong, hdue⟩
  · exact absurd (List.mem_append_right _ List.mem_cons_self) (hnot _ hfinals)
  · rcases List.eq_nil_or_concat later with rfl | ⟨later, final, rfl⟩
    · obtain ⟨rfl, hlast⟩ := List.append_inj' heq rfl
      exact ⟨rfl, hfinals, first, List.singleton_inj.mp hlast, hspans, hlong, hdue⟩
    · -- It would be among the finals.
      rw [List.concat_eq_append, ← List.cons_append, ← List.append_assoc] at heq
      obtain ⟨rfl, -⟩ := List.append_inj' heq rfl
      exact absurd (List.mem_append_right _ List.mem_cons_self) (hnot _ hfinals)

/-! ## A session -/

theorem feedAll_append (cfg : Config α) (s : State α) (xs ys : List (List α)) :
    feedAll cfg s (xs ++ ys) =
      ((feedAll cfg (feedAll cfg s xs).1 ys).1,
        (feedAll cfg s xs).2 ++ (feedAll cfg (feedAll cfg s xs).1 ys).2) := by
  induction xs generalizing s with
  | nil => rfl
  | cons block xs ih =>
    simp only [List.cons_append, feedAll, ih, List.append_assoc]

/-- The counter only moves forward, up to where the stream stands. -/
structure Counts (s s' : State α) : Prop where
  le : s.lastPreviewSamples ≤ s'.lastPreviewSamples
  bounded : s'.lastPreviewSamples ≤ s'.totalSamples

theorem feed_counts (cfg : Config α) {s : State α} (hs : s.lastPreviewSamples ≤ s.totalSamples)
    (block : List α) : Counts s (feed cfg s block).1 := by
  have hmakes := feed_makes cfg s block
  have hlast := hmakes.last
  have htotal := hmakes.total
  simp only [State.receive] at hlast htotal
  split_ifs at hlast <;> constructor <;> omega

theorem feedAll_counts (cfg : Config α) {s : State α} (hs : s.lastPreviewSamples ≤ s.totalSamples)
    (blocks : List (List α)) : Counts s (feedAll cfg s blocks).1 := by
  induction blocks generalizing s with
  | nil => exact ⟨Nat.le_refl _, hs⟩
  | cons block blocks ih =>
    have hfed := feed_counts cfg hs block
    have hrest := ih hfed.bounded
    exact ⟨Nat.le_trans hfed.le hrest.le, hrest.bounded⟩

/-- The account of the feeds before, and of one more. -/
theorem feed_after (cfg : Config α) (before : List (List α)) (block : List α) :
    Follows before.flatten (feedAll cfg .new before).1 ∧
    Follows (before.flatten ++ block) (feed cfg (feedAll cfg .new before).1 block).1 ∧
    Accounts cfg.vad (before.flatten ++ block) 0
      (feed cfg (feedAll cfg .new before).1 block).1.base
      ((feedAll cfg .new before).2 ++ (feed cfg (feedAll cfg .new before).1 block).2)
      (feedAllCalls cfg .new before ++ feedCalls cfg (feedAll cfg .new before).1 block) := by
  have hnew : Follows ([] : List α) .new := ⟨rfl, List.suffix_refl _⟩
  obtain ⟨hfollows, haccounts⟩ := feedAll_accounts cfg before hnew
  rw [List.nil_append] at hfollows haccounts
  obtain ⟨hfollows', haccounts'⟩ := feed_accounts cfg hfollows block
  have hbound : (feedAll cfg .new before).1.base ≤ before.flatten.length := by
    have := hfollows.base_add
    omega
  exact ⟨hfollows, hfollows', (haccounts.extend hbound block).append haccounts'⟩

/-- After a feed that asked for something the counter never falls behind it again. -/
theorem le_lastPreview (cfg : Config α) {front : List (List α)} {last : List α}
    (h : (feed cfg (feedAll cfg .new front).1 last).2 ≠ []) (back : List (List α)) :
    (front.flatten ++ last).length ≤
      (feedAll cfg .new (front ++ last :: back)).1.lastPreviewSamples := by
  have hmakes := feed_makes cfg (feedAll cfg .new front).1 last
  have hstood := hmakes.last
  have htotal := (feed_after cfg front last).1.total
  simp only [State.receive, if_neg h, htotal] at hstood
  have hbounded := (feedAll_counts cfg (s := .new) (Nat.le_refl 0) front).bounded
  have hlater := feedAll_counts cfg (feed_counts cfg hbounded last).bounded back
  rw [feedAll_append]
  show _ ≤ (feedAll cfg (feed cfg (feedAll cfg .new front).1 last).1 back).1.lastPreviewSamples
  rw [List.length_append, ← hstood]
  exact hlater.le

/-- What a feed of `block`, after `before`, keeps to in a preview among its requests. -/
structure Promised (cfg : Config α) (before : List (List α)) (block : List α)
    (earlier : List (CaptionRequest α)) (request : CaptionRequest α) : Prop where
  behind_finals : ∀ final ∈ earlier, final.kind = .final
  long : cfg.minPreviewSamples ≤ request.audio.length
  /-- It is all that has been received from the start of the first span on, and no final so
      far goes beyond that start. -/
  unshared : ∃ first start, ∃ finals : List (Nat × Nat),
    (cfg.vad.spans (feed cfg (feedAll cfg .new before).1 block).1.pending).head? = some first ∧
    start = (feed cfg (feedAll cfg .new before).1 block).1.base + first.start ∧
    request.audio = (before.flatten ++ block).drop start ∧
    finalAudio ((feedAll cfg .new before).2 ++ earlier) =
      finals.map (slice (before.flatten ++ block)) ∧
    ∀ iv ∈ finals, iv.1 ≤ iv.2 ∧ iv.2 ≤ start
  /-- From any feed that asked for something. -/
  spaced : ∀ front last back, before = front ++ last :: back →
    (feed cfg (feedAll cfg .new front).1 last).2 ≠ [] →
    cfg.previewIntervalSamples ≤ (back.flatten ++ block).length

/-- **What a feed promises of its previews.** A preview is the last request of its feed, and
    the only one if the interval is at least one sample. -/
theorem previews_promised (cfg : Config α) (before : List (List α)) (block : List α)
    (earlier later : List (CaptionRequest α)) (request : CaptionRequest α)
    (h : (feed cfg (feedAll cfg .new before).1 block).2 = earlier ++ request :: later)
    (hkind : request.kind = .preview) :
    later = [] ∧ (0 < cfg.previewIntervalSamples → earlier = []) ∧
      Promised cfg before block earlier request := by
  have hmakes := feed_makes cfg (feedAll cfg .new before).1 block
  rw [h] at hmakes
  obtain ⟨rfl, hfinals, first, hrequest, hspans, hlong, hdue⟩ := hmakes.preview hkind
  obtain ⟨hbefore, hfollows, haccounts⟩ := feed_after cfg before block
  have htotal := hbefore.total
  refine ⟨rfl, fun hpositive => ?_, hfinals, ?_, ?_, ?_⟩
  · by_contra hne
    rw [if_neg hne] at hdue
    omega
  · rw [hrequest, List.length_drop]
    omega
  · refine ⟨first, _, (feedAllCalls cfg .new before ++
      feedCalls cfg (feedAll cfg .new before).1 block).flatMap Call.finals, ?_, rfl, ?_, ?_, ?_⟩
    · rw [hspans, List.head?_cons]
    · rw [hrequest, ← List.drop_drop, ← hfollows.pending]
    · rw [← haccounts.finals, h, ← List.append_assoc, finalAudio_append _ [request]]
      simp [finalAudio, hkind]
    · intro iv hiv
      have := haccounts.within.mem hiv
      omega
  · rintro front last back rfl hmade
    have hstood := le_lastPreview cfg hmade back
    simp only [List.flatten_append, List.flatten_cons, List.length_append] at htotal hstood ⊢
    simp only [State.receive] at hdue
    split_ifs at hdue <;> omega

/-- A detector that hears every sample of its own. -/
def eachSample : Vad Unit where
  spans audio := (List.range audio.length).map fun i => ⟨i, i + 1⟩
  wellPlaced audio := by
    refine ⟨fun span hspan => ?_, ?_⟩
    · obtain ⟨i, hi, rfl⟩ := List.mem_map.mp hspan
      exact ⟨Nat.lt_succ_self i, List.mem_range.mp hi⟩
    · rw [List.pairwise_map]
      exact List.pairwise_lt_range

/-- A preview interval of less than half a sample, and no least length. -/
def noInterval : Config Unit where
  vad := eachSample
  shortPauseVad := none
  splitAfterSamples := 128000
  previewIntervalSamples := 0
  maxUtteranceSamples := 320000
  minPreviewSamples := 0

/-- A detector that hears speech in all it is given. -/
def allSpeech : Vad Nat where
  spans audio := if audio = [] then [] else [⟨0, audio.length⟩]
  wellPlaced audio := by
    split_ifs with hempty
    · exact ⟨fun _ h => absurd h List.not_mem_nil, .nil⟩
    · refine ⟨fun span hspan => ?_, List.pairwise_singleton _ _⟩
      obtain rfl := List.mem_singleton.mp hspan
      exact ⟨List.length_pos_of_ne_nil hempty, Nat.le_refl _⟩

/-- Utterances of three samples, and a preview every two. -/
def threeAndTwo : Config Nat where
  vad := allSpeech
  shortPauseVad := none
  splitAfterSamples := 128000
  previewIntervalSamples := 2
  maxUtteranceSamples := 3
  minPreviewSamples := 1

theorem threeAndTwo_before :
    feedAll threeAndTwo .new [[1, 2, 3], [4]] = (⟨[4], 4, 3⟩, [⟨.final, [1, 2, 3]⟩]) := by
  have hfinal : feed threeAndTwo .new [1, 2, 3] = (⟨[], 3, 3⟩, [⟨.final, [1, 2, 3]⟩]) :=
    feedLoop_done (s := ⟨[1, 2, 3], 3, 0⟩) (List.cons_ne_nil _ _) rfl
  have hwait : feed threeAndTwo ⟨[], 3, 3⟩ [4] = (⟨[4], 4, 3⟩, []) :=
    feedLoop_done (s := ⟨[4], 4, 3⟩) (List.cons_ne_nil _ _) rfl
  simp [feedAll, hfinal, hwait]

/-- Behind the final of three samples a preview waits for two, and is of these. -/
theorem previews_promised_behind_final :
    (feedAll threeAndTwo .new [[1, 2, 3], [4]]).2 = [⟨.final, [1, 2, 3]⟩] ∧
      Promised threeAndTwo [[1, 2, 3], [4]] [5] [] ⟨.preview, [4, 5]⟩ := by
  have hfeed : (feed threeAndTwo ⟨[4], 4, 3⟩ [5]).2 = [⟨.preview, [4, 5]⟩] :=
    congrArg Prod.snd (feedLoop_done (s := ⟨[4, 5], 5, 3⟩) (List.cons_ne_nil _ _) rfl)
  have hbefore := threeAndTwo_before
  refine ⟨by rw [hbefore], ?_⟩
  exact (previews_promised threeAndTwo [[1, 2, 3], [4]] [5] [] [] ⟨.preview, [4, 5]⟩
    (by rw [hbefore]; exact hfeed) rfl).2.2

/-- Two samples, the first of them over: a final and a preview, in one feed. -/
theorem preview_after_final :
    ¬ ∀ (cfg : Config Unit) (before : List (List Unit)) (block : List Unit)
      (earlier later : List (CaptionRequest Unit)) (request : CaptionRequest Unit),
      (feed cfg (feedAll cfg .new before).1 block).2 = earlier ++ request :: later →
      request.kind = .preview → ∀ r ∈ earlier, r.kind ≠ .final := by
  intro h
  refine h noInterval [] [(), ()] [⟨.final, [()]⟩] [] ⟨.preview, [()]⟩ ?_ rfl _
    (List.mem_singleton_self _) rfl
  show (feedLoop noInterval ⟨[(), ()], 2, 0⟩).2 = _
  rw [feedLoop_again (List.cons_ne_nil _ _)
    (show feedPass noInterval _ = .again ⟨[()], 2, 2⟩ [⟨.final, [()]⟩] from rfl),
    feedLoop_done (List.cons_ne_nil _ _)
      (show feedPass noInterval _ = .done ⟨[()], 2, 2⟩ [⟨.preview, [()]⟩] from rfl)]

end Segmenter
end LocalMeetingStt
