import LocalMeetingStt.Segmenter.Model

/-!
# The utterances of a recording (`post_transcribe_sensevoice.py`)

`speech_segments` runs the detector over windows of a minute. An utterance that reaches
into the last half second of its window may go on in the next one, so the next window
starts with it and what the detector said of it is forgotten; unless it began the
window, for then the next window would be the same one.

One turn of the loop is a `Visit`, and `visit_sound` says everything a turn guarantees.
A turn that moves the cursor is the reason the loop ends; a window of no samples does
not move it, and there the loop never does (`speechSegments_stuck`).
-/

namespace LocalMeetingStt
namespace Post

open Slices

/-- `round(0.5 * SAMPLE_RATE)` -/
def marginSamples : Nat := 8000

/-- A detector none of whose spans is as long as a window without its margin. -/
structure WindowVad (α : Type*) (window : Nat) extends Vad α where
  short : ∀ audio, ∀ span ∈ spans audio, span.stop - span.start + marginSamples < window

variable {α : Type*}

/-! ## The loop -/

/-- The segment reaches into the margin of a window that is not the last one, and does not
    start it. -/
def RunsOn (length cursor stop : Nat) (segment : Nat × Nat) : Prop :=
  stop < length ∧ (segment.2 : Int) ≥ (stop : Int) - marginSamples ∧ segment.1 > cursor

instance (length cursor stop : Nat) (segment : Nat × Nat) :
    Decidable (RunsOn length cursor stop segment) :=
  inferInstanceAs (Decidable (_ ∧ _ ∧ _))

/-- The `for` over one window's segments: those that are appended, and the start of the one
    it breaks at. -/
def takeSegments (length cursor stop : Nat) : List (Nat × Nat) → List (Nat × Nat) × Option Nat
  | [] => ([], none)
  | segment :: segments =>
    if RunsOn length cursor stop segment then ([], some segment.1)
    else
      let (returned, next) := takeSegments length cursor stop segments
      (segment :: returned, next)

/-- One turn of the `while` loop. -/
structure Visit where
  cursor : Nat
  /-- `end` -/
  stop : Nat
  /-- What the detector reports, in samples of the recording. -/
  reported : List (Nat × Nat)
  /-- What is appended to `segments`. -/
  returned : List (Nat × Nat)
  /-- `next_cursor` -/
  next : Nat
deriving DecidableEq, Repr

/-- The samples a turn is done with. -/
def Visit.range (v : Visit) : Nat × Nat := (v.cursor, v.next)

def visit (vad : Vad α) (window : Nat) (audio : List α) (cursor : Nat) : Visit :=
  let stop := min audio.length (cursor + window)
  let reported := (vad.spans (slice audio (cursor, stop))).map fun span =>
    (cursor + span.start, cursor + span.stop)
  let (returned, next) := takeSegments audio.length cursor stop reported
  { cursor, stop, reported, returned, next := next.getD stop }

/-- The turns of the `while` loop from `cursor` on, of at most `fuel`; none if it wants
    more. -/
def visits (vad : Vad α) (window : Nat) (audio : List α) : Nat → Nat → Option (List Visit)
  | fuel, cursor =>
    if cursor < audio.length then
      match fuel with
      | 0 => none
      | fuel + 1 =>
        let v := visit vad window audio cursor
        (visits vad window audio fuel v.next).map (v :: ·)
    else some []

/-- The segments, in the order the turns append them. -/
def speechSegments (vad : Vad α) (window : Nat) (audio : List α) (fuel : Nat) :
    Option (List (Nat × Nat)) :=
  (visits vad window audio fuel 0).map fun turns => turns.flatMap Visit.returned

/-! ## One window -/

/-- The segments up to the first that runs on are appended, and the loop breaks there. -/
theorem takeSegments_eq (length cursor stop : Nat) (segments : List (Nat × Nat)) :
    ∃ deferred, segments = (takeSegments length cursor stop segments).1 ++ deferred ∧
      (takeSegments length cursor stop segments).2 = deferred.head?.map Prod.fst ∧
      (∀ segment ∈ (takeSegments length cursor stop segments).1,
        ¬RunsOn length cursor stop segment) ∧
      ∀ segment ∈ deferred.head?, RunsOn length cursor stop segment := by
  induction segments with
  | nil =>
    refine ⟨[], rfl, rfl, ?_, ?_⟩
    · intro s hs
      cases hs
    · intro s hs
      cases hs
  | cons segment segments ih =>
    by_cases hruns : RunsOn length cursor stop segment
    · have htake : takeSegments length cursor stop (segment :: segments) =
          ([], some segment.1) := if_pos hruns
      rw [htake]
      refine ⟨segment :: segments, rfl, rfl, ?_, ?_⟩
      · intro s hs
        cases hs
      · intro s hs
        rw [← Option.some.inj hs]
        exact hruns
    · obtain ⟨deferred, hsplit, hnext, hkept, hbreak⟩ := ih
      have htake : takeSegments length cursor stop (segment :: segments) =
          (segment :: (takeSegments length cursor stop segments).1,
            (takeSegments length cursor stop segments).2) := if_neg hruns
      rw [htake]
      refine ⟨deferred, congrArg (segment :: ·) hsplit, hnext, ?_, hbreak⟩
      intro s hs
      rcases List.mem_cons.mp hs with rfl | hs
      · exact hruns
      · exact hkept s hs

/-- What one turn of the loop guarantees. -/
structure Visit.Sound (length : Nat) (v : Visit) : Prop where
  advances : v.cursor < v.next
  inside : v.next ≤ length
  within : Within v.cursor v.returned v.next
  nonempty : ∀ segment ∈ v.returned, segment.1 < segment.2
  none_lost : ∀ segment ∈ v.reported, segment ∈ v.returned ∨ v.next ≤ segment.1
  clear : v.stop < length → ∀ segment ∈ v.returned, segment.2 + marginSamples < v.stop

section

variable {window : Nat} (vad : WindowVad α window) (audio : List α) {cursor : Nat}

theorem visit_stop (hwindow : 0 < window) (hcursor : cursor < audio.length) :
    cursor < (visit vad.toVad window audio cursor).stop ∧
      (visit vad.toVad window audio cursor).stop ≤ audio.length := by
  show cursor < min audio.length (cursor + window) ∧ min audio.length (cursor + window) ≤ _
  omega

/-- What the detector reports lies in the window, and no span of it fills the window. -/
theorem visit_reported (hwindow : 0 < window) (hcursor : cursor < audio.length) :
    Within cursor (visit vad.toVad window audio cursor).reported
        (visit vad.toVad window audio cursor).stop ∧
      ∀ segment ∈ (visit vad.toVad window audio cursor).reported,
        segment.1 < segment.2 ∧ segment.2 - segment.1 + marginSamples < window := by
  obtain ⟨hlt, hle⟩ := visit_stop vad audio hwindow hcursor
  generalize hstop : (visit vad.toVad window audio cursor).stop = stop at hlt hle
  have hplaced : WellPlaced (stop - cursor) (vad.spans (slice audio (cursor, stop))) := by
    have := vad.wellPlaced (slice audio (cursor, stop))
    rwa [slice_length hle] at this
  have hreported : (visit vad.toVad window audio cursor).reported =
      (vad.spans (slice audio (cursor, stop))).map fun span =>
        (cursor + span.start, cursor + span.stop) := by
    rw [← hstop]
    rfl
  rw [hreported]
  refine ⟨?_, ?_⟩
  · have := hplaced.within cursor
    rwa [Nat.add_sub_cancel' (Nat.le_of_lt hlt)] at this
  · intro segment hsegment
    obtain ⟨span, hspan, rfl⟩ := List.mem_map.mp hsegment
    have := hplaced.1 span hspan
    have := vad.short _ span hspan
    dsimp only
    omega

/-- A segment that is appended keeps clear of the edge: were it only kept for starting the
    window, it would fill the window. -/
theorem clear_of_not_runsOn {length stop : Nat} {segment : Nat × Nat}
    (hstop : stop = min length (cursor + window)) (hinside : stop < length)
    (hfrom : cursor ≤ segment.1)
    (hshort : segment.2 - segment.1 + marginSamples < window)
    (hstays : ¬RunsOn length cursor stop segment) : segment.2 + marginSamples < stop := by
  have hat : stop = cursor + window := by omega
  by_contra hclose
  have hstarts : ¬segment.1 > cursor := fun h => hstays ⟨hinside, by omega, h⟩
  omega

/-- **One turn**: it moves the cursor, keeps its segments in the range it is done with, and
    loses no span of the detector. -/
theorem visit_sound (hwindow : 0 < window) (hcursor : cursor < audio.length) :
    (visit vad.toVad window audio cursor).Sound audio.length := by
  have hstop := visit_stop vad audio hwindow hcursor
  obtain ⟨hwithin, hspans⟩ := visit_reported vad audio hwindow hcursor
  have hedge : (visit vad.toVad window audio cursor).stop =
      min audio.length (cursor + window) := rfl
  obtain ⟨deferred, hsplit, hnext, hkept, hbreak⟩ := takeSegments_eq audio.length cursor
    (visit vad.toVad window audio cursor).stop (visit vad.toVad window audio cursor).reported
  change _ = (visit vad.toVad window audio cursor).returned ++ deferred at hsplit
  change ∀ segment ∈ (visit vad.toVad window audio cursor).returned, _ at hkept
  have hnext : (visit vad.toVad window audio cursor).next =
      (deferred.head?.map Prod.fst).getD (visit vad.toVad window audio cursor).stop :=
    congrArg (·.getD (visit vad.toVad window audio cursor).stop) hnext
  have hcur : (visit vad.toVad window audio cursor).cursor = cursor := rfl
  generalize visit vad.toVad window audio cursor = v at *
  have hreturned : ∀ segment ∈ v.returned, segment ∈ v.reported := by
    intro segment hsegment
    rw [hsplit]
    exact List.mem_append_left deferred hsegment
  have hnonempty : ∀ segment ∈ v.returned, segment.1 < segment.2 := by
    intro segment hsegment
    exact (hspans segment (hreturned segment hsegment)).1
  have hclear : v.stop < audio.length →
      ∀ segment ∈ v.returned, segment.2 + marginSamples < v.stop := by
    intro hinside segment hsegment
    have hmem := hreturned segment hsegment
    exact clear_of_not_runsOn hedge hinside (hwithin.mem hmem).1 (hspans segment hmem).2
      (hkept segment hsegment)
  cases deferred with
  | nil =>
    have hall : v.reported = v.returned := by rw [hsplit, List.append_nil]
    have hnext : v.next = v.stop := hnext
    refine ⟨by omega, by omega, ?_, hnonempty, ?_, hclear⟩
    · rw [hnext, hcur, ← hall]
      exact hwithin
    · intro segment hsegment
      left
      rwa [← hall]
  | cons first deferred =>
    have hnext : v.next = first.1 := hnext
    have hruns := hbreak first rfl
    have hfirst : first ∈ v.reported := by
      rw [hsplit]
      exact List.mem_append_right _ List.mem_cons_self
    have hstart : cursor < first.1 := hruns.2.2
    have hend := (hwithin.mem hfirst).2
    refine ⟨by omega, by omega, ?_, hnonempty, ?_, hclear⟩
    · rw [hsplit] at hwithin
      rw [hnext, hcur]
      exact hwithin.before
    · intro segment hsegment
      rw [hsplit] at hsegment hwithin
      rcases List.mem_append.mp hsegment with hsegment | hsegment
      · exact Or.inl hsegment
      · right
        rw [hnext]
        rcases List.mem_cons.mp hsegment with rfl | hlater
        · exact Nat.le_refl _
        · have hpair := List.pairwise_cons.mp (List.pairwise_append.mp hwithin.pairwise).2.1
          exact Nat.le_trans hend.1 (hpair.1 segment hlater)

/-! ## A whole recording -/

/-- The turns the loop takes from `cursor` on, one after the other. -/
def Turns (vad : Vad α) (window : Nat) (audio : List α) : Nat → List Visit → Prop
  | cursor, [] => audio.length ≤ cursor
  | cursor, v :: turns =>
    cursor < audio.length ∧ v = visit vad window audio cursor ∧
      Turns vad window audio v.next turns

/-- The loop ends: what is left of the recording bounds its turns. -/
theorem visits_turns (hwindow : 0 < window) (fuel : Nat) (hfuel : audio.length - cursor ≤ fuel) :
    ∃ turns, (∀ more, visits vad.toVad window audio (fuel + more) cursor = some turns) ∧
      Turns vad.toVad window audio cursor turns := by
  induction fuel generalizing cursor with
  | zero =>
    have hdone : ¬cursor < audio.length := by omega
    refine ⟨[], ?_, Nat.le_of_not_lt hdone⟩
    intro more
    unfold visits
    exact if_neg hdone
  | succ fuel ih =>
    by_cases hcursor : cursor < audio.length
    · have hadvances := (visit_sound vad audio hwindow hcursor).advances
      have hcur : (visit vad.toVad window audio cursor).cursor = cursor := rfl
      have hfuel : audio.length - (visit vad.toVad window audio cursor).next ≤ fuel := by omega
      obtain ⟨turns, hvisits, hturns⟩ := ih hfuel
      refine ⟨visit vad.toVad window audio cursor :: turns, ?_, hcursor, rfl, hturns⟩
      intro more
      rw [Nat.add_right_comm]
      unfold visits
      rw [if_pos hcursor]
      show (visits _ _ _ (fuel + more) _).map _ = _
      rw [hvisits more]
      rfl
    · refine ⟨[], ?_, Nat.le_of_not_lt hcursor⟩
      intro more
      unfold visits
      exact if_neg hcursor

variable {vad audio}

theorem Turns.sound (hwindow : 0 < window) {turns : List Visit}
    (h : Turns vad.toVad window audio cursor turns) :
    ∀ v ∈ turns, v = visit vad.toVad window audio v.cursor ∧ v.Sound audio.length := by
  induction turns generalizing cursor with
  | nil => intro v hv; cases hv
  | cons v turns ih =>
    obtain ⟨hcursor, rfl, hrest⟩ := h
    intro u hu
    rcases List.mem_cons.mp hu with rfl | hu
    · exact ⟨rfl, visit_sound vad audio hwindow hcursor⟩
    · exact ih hrest u hu

theorem Turns.tiles (hwindow : 0 < window) {turns : List Visit}
    (h : Turns vad.toVad window audio cursor turns) (hcursor : cursor ≤ audio.length) :
    Tiles cursor (turns.map Visit.range) audio.length := by
  induction turns generalizing cursor with
  | nil => exact Nat.le_antisymm hcursor h
  | cons v turns ih =>
    obtain ⟨hlt, rfl, hrest⟩ := h
    have hsound := visit_sound vad audio hwindow hlt
    exact ⟨rfl, hsound.advances, ih hrest hsound.inside⟩

/-- Turn by turn the segments increase and stay in the recording. -/
theorem Turns.within (hwindow : 0 < window) {turns : List Visit}
    (h : Turns vad.toVad window audio cursor turns) (hcursor : cursor ≤ audio.length) :
    Within cursor (turns.flatMap Visit.returned) audio.length := by
  induction turns generalizing cursor with
  | nil => exact hcursor
  | cons v turns ih =>
    obtain ⟨hlt, rfl, hrest⟩ := h
    have hsound := visit_sound vad audio hwindow hlt
    exact hsound.within.append (ih hrest hsound.inside)

end

/-- **The utterances of a recording.** With a window of any positive size the loop ends; the
    ranges it goes through tile the recording; the segments increase, are disjoint and
    inside it; each span a window's detector reports is returned exactly once or starts
    where the next window does, or later; and no segment ends in the margin of its window
    unless the recording ends there. -/
theorem speechSegments_sound {window : Nat} (hwindow : 0 < window) (vad : WindowVad α window)
    (audio : List α) :
    ∃ turns : List Visit, ∃ segments : List (Nat × Nat),
      (∀ fuel, audio.length ≤ fuel →
        visits vad.toVad window audio fuel 0 = some turns ∧
          speechSegments vad.toVad window audio fuel = some segments) ∧
      (∀ v ∈ turns, v = visit vad.toVad window audio v.cursor) ∧
      Tiles 0 (turns.map Visit.range) audio.length ∧
      (segments.Pairwise fun before after => before.2 ≤ after.1) ∧
      (∀ segment ∈ segments, segment.1 < segment.2 ∧ segment.2 ≤ audio.length) ∧
      (∀ v ∈ turns, ∀ span ∈ v.reported, segments.count span = 1 ∨ v.next ≤ span.1) ∧
      ∀ v ∈ turns, v.stop < audio.length →
        ∀ segment ∈ v.returned, segment.2 + marginSamples < v.stop := by
  obtain ⟨turns, hvisits, hturns⟩ :=
    visits_turns vad audio hwindow audio.length (Nat.sub_le audio.length 0)
  have hsound := hturns.sound hwindow
  have hwithin := hturns.within hwindow (Nat.zero_le _)
  have hnonempty : ∀ segment ∈ turns.flatMap Visit.returned, segment.1 < segment.2 := by
    intro segment hsegment
    obtain ⟨v, hv, hsegment⟩ := List.mem_flatMap.mp hsegment
    exact (hsound v hv).2.nonempty segment hsegment
  refine ⟨turns, turns.flatMap Visit.returned, ?_, ?_, ?_, ?_, ?_, ?_, ?_⟩
  · intro fuel hfuel
    have hfound : visits vad.toVad window audio fuel 0 = some turns := by
      obtain ⟨more, rfl⟩ := Nat.exists_eq_add_of_le hfuel
      exact hvisits more
    refine ⟨hfound, ?_⟩
    unfold speechSegments
    rw [hfound]
    rfl
  · exact fun v hv => (hsound v hv).1
  · exact hturns.tiles hwindow (Nat.zero_le _)
  · exact hwithin.pairwise
  · exact fun segment hsegment => ⟨hnonempty segment hsegment, (hwithin.mem hsegment).2.2⟩
  · intro v hv span hspan
    rcases (hsound v hv).2.none_lost span hspan with hreturned | hlater
    · left
      have hmem : span ∈ turns.flatMap Visit.returned := List.mem_flatMap.mpr ⟨v, hv, hreturned⟩
      exact (hwithin.nodup hnonempty).count.trans (if_pos hmem)
    · exact Or.inr hlater
  · exact fun v hv => (hsound v hv).2.clear

/-! ## Speech at the end of the first minute -/

/-- `round(window_seconds * SAMPLE_RATE)` -/
def minute : Nat := 960000

/-- It hears speech to within 5000 samples of the end of the first minute, and 3000 more of
    it when it hears what follows. -/
def atMinute : WindowVad Unit minute where
  spans audio :=
    if audio.length = minute then [⟨950000, 955000⟩]
    else if audio.length = 100000 then [⟨0, 8000⟩]
    else []
  wellPlaced audio := by
    unfold WellPlaced
    split_ifs with hminute hrest
    · rw [hminute]
      simp [minute]
    · rw [hrest]
      simp
    · simp
  short audio := by
    split_ifs <;> simp [minute, marginSamples]

/-- The second window begins with the speech at the end of the first. -/
def minuteTurns : List Visit :=
  [⟨0, 960000, [(950000, 955000)], [], 950000⟩,
    ⟨950000, 1050000, [(950000, 958000)], [(950000, 958000)], 1050000⟩]

section

variable {audio : List Unit} (hlen : audio.length = 1050000)
include hlen

theorem visit_atMinute_first :
    visit atMinute.toVad minute audio 0 = ⟨0, 960000, [(950000, 955000)], [], 950000⟩ := by
  have hslice : (slice audio (0, 960000)).length = minute :=
    slice_length (by rw [hlen]; omega)
  have hspans : atMinute.spans (slice audio (0, 960000)) = [⟨950000, 955000⟩] := if_pos hslice
  simp [visit, hlen, minute, hspans, takeSegments, RunsOn, marginSamples]

theorem visit_atMinute_second :
    visit atMinute.toVad minute audio 950000 =
      ⟨950000, 1050000, [(950000, 958000)], [(950000, 958000)], 1050000⟩ := by
  have hslice : (slice audio (950000, 1050000)).length = 100000 :=
    slice_length (Nat.le_of_eq hlen.symm)
  have hspans : atMinute.spans (slice audio (950000, 1050000)) = [⟨0, 8000⟩] := by
    show (if _ = minute then _ else if _ = 100000 then _ else _) = _
    rw [hslice, if_neg (by simp [minute]), if_pos rfl]
  simp [visit, hlen, minute, hspans, takeSegments, RunsOn]

theorem visits_atMinute (fuel : Nat) :
    visits atMinute.toVad minute audio (fuel + 2) 0 = some minuteTurns := by
  have hend : visits atMinute.toVad minute audio fuel 1050000 = some [] := by
    unfold visits
    rw [if_neg (by rw [hlen]; omega)]
  have hrest : visits atMinute.toVad minute audio (fuel + 1) 950000 = some minuteTurns.tail := by
    unfold visits
    rw [if_pos (by rw [hlen]; omega)]
    simp only [visit_atMinute_second hlen, hend]
    rfl
  unfold visits
  rw [if_pos (by rw [hlen]; omega)]
  simp only [visit_atMinute_first hlen, hrest]
  rfl

end

/-- A little more than a minute. -/
@[irreducible] def pastMinute : List Unit := .replicate 1050000 ()

theorem length_pastMinute : pastMinute.length = 1050000 := by
  rw [pastMinute, List.length_replicate]

/-- What the first window hears in its margin is left to the second, which returns it once
    and whole. -/
theorem speechSegments_sound_pastMinute :
    speechSegments atMinute.toVad minute pastMinute 1050000 = some [(950000, 958000)] ∧
      Tiles 0 (minuteTurns.map Visit.range) pastMinute.length ∧
      ∀ v ∈ minuteTurns, ∀ span ∈ v.reported,
        [(950000, 958000)].count span = 1 ∨ v.next ≤ span.1 := by
  obtain ⟨turns, segments, hfound, -, htiles, -, -, hreported, -⟩ :=
    speechSegments_sound (by simp [minute]) atMinute pastMinute
  obtain ⟨hturns, hsegments⟩ := hfound (1049998 + 2) (Nat.le_of_eq length_pastMinute)
  rw [visits_atMinute length_pastMinute] at hturns
  obtain rfl := Option.some.inj hturns
  unfold speechSegments at hsegments
  rw [visits_atMinute length_pastMinute] at hsegments
  obtain rfl := Option.some.inj hsegments
  refine ⟨?_, htiles, hreported⟩
  show (visits atMinute.toVad minute pastMinute (1049998 + 2) 0).map _ = _
  rw [visits_atMinute length_pastMinute]
  rfl

/-! ## A window of no samples -/

/-- No detector reports anything in a window of no samples, and the cursor stays. -/
theorem visits_stuck (vad : WindowVad α 0) {audio : List α} (hne : audio ≠ []) (fuel : Nat) :
    visits vad.toVad 0 audio fuel 0 = none := by
  have hsilent : vad.spans (slice audio (0, 0)) = [] := by
    apply List.eq_nil_iff_forall_not_mem.mpr
    intro span hspan
    exact Nat.not_lt_zero _ (vad.short _ span hspan)
  have hnext : (visit vad.toVad 0 audio 0).next = 0 := by
    have hstop : min audio.length 0 = 0 := Nat.min_zero _
    unfold visit
    simp only [Nat.zero_add, hstop, hsilent]
    rfl
  induction fuel with
  | zero =>
    unfold visits
    exact if_pos (List.length_pos_iff.mpr hne)
  | succ fuel ih =>
    unfold visits
    rw [if_pos (List.length_pos_iff.mpr hne)]
    show (visits _ _ _ fuel (visit vad.toVad 0 audio 0).next).map _ = _
    rw [hnext, ih]
    rfl

/-- A detector that hears nothing. -/
def silence : WindowVad Unit 0 where
  spans _ := []
  wellPlaced _ := ⟨fun _ h => absurd h List.not_mem_nil, .nil⟩
  short _ _ hspan := absurd hspan List.not_mem_nil

/-- With a window of no samples the loop never ends, however short the recording is. And with
    windows of a minute a segment that is returned may end in the margin of an edge that is
    not the end: that of the window before the one whose detector reported it. -/
theorem speechSegments_stuck :
    (¬∃ fuel, (speechSegments silence.toVad 0 [()] fuel).isSome = true) ∧
      ∃ turns, visits atMinute.toVad minute pastMinute 1050000 0 = some turns ∧
        ∃ v ∈ turns, v.stop < pastMinute.length ∧
          ∃ segment ∈ turns.flatMap Visit.returned,
            segment.2 ≤ v.stop ∧ v.stop ≤ segment.2 + marginSamples := by
  refine ⟨fun ⟨fuel, hsome⟩ => ?_, minuteTurns, visits_atMinute length_pastMinute 1049998, ?_⟩
  · unfold speechSegments at hsome
    rw [visits_stuck silence (List.cons_ne_nil () []) fuel] at hsome
    cases hsome
  · refine ⟨⟨0, 960000, [(950000, 955000)], [], 950000⟩, List.mem_cons_self, ?_,
      (950000, 958000), ?_, ?_, ?_⟩
    · rw [length_pastMinute]
      simp
    · simp [minuteTurns]
    · simp
    · simp [marginSamples]

end Post
end LocalMeetingStt
