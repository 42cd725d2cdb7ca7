import LocalMeetingStt.Segmenter.Model

/-!
# Where every sample goes

The segmenter slices one buffer at six exits, with a different offset at each. This
file says what those slices are slices *of*: the samples received since the session
began. A `Call` records one call of the detector, the offset in the stream of what it
was given, what it answered, which stretch became final and how many samples left the
buffer; it is bookkeeping beside the model, computed from the states before and after a
pass, and the model does not read it.

`Accounts` is what a stretch of calls adds up to. It composes (`Accounts.append`), so a
session is one lemma about a pass (`feedPass_accounts`), carried through the loop of
`feed`, the blocks of the session and the closing `finish`.
-/

namespace LocalMeetingStt
namespace Segmenter

open Slices

variable {α : Type*}

/-! ## The bookkeeping -/

/-- One call of the detector. `base` is the offset of the audio in the stream, `finals`
    the stretches of the stream that became final requests. -/
structure Call (α : Type*) where
  base : Nat
  audio : List α
  spans : List Span
  finals : List (Nat × Nat)
  removed : Nat
  /-- The call `finish` makes. -/
  closing : Bool

/-- How many samples have left the buffer. -/
def State.base (s : State α) : Nat := s.totalSamples - s.pending.length

def Pass.state : Pass α → State α
  | .done s _ => s
  | .again s _ => s

def Pass.requests : Pass α → List (CaptionRequest α)
  | .done _ requests => requests
  | .again _ requests => requests

/-- The audio of the final requests. -/
def finalAudio (requests : List (CaptionRequest α)) : List (List α) :=
  (requests.filter fun r => r.kind = .final).map CaptionRequest.audio

/-- The call behind one pass over `s`: a final starts where the first span does. -/
def passCall (cfg : Config α) (s : State α) (pass : Pass α) : Call α :=
  let spans := cfg.vad.spans s.pending
  let start := s.base + (spans.head?.map Span.start).getD 0
  { base := s.base
    audio := s.pending
    spans
    finals := (finalAudio pass.requests).map fun audio => (start, start + audio.length)
    removed := s.pending.length - pass.state.pending.length
    closing := false }

/-- The calls `feedLoop` makes. -/
def feedLoopCalls (cfg : Config α) (s : State α) : List (Call α) :=
  if _hempty : s.pending = [] then []
  else
    match _hpass : feedPass cfg s with
    | .done s' requests => [passCall cfg s (.done s' requests)]
    | .again s' requests => passCall cfg s (.again s' requests) :: feedLoopCalls cfg s'
termination_by s.pending.length
decreasing_by exact feedPass_again_lt _hempty _hpass

theorem feedLoopCalls_nil (cfg : Config α) {s : State α} (h : s.pending = []) :
    feedLoopCalls cfg s = [] := by
  rw [feedLoopCalls, dif_pos h]

theorem feedLoopCalls_done {cfg : Config α} {s s' : State α}
    {requests : List (CaptionRequest α)} (hne : s.pending ≠ [])
    (h : feedPass cfg s = .done s' requests) :
    feedLoopCalls cfg s = [passCall cfg s (.done s' requests)] := by
  rw [feedLoopCalls, dif_neg hne]
  split <;> simp_all

theorem feedLoopCalls_again {cfg : Config α} {s s' : State α}
    {requests : List (CaptionRequest α)} (hne : s.pending ≠ [])
    (h : feedPass cfg s = .again s' requests) :
    feedLoopCalls cfg s = passCall cfg s (.again s' requests) :: feedLoopCalls cfg s' := by
  rw [feedLoopCalls, dif_neg hne]
  split <;> simp_all

def feedCalls (cfg : Config α) (s : State α) (block : List α) : List (Call α) :=
  if block.isEmpty then []
  else
    feedLoopCalls cfg { s with
      pending := s.pending ++ block
      totalSamples := s.totalSamples + block.length }

def feedAllCalls (cfg : Config α) : State α → List (List α) → List (Call α)
  | _, [] => []
  | s, block :: blocks => feedCalls cfg s block ++ feedAllCalls cfg (feed cfg s block).1 blocks

def finishCalls (cfg : Config α) (s : State α) : List (Call α) :=
  if s.pending.isEmpty then []
  else
    let spans := cfg.vad.spans s.pending
    [{ base := s.base
       audio := s.pending
       spans
       finals := spans.map fun span => (s.base + span.start, s.base + span.stop)
       removed := s.pending.length
       closing := true }]

/-! ## What the calls add up to -/

/-- The calls remove consecutive stretches of the stream, from `lo` to `hi`. -/
def Tiles : Nat → List (Call α) → Nat → Prop
  | lo, [], hi => lo = hi
  | lo, c :: rest, hi => c.base = lo ∧ Tiles (lo + c.removed) rest hi

/-- Why the call let sample `i` of the stream go without making it final: it heard no
    speech, or none before that sample, or, closing, placed it outside every span. -/
def Call.Unspoken (c : Call α) (i : Nat) : Prop :=
  c.spans = [] ∨ (∃ first ∈ c.spans.head?, i < c.base + first.start) ∨
    (c.closing = true ∧ ∀ span ∈ c.spans, ¬(c.base + span.start ≤ i ∧ i < c.base + span.stop))

/-- The call is a real one, over the stream `input`, and every sample it removed is in
    one of its finals or unspoken. -/
structure Call.Explained (vad : Vad α) (input : List α) (c : Call α) : Prop where
  audio : c.audio <+: input.drop c.base
  spans : c.spans = vad.spans c.audio
  removed : ∀ i, c.base ≤ i → i < c.base + c.removed →
    (∃ iv ∈ c.finals, iv.1 ≤ i ∧ i < iv.2) ∨ c.Unspoken i

structure Accounts (vad : Vad α) (input : List α) (lo hi : Nat)
    (requests : List (CaptionRequest α)) (calls : List (Call α)) : Prop where
  tiles : Tiles lo calls hi
  finals : finalAudio requests = (calls.flatMap Call.finals).map (slice input)
  within : Within lo (calls.flatMap Call.finals) hi
  explained : ∀ c ∈ calls, c.Explained vad input

theorem Tiles.append {lo mid hi : Nat} {xs ys : List (Call α)} (hx : Tiles lo xs mid)
    (hy : Tiles mid ys hi) : Tiles lo (xs ++ ys) hi := by
  induction xs generalizing lo with
  | nil => obtain rfl : lo = mid := hx; exact hy
  | cons c rest ih => exact ⟨hx.1, ih hx.2⟩

theorem finalAudio_append (xs ys : List (CaptionRequest α)) :
    finalAudio (xs ++ ys) = finalAudio xs ++ finalAudio ys := by
  simp [finalAudio]

theorem Accounts.nil (vad : Vad α) (input : List α) (lo : Nat) :
    Accounts vad input lo lo [] [] :=
  ⟨rfl, rfl, Nat.le_refl lo, by simp⟩

theorem Accounts.append {vad : Vad α} {input : List α} {lo mid hi : Nat}
    {rs rs' : List (CaptionRequest α)} {cs cs' : List (Call α)}
    (h : Accounts vad input lo mid rs cs) (h' : Accounts vad input mid hi rs' cs') :
    Accounts vad input lo hi (rs ++ rs') (cs ++ cs') where
  tiles := h.tiles.append h'.tiles
  finals := by
    rw [finalAudio_append, h.finals, h'.finals, List.flatMap_append, List.map_append]
  within := by
    rw [List.flatMap_append]
    exact h.within.append h'.within
  explained c hc := (List.mem_append.mp hc).elim (h.explained c) (h'.explained c)

/-- The account stands when the stream goes on. -/
theorem Accounts.extend {vad : Vad α} {input : List α} {lo hi : Nat}
    {rs : List (CaptionRequest α)} {cs : List (Call α)}
    (h : Accounts vad input lo hi rs cs) (hhi : hi ≤ input.length) (more : List α) :
    Accounts vad (input ++ more) lo hi rs cs where
  tiles := h.tiles
  finals := by
    rw [h.finals]
    refine List.map_congr_left fun iv hiv => (slice_append_left ?_).symm
    exact Nat.le_trans (h.within.mem hiv).2.2 hhi
  within := h.within
  explained c hc :=
    { audio := ((h.explained c hc).audio.trans
        (by rw [List.drop_append]; exact List.prefix_append _ _))
      spans := (h.explained c hc).spans
      removed := (h.explained c hc).removed }

/-! ## One pass -/

/-- The buffer is the end of what has arrived. -/
structure Follows (input : List α) (s : State α) : Prop where
  total : s.totalSamples = input.length
  suffix : s.pending <:+ input

theorem Follows.base_add {input : List α} {s : State α} (h : Follows input s) :
    s.base + s.pending.length = input.length := by
  have := h.suffix.length_le
  simp only [State.base, h.total]
  omega

theorem Follows.pending {input : List α} {s : State α} (h : Follows input s) :
    s.pending = input.drop s.base := by
  have := List.suffix_iff_eq_drop.mp h.suffix
  rwa [State.base, h.total]

/-- A slice of the buffer, as a slice of the stream. -/
theorem Follows.slice_pending {input : List α} {s : State α} (h : Follows input s) (a b : Nat) :
    slice s.pending (a, b) = slice input (s.base + a, s.base + b) := by
  conv_lhs => rw [h.pending]
  exact slice_drop input s.base a b

/-- Dropping `k` samples of the buffer. -/
theorem Follows.drop {input : List α} {s s' : State α} (h : Follows input s) {k : Nat}
    (hk : k ≤ s.pending.length) (htotal : s'.totalSamples = s.totalSamples)
    (hpending : s'.pending = s.pending.drop k) :
    Follows input s' ∧ s'.base = s.base + k ∧ s.pending.length - s'.pending.length = k := by
  have hlen := h.suffix.length_le
  have htot := h.total
  refine ⟨⟨htotal.trans h.total, ?_⟩, ?_, ?_⟩
  · rw [hpending]
    exact (List.drop_suffix k s.pending).trans h.suffix
  · simp only [State.base, htotal, hpending, List.length_drop]
    omega
  · rw [hpending, List.length_drop]
    omega

theorem Follows.audio {input : List α} {s : State α} (h : Follows input s) :
    s.pending <+: input.drop s.base :=
  ⟨[], by rw [List.append_nil, h.pending]⟩

/-- A pass that makes `[start, cut)` of the buffer final and drops everything to `cut`. -/
theorem accounts_final {cfg : Config α} {input : List α} {s : State α} (h : Follows input s)
    {pass : Pass α} {first : Span} {rest : List Span} {cut : Nat}
    (hspans : cfg.vad.spans s.pending = first :: rest)
    (hstart : first.start ≤ cut) (hcut : cut ≤ s.pending.length)
    (htotal : pass.state.totalSamples = s.totalSamples)
    (hpending : pass.state.pending = s.pending.drop cut)
    (hrequests : pass.requests = [⟨.final, slice s.pending (first.start, cut)⟩]) :
    Follows input pass.state ∧
      Accounts cfg.vad input s.base pass.state.base pass.requests [passCall cfg s pass] := by
  obtain ⟨hfollows, hbase, hremoved⟩ := h.drop hcut htotal hpending
  have haudio : finalAudio pass.requests = [slice s.pending (first.start, cut)] := by
    simp [finalAudio, hrequests]
  have hfinals : (passCall cfg s pass).finals = [(s.base + first.start, s.base + cut)] := by
    simp only [passCall, haudio, hspans, List.head?_cons, Option.map_some, Option.getD_some,
      List.map_cons, List.map_nil, slice_length hcut]
    congr 2
    omega
  refine ⟨hfollows, ⟨?_, ?_, ?_, ?_⟩⟩
  · exact ⟨rfl, by rw [hbase]; simp only [passCall, hremoved, Tiles]⟩
  · simp only [List.flatMap_cons, List.flatMap_nil, List.append_nil, hfinals, List.map_cons,
      List.map_nil, haudio, h.slice_pending]
  · simp only [List.flatMap_cons, List.flatMap_nil, List.append_nil, hfinals, Within, hbase]
    omega
  · intro c hc
    obtain rfl := List.mem_singleton.mp hc
    refine ⟨h.audio, rfl, fun i hlo hhi => ?_⟩
    have hhi : i < s.base + cut := by simpa only [passCall, hremoved] using hhi
    -- Before the first span the call heard nothing; from there on all is final.
    by_cases hi : s.base + first.start ≤ i
    · exact .inl ⟨_, by rw [hfinals]; exact List.mem_singleton_self _, hi, hhi⟩
    · refine .inr (.inr (.inl ⟨first, ?_, by simpa [passCall] using hi⟩))
      simp [passCall, hspans]

/-- A pass that makes nothing final and drops the first `k` samples, which it may only do
    where it heard nothing. -/
theorem accounts_quiet {cfg : Config α} {input : List α} {s : State α} (h : Follows input s)
    {pass : Pass α} {k : Nat} (hk : k ≤ s.pending.length)
    (hquiet : cfg.vad.spans s.pending = [] ∨ k = 0)
    (htotal : pass.state.totalSamples = s.totalSamples)
    (hpending : pass.state.pending = s.pending.drop k)
    (hrequests : finalAudio pass.requests = []) :
    Follows input pass.state ∧
      Accounts cfg.vad input s.base pass.state.base pass.requests [passCall cfg s pass] := by
  obtain ⟨hfollows, hbase, hremoved⟩ := h.drop hk htotal hpending
  have hfinals : (passCall cfg s pass).finals = [] := by
    simp [passCall, hrequests]
  refine ⟨hfollows, ⟨?_, ?_, ?_, ?_⟩⟩
  · exact ⟨rfl, by rw [hbase]; simp only [passCall, hremoved, Tiles]⟩
  · simp [hfinals, hrequests]
  · simp only [List.flatMap_cons, List.flatMap_nil, List.append_nil, hfinals, Within, hbase]
    omega
  · intro c hc
    obtain rfl := List.mem_singleton.mp hc
    refine ⟨h.audio, rfl, fun i hlo hhi => ?_⟩
    simp only [passCall, hremoved] at hlo hhi
    rcases hquiet with hspans | rfl
    · exact .inr (.inl hspans)
    · -- nothing was removed
      omega

theorem feedPass_accounts (cfg : Config α) {input : List α} {s : State α} (h : Follows input s) :
    Follows input (feedPass cfg s).state ∧
      Accounts cfg.vad input s.base (feedPass cfg s).state.base (feedPass cfg s).requests
        [passCall cfg s (feedPass cfg s)] := by
  have hout := feedPass_outcome cfg s
  generalize feedPass cfg s = pass at hout ⊢
  cases hout with
  | silence k hspans hk => exact accounts_quiet h (by omega) (.inl hspans) rfl rfl rfl
  | utterance first rest hspans _ =>
    obtain ⟨hlt, hle⟩ := Vad.first_mem hspans
    exact accounts_final h hspans (Nat.le_of_lt hlt) hle rfl rfl rfl
  | limit first hspans _ =>
    obtain ⟨hlt, hle⟩ := Vad.first_mem hspans
    refine accounts_final h hspans (Nat.le_trans (Nat.le_of_lt hlt) hle) (Nat.le_refl _) rfl ?_ rfl
    exact (List.drop_eq_nil_of_le (Nat.le_refl _)).symm
  | shortPause first cut hspans _ _ hcut =>
    obtain ⟨hstart, hend⟩ := shortPauseCut_bounds hcut
    exact accounts_final h hspans (by omega) (Nat.le_of_lt hend) rfl rfl rfl
  | preview first hspans _ _ _ =>
    exact accounts_quiet h (Nat.zero_le _) (.inr rfl) rfl rfl rfl
  | wait first hspans _ =>
    exact accounts_quiet h (Nat.zero_le _) (.inr rfl) rfl rfl rfl

/-! ## A session -/

theorem feedLoop_accounts (cfg : Config α) {input : List α} {s : State α} (h : Follows input s) :
    Follows input (feedLoop cfg s).1 ∧
      Accounts cfg.vad input s.base (feedLoop cfg s).1.base (feedLoop cfg s).2
        (feedLoopCalls cfg s) := by
  induction hlen : s.pending.length using Nat.strongRecOn generalizing s with
  | ind len ih =>
    by_cases hempty : s.pending = []
    · rw [feedLoop_nil cfg hempty, feedLoopCalls_nil cfg hempty]
      exact ⟨h, .nil cfg.vad input s.base⟩
    · have hpassed := feedPass_accounts cfg h
      cases hpass : feedPass cfg s with
      | done s' requests =>
        rw [feedLoop_done hempty hpass, feedLoopCalls_done hempty hpass]
        rw [hpass] at hpassed
        exact hpassed
      | again s' requests =>
        rw [feedLoop_again hempty hpass, feedLoopCalls_again hempty hpass]
        rw [hpass] at hpassed
        obtain ⟨hfollows, haccounts⟩ := hpassed
        have hlt := feedPass_again_lt hempty hpass
        obtain ⟨hfollows', haccounts'⟩ := ih s'.pending.length (hlen ▸ hlt) hfollows rfl
        exact ⟨hfollows', haccounts.append haccounts'⟩

/-- A block joins the stream and the buffer. -/
theorem Follows.receive {input : List α} {s : State α} (h : Follows input s) (block : List α) :
    Follows (input ++ block) { s with
      pending := s.pending ++ block
      totalSamples := s.totalSamples + block.length } where
  total := by simp [h.total]
  suffix := by
    obtain ⟨front, hfront⟩ := h.suffix
    exact ⟨front, by rw [← hfront, List.append_assoc]⟩

theorem feed_accounts (cfg : Config α) {input : List α} {s : State α} (h : Follows input s)
    (block : List α) :
    Follows (input ++ block) (feed cfg s block).1 ∧
      Accounts cfg.vad (input ++ block) s.base (feed cfg s block).1.base (feed cfg s block).2
        (feedCalls cfg s block) := by
  unfold feed feedCalls
  split_ifs with hempty
  · obtain rfl := List.isEmpty_iff.mp hempty
    rw [List.append_nil]
    exact ⟨h, .nil cfg.vad input s.base⟩
  · have hbase : s.base = State.base { s with
        pending := s.pending ++ block, totalSamples := s.totalSamples + block.length } := by
      simp only [State.base, List.length_append]
      omega
    rw [hbase]
    exact feedLoop_accounts cfg (h.receive block)

theorem feedAll_accounts (cfg : Config α) (blocks : List (List α)) {input : List α} {s : State α}
    (h : Follows input s) :
    Follows (input ++ blocks.flatten) (feedAll cfg s blocks).1 ∧
      Accounts cfg.vad (input ++ blocks.flatten) s.base (feedAll cfg s blocks).1.base
        (feedAll cfg s blocks).2 (feedAllCalls cfg s blocks) := by
  induction blocks generalizing input s with
  | nil =>
    rw [List.flatten_nil, List.append_nil]
    exact ⟨h, .nil cfg.vad input s.base⟩
  | cons block blocks ih =>
    obtain ⟨hfollows, haccounts⟩ := feed_accounts cfg h block
    obtain ⟨hfollows', haccounts'⟩ := ih hfollows
    rw [List.flatten_cons, ← List.append_assoc]
    have hbound : (feed cfg s block).1.base ≤ (input ++ block).length := by
      have := hfollows.base_add
      omega
    exact ⟨hfollows', (haccounts.extend hbound blocks.flatten).append haccounts'⟩

theorem finish_accounts (cfg : Config α) {input : List α} {s : State α} (h : Follows input s) :
    Accounts cfg.vad input s.base input.length (finish cfg s).2 (finishCalls cfg s) := by
  have hend := h.base_add
  unfold finish finishCalls
  split_ifs with hempty
  · have : s.pending.length = 0 := by simpa using hempty
    have hbase : s.base = input.length := by omega
    rw [← hbase]
    exact .nil cfg.vad input s.base
  · have hspans := cfg.vad.wellPlaced s.pending
    refine ⟨⟨rfl, hend⟩, ?_, ?_, ?_⟩
    · simp only [finalAudio, List.flatMap_cons, List.flatMap_nil, List.append_nil, List.map_map,
        List.filter_map]
      rw [List.filter_eq_self.mpr (by simp)]
      exact List.map_congr_left fun span _ => h.slice_pending span.start span.stop
    · rw [← hend]
      simpa using hspans.within s.base
    · intro c hc
      obtain rfl := List.mem_singleton.mp hc
      refine ⟨h.audio, rfl, fun i _ _ => ?_⟩
      by_cases hi : ∃ span ∈ cfg.vad.spans s.pending,
          s.base + span.start ≤ i ∧ i < s.base + span.stop
      · obtain ⟨span, hmem, hlo, hhi⟩ := hi
        exact .inl ⟨_, List.mem_map_of_mem hmem, hlo, hhi⟩
      · exact .inr (.inr (.inr ⟨rfl, fun span hspan hin => hi ⟨span, hspan, hin⟩⟩))

/-- **No sample judged speech is lost, and none is final twice.** After any blocks the
    buffer is a suffix of the stream. Over the session and its closing `finish`: the
    final requests, in the order they were made, are slices of the stream, each ending
    before the next begins; the detector's calls remove the stream piece by piece; and
    what a call removed without making it final lay before its first span, or it found
    no span, or it is the closing call and placed it outside every span. -/
theorem session_accounts (cfg : Config α) (blocks : List (List α)) :
    (feedAll cfg .new blocks).1.pending <:+ blocks.flatten ∧
      (let s := (feedAll cfg .new blocks).1
       let requests := (feedAll cfg .new blocks).2 ++ (finish cfg s).2
       let calls := feedAllCalls cfg .new blocks ++ finishCalls cfg s
       let finals := calls.flatMap Call.finals
       finalAudio requests = finals.map (slice blocks.flatten) ∧
         (∀ iv ∈ finals, iv.1 ≤ iv.2 ∧ iv.2 ≤ blocks.flatten.length) ∧
         finals.Pairwise (fun iv jv => iv.2 ≤ jv.1) ∧
         Tiles 0 calls blocks.flatten.length ∧
         ∀ c ∈ calls, c.Explained cfg.vad blocks.flatten) := by
  have hnew : Follows ([] : List α) .new := ⟨rfl, List.suffix_refl _⟩
  obtain ⟨hfollows, haccounts⟩ := feedAll_accounts cfg blocks hnew
  rw [List.nil_append] at hfollows haccounts
  have hsession := haccounts.append (finish_accounts cfg hfollows)
  exact ⟨hfollows.suffix, hsession.finals, fun iv hiv => (hsession.within.mem hiv).2,
    hsession.within.pairwise, hsession.tiles, hsession.explained⟩

end Segmenter
end LocalMeetingStt
