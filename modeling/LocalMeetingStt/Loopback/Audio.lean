import LocalMeetingStt.Lib.Ring
import Mathlib.Tactic.Linarith

/-!
# The capture buffer (`common-wasapi-loopback.cpp`, `audio_async`)

The capture thread appends packets to a circular buffer, the main thread reads the last
milliseconds of it or clears it; each call holds the mutex. The code moves samples with
`memcpy` between positions it computes in `size_t` and `int` at once, so `get` here goes
through the same conversions, and a copy that would leave a buffer has no result.

`Holds` relates the buffer to the samples appended since the last clear. Every call keeps
it and none of the copies leaves a buffer, so what `get` answers is a statement about the
samples alone (`get_exact`).
-/

namespace LocalMeetingStt
namespace Loopback

open Ring

/-- An `int` where a `size_t` is wanted. -/
def toSize (x : Int) : Nat := (x % 2 ^ 64).toNat

/-- `static_cast<int>` of a `size_t`. -/
def toInt (n : Nat) : Int := Int.bmod n (2 ^ 32)

structure AudioAsync (α : Type) where
  lenMs : Int
  sampleRate : Int
  audio : List α
  audioPos : Nat
  audioLen : Nat

namespace AudioAsync

variable {α : Type} [Inhabited α]

/-- The constructor and `init`. The cells are silent at first. -/
def init (lenMs sampleRate : Int) : AudioAsync α where
  lenMs
  sampleRate
  audio := .replicate (toSize ((sampleRate * lenMs).tdiv 1000)) default
  audioPos := 0
  audioLen := 0

variable (a : AudioAsync α)

def clear : AudioAsync α := { a with audioPos := 0, audioLen := 0 }

omit [Inhabited α] in
/-- Positions are below the size, so that no sum of them leaves `size_t`. -/
def appendSamples (samples : List α) : Option (AudioAsync α) :=
  let size := a.audio.length
  let samples := if samples.length > size then samples.drop (samples.length - size) else samples
  let nSamples := samples.length
  let copied :=
    if a.audioPos + nSamples > size then
      let n0 := size - a.audioPos
      (copy a.audio a.audioPos samples 0 n0).bind fun audio =>
        copy audio 0 samples n0 (nSamples - n0)
    else copy a.audio a.audioPos samples 0 nSamples
  copied.map fun audio =>
    { a with
      audio
      audioPos := (a.audioPos + nSamples) % size
      audioLen := if a.audioLen + nSamples < size then a.audioLen + nSamples else size }

def get (ms : Int) : Option (List α) :=
  let ms := if ms ≤ 0 then a.lenMs else ms
  let size := a.audio.length
  let nSamples := toSize ((a.sampleRate * ms).tdiv 1000)
  let nSamples := if nSamples < a.audioLen then nSamples else a.audioLen
  let result := List.replicate nSamples default
  let s0 := toInt ((a.audioPos + 2 ^ 64 - nSamples) % 2 ^ 64)
  let s0 := if s0 < 0 then s0 + toInt size else s0
  if (toSize s0 + nSamples) % 2 ^ 64 > size then
    let n0 := toSize (size - s0)
    (copy result 0 a.audio (toSize s0) n0).bind fun result =>
      copy result n0 a.audio 0 (toSize (nSamples - n0))
  else copy result 0 a.audio (toSize s0) nSamples

/-! ## What the buffer holds -/

omit [Inhabited α] in
/-- The buffer holds the last of the samples appended since it was cleared. -/
structure Holds (appended : List α) : Prop where
  fits : a.audio.length < 2 ^ 31
  pos : a.audioPos < a.audio.length
  len : a.audioLen = min appended.length a.audio.length
  last : (view a.audio a.audioPos).rtake a.audioLen = appended.rtake a.audioLen

variable {a}

omit [Inhabited α] in
/-- Only the last of a packet larger than the buffer can count. -/
theorem kept_eq (samples : List α) (size : Nat) :
    (if samples.length > size then samples.drop (samples.length - size) else samples) =
      samples.rtake size := by
  split_ifs with hlong
  · rfl
  · rw [rtake_of_length_le (Nat.not_lt.mp hlong)]

omit [Inhabited α] in
/-- What a packet, cut to the size of the buffer, does to the buffer. -/
theorem copied_view {audio samples : List α} {pos : Nat} (hpos : pos < audio.length)
    (hfits : samples.length ≤ audio.length) :
    ∃ audio', (if pos + samples.length > audio.length then
        (copy audio pos samples 0 (audio.length - pos)).bind fun audio' =>
          copy audio' 0 samples (audio.length - pos) (samples.length - (audio.length - pos))
      else copy audio pos samples 0 samples.length) = some audio' ∧
      audio'.length = audio.length ∧
      view audio' ((pos + samples.length) % audio.length) =
        (view audio pos ++ samples).drop samples.length := by
  split_ifs with hwrap
  · -- the first part fills the buffer to its end, the rest goes to its front
    have htaken : (audio.take pos).length = pos := List.length_take_of_le (Nat.le_of_lt hpos)
    have hnew : (samples.take (audio.length - pos)).length = audio.length - pos :=
      List.length_take_of_le (by omega)
    have hfirst : copy audio pos samples 0 (audio.length - pos) =
        some (audio.take pos ++ samples.take (audio.length - pos)) := by
      rw [copy_eq (by omega) (by omega), List.drop_zero, List.drop_eq_nil_of_le (by omega),
        List.append_nil]
    refine ⟨_, by
      rw [hfirst, Option.bind_some, copy_eq (by rw [List.length_append]; omega) (by omega)], ?_, ?_⟩
    · simp only [List.length_append, List.length_take, List.length_drop, Nat.zero_add]
      omega
    · rw [← view_wrap hpos hwrap hfits, List.take_zero, List.nil_append, Nat.zero_add,
        List.take_of_length_le (by rw [List.length_drop])]
  · refine ⟨_, by rw [copy_eq (by omega) (by omega)], ?_, ?_⟩
    · simp only [List.length_append, List.length_take, List.length_drop]
      omega
    · rw [← view_write (by omega), List.drop_zero, List.take_length]

omit [Inhabited α] in
theorem Holds.appendSamples {appended : List α} (h : a.Holds appended) (samples : List α) :
    ∃ a', a.appendSamples samples = some a' ∧ a'.Holds (appended ++ samples) ∧
      a'.audio.length = a.audio.length ∧ a'.lenMs = a.lenMs ∧ a'.sampleRate = a.sampleRate := by
  obtain ⟨hfits, hpos, hlen, hlast⟩ := h
  have hkept : (samples.rtake a.audio.length).length = min a.audio.length samples.length :=
    rtake_length _ _
  generalize hnew : samples.rtake a.audio.length = kept at hkept
  obtain ⟨audio', hcopied, hsize, hview⟩ := copied_view hpos (show kept.length ≤ _ by omega)
  refine ⟨⟨a.lenMs, a.sampleRate, audio', (a.audioPos + kept.length) % a.audio.length,
      if a.audioLen + kept.length < a.audio.length then a.audioLen + kept.length
      else a.audio.length⟩, ?_, ⟨?_, ?_, ?_, ?_⟩, hsize, rfl, rfl⟩
  · unfold AudioAsync.appendSamples
    dsimp only
    rw [kept_eq, hnew, hcopied]
    rfl
  · exact hsize ▸ hfits
  · dsimp only
    rw [hsize]
    exact Nat.mod_lt _ (Nat.zero_lt_of_lt hpos)
  · dsimp only
    rw [hsize, List.length_append]
    split_ifs <;> omega
  · have hlong : (appended ++ samples).length = appended.length + samples.length :=
      List.length_append
    have hlen' : (if a.audioLen + kept.length < a.audio.length then a.audioLen + kept.length
        else a.audio.length) = min (appended.length + samples.length) a.audio.length := by
      split_ifs <;> omega
    dsimp only
    rw [hview, hlen', rtake_drop (by rw [List.length_append, view_length]; omega), ← hnew]
    rcases Nat.le_total a.audio.length samples.length with hover | hunder
    · -- nothing but the packet is left
      rw [Nat.min_eq_right (by omega), rtake_append_of_le (by rw [rtake_length]; omega),
        rtake_append_of_le hover, rtake_rtake (Nat.le_refl _)]
    · rw [rtake_of_length_le hunder, rtake_append_of_ge (by omega),
        rtake_append_of_ge (by omega)]
      congr 1
      have hless : min (appended.length + samples.length) a.audio.length - samples.length ≤
          a.audioLen := by omega
      rw [← rtake_rtake hless, hlast, rtake_rtake hless]

omit [Inhabited α] in
theorem Holds.clear {appended : List α} (h : a.Holds appended) : a.clear.Holds [] where
  fits := h.fits
  pos := Nat.zero_lt_of_lt h.pos
  len := (Nat.zero_min _).symm
  last := by simp [AudioAsync.clear]

theorem toSize_of_nonneg {x : Int} (h : 0 ≤ x) (hlt : x < 2 ^ 64) : toSize x = x.toNat := by
  unfold toSize
  omega

theorem init_length {lenMs sampleRate : Int} (hlen : 0 ≤ sampleRate * lenMs)
    (hfits : sampleRate * lenMs < 2 ^ 31) :
    (init lenMs sampleRate : AudioAsync α).audio.length = (sampleRate * lenMs / 1000).toNat := by
  dsimp only [init]
  rw [List.length_replicate, Int.tdiv_eq_ediv_of_nonneg hlen,
    toSize_of_nonneg (by omega) (by omega)]

theorem init_holds {lenMs sampleRate : Int} (hcapacity : 1 ≤ sampleRate * lenMs / 1000)
    (hfits : sampleRate * lenMs < 2 ^ 31) : (init lenMs sampleRate : AudioAsync α).Holds [] := by
  have hsize : (init lenMs sampleRate : AudioAsync α).audio.length = _ :=
    init_length (by omega) hfits
  exact ⟨by omega, by rw [hsize]; dsimp only [init]; omega, (Nat.zero_min _).symm, by simp [init]⟩

/-! ## Reading it -/

/-- The difference of two positions survives the detour through `size_t`. -/
theorem toInt_sub {pos n : Nat} (hpos : pos < 2 ^ 31) (hn : n ≤ 2 ^ 31) :
    toInt ((pos + 2 ^ 64 - n) % 2 ^ 64) = pos - n := by
  unfold toInt
  rw [Int.bmod_eq_emod]
  split_ifs <;> omega

theorem toInt_of_lt {n : Nat} (h : n < 2 ^ 31) : toInt n = n := by
  unfold toInt
  rw [Int.bmod_eq_emod]
  split_ifs <;> omega

omit [Inhabited α] in
/-- Where reading `n` samples back from the position starts. -/
theorem start_eq {pos size n : Nat} (hpos : pos < size) (hn : n ≤ size) (hsize : size < 2 ^ 31) :
    (if toInt ((pos + 2 ^ 64 - n) % 2 ^ 64) < 0 then
        toInt ((pos + 2 ^ 64 - n) % 2 ^ 64) + toInt size
      else toInt ((pos + 2 ^ 64 - n) % 2 ^ 64)) =
      if n ≤ pos then ((pos - n : Nat) : Int) else ((size + pos - n : Nat) : Int) := by
  rw [toInt_sub (by omega) (by omega), toInt_of_lt hsize]
  split_ifs <;> omega

omit [Inhabited α] in
/-- The copies of `get` are the last samples of the view. -/
theorem copied_last {audio result : List α} {pos n : Nat} (hpos : pos < audio.length)
    (hn : n ≤ audio.length) (hsize : audio.length < 2 ^ 31) (hresult : result.length = n) :
    (let s0 : Int :=
      if n ≤ pos then ((pos - n : Nat) : Int) else ((audio.length + pos - n : Nat) : Int)
    if (toSize s0 + n) % 2 ^ 64 > audio.length then
      (copy result 0 audio (toSize s0) (toSize (audio.length - s0))).bind fun result =>
        copy result (toSize (audio.length - s0)) audio 0
          (toSize (n - toSize (audio.length - s0)))
    else copy result 0 audio (toSize s0) n) = some ((view audio pos).rtake n) := by
  subst hresult
  dsimp only
  rcases Nat.lt_or_ge pos result.length with hlt | hle
  · rw [if_neg (Nat.not_le.mpr hlt), rtake_view_of_lt (Nat.le_of_lt hpos) (Nat.le_of_lt hlt) hn,
      toSize_of_nonneg (by omega) (by omega), Int.toNat_natCast,
      Nat.mod_eq_of_lt (by omega)]
    have hback : toSize (audio.length - ((audio.length + pos - result.length : Nat) : Int)) =
        audio.length - (audio.length + pos - result.length) := by
      rw [toSize_of_nonneg (by omega) (by omega)]
      omega
    rw [hback, toSize_of_nonneg (by omega) (by omega)]
    have hfront : ((result.length : Int) -
        ((audio.length - (audio.length + pos - result.length) : Nat) : Int)).toNat =
        result.length - (audio.length - (audio.length + pos - result.length)) := by omega
    split_ifs with hwrap
    · rw [hfront, copy_halves (by omega) (by omega) (by omega)]
      congr 2
      congr 1
      omega
    · -- read from the front of the position, which is the front of the buffer
      obtain rfl : pos = 0 := by omega
      rw [copy_whole (by omega), List.take_zero, List.append_nil,
        List.take_of_length_le (by rw [List.length_drop]; omega)]
  · rw [if_pos hle, rtake_view_of_le (Nat.le_of_lt hpos) hle,
      toSize_of_nonneg (by omega) (by omega), Int.toNat_natCast, Nat.mod_eq_of_lt (by omega),
      if_neg (by omega), copy_whole (by omega)]

/-- **What `get` answers**: the last samples appended, as many as were asked for and are
    there. -/
theorem Holds.get {appended : List α} (h : a.Holds appended) {ms : Int}
    (hwanted : 0 ≤ a.sampleRate * (if ms ≤ 0 then a.lenMs else ms))
    (hfits : a.sampleRate * (if ms ≤ 0 then a.lenMs else ms) < 2 ^ 31) :
    a.get ms = some (appended.rtake
      (min (a.sampleRate * (if ms ≤ 0 then a.lenMs else ms) / 1000).toNat
        (min appended.length a.audio.length))) := by
  obtain ⟨hsize, hpos, hlen, hlast⟩ := h
  have hasked : toSize ((a.sampleRate * (if ms ≤ 0 then a.lenMs else ms)).tdiv 1000) =
      (a.sampleRate * (if ms ≤ 0 then a.lenMs else ms) / 1000).toNat := by
    rw [Int.tdiv_eq_ediv_of_nonneg hwanted, toSize_of_nonneg (by omega) (by omega)]
  generalize (a.sampleRate * (if ms ≤ 0 then a.lenMs else ms) / 1000).toNat = asked at hasked ⊢
  have hcount : (if asked < a.audioLen then asked else a.audioLen) =
      min asked (min appended.length a.audio.length) := by
    split_ifs <;> omega
  unfold AudioAsync.get
  dsimp only
  rw [hasked, hcount]
  generalize hn : min asked (min appended.length a.audio.length) = n
  rw [start_eq hpos (by omega) hsize, copied_last hpos (by omega) hsize List.length_replicate]
  have hless : n ≤ a.audioLen := by omega
  rw [← rtake_rtake hless, hlast, rtake_rtake hless]

/-! ## Any sequence of calls -/

/-- One call, under the mutex. -/
inductive Call (α : Type) where
  | append (samples : List α)
  | clear
  | get (ms : Int)

def call (a : AudioAsync α) : Call α → Option (AudioAsync α)
  | .append samples => a.appendSamples samples
  | .clear => some a.clear
  | .get ms => (a.get ms).map fun _ => a

/-- The buffer after the calls, if none of them copies past a buffer. -/
def run (a : AudioAsync α) : List (Call α) → Option (AudioAsync α)
  | [] => some a
  | c :: calls => (a.call c).bind fun a' => run a' calls

omit [Inhabited α] in
/-- The samples appended since the last clear, when `appended` were there before. -/
def since (appended : List α) : List (Call α) → List α
  | [] => appended
  | .append samples :: calls => since (appended ++ samples) calls
  | .clear :: calls => since [] calls
  | .get _ :: calls => since appended calls

/-- A buffer of a sample at least, asked for no more than an `int` can count. -/
structure Sized (a : AudioAsync α) : Prop where
  rate : 0 < a.sampleRate
  len : 0 ≤ a.sampleRate * a.lenMs
  fits : a.sampleRate * a.lenMs < 2 ^ 31

omit [Inhabited α] in
theorem Sized.wanted {a : AudioAsync α} (h : a.Sized) {ms : Int}
    (hms : a.sampleRate * ms < 2 ^ 31) :
    0 ≤ a.sampleRate * (if ms ≤ 0 then a.lenMs else ms) ∧
      a.sampleRate * (if ms ≤ 0 then a.lenMs else ms) < 2 ^ 31 := by
  split_ifs with hdefault
  · exact ⟨h.len, h.fits⟩
  · exact ⟨Int.mul_nonneg (Int.le_of_lt h.rate) (by omega), hms⟩

/-- Every run of calls succeeds and keeps the buffer and the samples together. -/
theorem run_holds {appended : List α} (h : a.Holds appended) (hsized : a.Sized)
    (calls : List (Call α)) (hcalls : ∀ ms, .get ms ∈ calls → a.sampleRate * ms < 2 ^ 31) :
    ∃ a', a.run calls = some a' ∧ a'.Holds (since appended calls) ∧
      a'.audio.length = a.audio.length ∧ a'.lenMs = a.lenMs ∧ a'.sampleRate = a.sampleRate := by
  induction calls generalizing a appended with
  | nil => exact ⟨a, rfl, h, rfl, rfl, rfl⟩
  | cons c calls ih =>
    have hrest : ∀ ms, .get ms ∈ calls → a.sampleRate * ms < 2 ^ 31 :=
      fun ms hms => hcalls ms (List.mem_cons_of_mem c hms)
    cases c with
    | append samples =>
      obtain ⟨a₁, hcall, hholds, hsize, hlen, hrate⟩ := h.appendSamples samples
      have hsized₁ : a₁.Sized :=
        ⟨hrate ▸ hsized.rate, by rw [hrate, hlen]; exact hsized.len,
          by rw [hrate, hlen]; exact hsized.fits⟩
      obtain ⟨a', hrun, hholds', hsize', hlen', hrate'⟩ :=
        ih hholds hsized₁ (fun ms hms => hrate ▸ hrest ms hms)
      refine ⟨a', ?_, hholds', hsize'.trans hsize, hlen'.trans hlen, hrate'.trans hrate⟩
      rw [run, call, hcall, Option.bind_some, hrun]
    | clear =>
      obtain ⟨a', hrun, hholds⟩ := ih h.clear ⟨hsized.rate, hsized.len, hsized.fits⟩ hrest
      exact ⟨a', hrun, hholds⟩
    | get ms =>
      obtain ⟨hwanted, hfits⟩ := hsized.wanted (hcalls ms List.mem_cons_self)
      obtain ⟨a', hrun, hholds⟩ := ih h hsized hrest
      refine ⟨a', ?_, hholds⟩
      rw [run, call, h.get hwanted hfits, Option.map_some, Option.bind_some, hrun]

/-- **The buffer is the last samples that came.** After any calls, packets larger than the
    buffer included, `get` answers exactly the last samples appended since the last clear,
    as many as were asked for, there are, and the buffer has room for; and no copy on the
    way, nor in that `get`, leaves a buffer. -/
theorem get_exact (lenMs sampleRate : Int) (hrate : 0 < sampleRate)
    (hfits : sampleRate * lenMs < 2 ^ 31) (hcapacity : 1 ≤ sampleRate * lenMs / 1000)
    (calls : List (Call α)) (hcalls : ∀ ms, .get ms ∈ calls → sampleRate * ms < 2 ^ 31)
    (ms : Int) (hms : sampleRate * ms < 2 ^ 31) :
    ∃ a', (init lenMs sampleRate).run calls = some a' ∧
      a'.get ms = some ((since [] calls).rtake
        (min (sampleRate * (if ms ≤ 0 then lenMs else ms) / 1000).toNat
          (min (since [] calls).length (sampleRate * lenMs / 1000).toNat))) := by
  have hsized : (init lenMs sampleRate : AudioAsync α).Sized :=
    ⟨hrate, by dsimp [init]; omega, hfits⟩
  have hsize : (init lenMs sampleRate : AudioAsync α).audio.length = _ :=
    init_length (by omega) hfits
  obtain ⟨a', hrun, hholds, hsize', hlen', hrate'⟩ :=
    run_holds (init_holds hcapacity hfits) hsized calls hcalls
  obtain ⟨hwanted, hfits'⟩ := hsized.wanted hms
  have hlen : a'.lenMs = lenMs := hlen'
  have hrate : a'.sampleRate = sampleRate := hrate'
  refine ⟨a', hrun, ?_⟩
  rw [hholds.get (by rw [hlen, hrate]; exact hwanted) (by rw [hlen, hrate]; exact hfits'), hlen,
    hrate, hsize', hsize]

/-- Three samples of room, a packet of five, and two milliseconds of it. -/
theorem get_exact_overrun :
    ∃ a', (init 3 1000 : AudioAsync Nat).run [.append [1, 2, 3, 4, 5]] = some a' ∧
      a'.get 2 = some [4, 5] := by
  obtain ⟨a', hrun, hget⟩ := get_exact 3 1000 (by decide) (by decide) (by decide)
    [.append [1, 2, 3, 4, 5]] (by simp) 2 (by decide)
  exact ⟨a', hrun, hget⟩

end AudioAsync

end Loopback
end LocalMeetingStt
