import Mathlib.Data.List.Basic
import Mathlib.Tactic.Linarith

/-!
# Which samples a streaming step sees (`run_nemotron.py`, `chunk_plan`)

A recording is fed to the recognizer some frames at a time, and each plan says how many
samples have to be there for its frames. The frames always come out right: they follow one
another from 0 and reach past the last whole frame of the recording. The samples need not.
The last window ends half a transform behind the start of its last frame, and the samples
behind the last whole frame may be more than that.

They are dropped exactly where the frames end with the last whole frame and more than 96
samples follow it (`chunkPlan_covers_iff`).
-/

namespace LocalMeetingStt
namespace Benchmarks

/-- One `yield`. -/
structure Plan where
  frame : Nat
  frames : Nat
  start : Int
  stop : Int
  first : Bool
  availableSamples : Int
deriving DecidableEq, Repr

section

variable (length firstFrames subsequentFrames hop nFft : Nat)

def totalFrames : Nat := max 1 (length / hop)

def planAt (frame : Nat) : Plan :=
  let first := decide (frame = 0)
  let frames := if first then firstFrames else subsequentFrames
  let start : Int := if first then 0 else frame * hop - (nFft / 2 : Nat)
  let stop : Int := ((frame : Int) + frames - 1) * hop + (nFft / 2 : Nat)
  { frame, frames, start, stop, first, availableSamples := min stop length }

/-- The plans of the `while` loop from `frame` on, of at most `fuel` turns; none if it
    wants more. -/
def chunkPlan : Nat → Nat → Option (List Plan)
  | fuel, frame =>
    if frame < totalFrames length hop then
      match fuel with
      | 0 => none
      | fuel + 1 =>
        let plan := planAt length firstFrames subsequentFrames hop nFft frame
        (chunkPlan fuel (frame + plan.frames)).map (plan :: ·)
    else some []

/-- The generator yields these plans and ends. -/
def Yields (plans : List Plan) : Prop :=
  ∃ fuel, chunkPlan length firstFrames subsequentFrames hop nFft fuel 0 = some plans

end

/-! ## Plans that follow one another -/

/-- The frame ranges fill `[frame, stop)`, each where the one before it ends. -/
def Tiles : Nat → List Plan → Nat → Prop
  | frame, [], stop => frame = stop
  | frame, plan :: plans, stop =>
    plan.frame = frame ∧ 0 < plan.frames ∧ Tiles (frame + plan.frames) plans stop

theorem Tiles.le {frame stop : Nat} {plans : List Plan} (h : Tiles frame plans stop) :
    frame ≤ stop := by
  induction plans generalizing frame with
  | nil => exact Nat.le_of_eq h
  | cons plan plans ih => exact (Nat.le_add_right _ _).trans (ih h.2.2)

theorem Tiles.mem {frame stop : Nat} {plans : List Plan} (h : Tiles frame plans stop)
    {plan : Plan} (hplan : plan ∈ plans) :
    frame ≤ plan.frame ∧ 0 < plan.frames ∧ plan.frame + plan.frames ≤ stop := by
  induction plans generalizing frame with
  | nil => exact absurd hplan List.not_mem_nil
  | cons head plans ih =>
    obtain ⟨rfl, hframes, hrest⟩ := h
    rcases List.mem_cons.mp hplan with rfl | hmem
    · exact ⟨Nat.le_refl _, hframes, hrest.le⟩
    · obtain ⟨hfrom, hrest'⟩ := ih hrest hmem
      exact ⟨(Nat.le_add_right _ _).trans hfrom, hrest'⟩

theorem Tiles.pairwise {frame stop : Nat} {plans : List Plan} (h : Tiles frame plans stop) :
    plans.Pairwise fun before after => before.frame + before.frames ≤ after.frame := by
  induction plans generalizing frame with
  | nil => exact .nil
  | cons plan plans ih =>
    obtain ⟨rfl, -, hrest⟩ := h
    exact .cons (fun after hafter => (hrest.mem hafter).1) (ih hrest)

/-- The last plan ends where the tiling does. -/
theorem Tiles.last {frame stop : Nat} {plans : List Plan} (h : Tiles frame plans stop)
    (hne : frame < stop) :
    ∃ plan, plans.getLast? = some plan ∧ plan.frame + plan.frames = stop := by
  induction plans generalizing frame with
  | nil => exact absurd h (Nat.ne_of_lt hne)
  | cons plan plans ih =>
    obtain ⟨rfl, hframes, hrest⟩ := h
    cases plans with
    | nil => exact ⟨plan, rfl, hrest⟩
    | cons next plans =>
      have hlt : plan.frame + plan.frames < stop :=
        (Nat.lt_add_of_pos_right hrest.2.1).trans_le hrest.2.2.le
      obtain ⟨last, hlast, hstop⟩ := ih hrest hlt
      exact ⟨last, by rw [List.getLast?_cons_cons, hlast], hstop⟩

/-! ## The loop -/

section

variable {length firstFrames subsequentFrames hop nFft : Nat}

theorem chunkPlan_done {fuel frame : Nat} (h : totalFrames length hop ≤ frame) :
    chunkPlan length firstFrames subsequentFrames hop nFft fuel frame = some [] := by
  unfold chunkPlan
  exact if_neg (Nat.not_lt.mpr h)

theorem chunkPlan_next {fuel frame : Nat} (h : frame < totalFrames length hop) :
    chunkPlan length firstFrames subsequentFrames hop nFft (fuel + 1) frame =
      (chunkPlan length firstFrames subsequentFrames hop nFft fuel
        (frame + (planAt length firstFrames subsequentFrames hop nFft frame).frames)).map
        (planAt length firstFrames subsequentFrames hop nFft frame :: ·) := by
  rw [chunkPlan]
  exact if_pos h

/-- More fuel yields the same. -/
theorem chunkPlan_more {fuel more frame : Nat} {plans : List Plan}
    (h : chunkPlan length firstFrames subsequentFrames hop nFft fuel frame = some plans)
    (hmore : fuel ≤ more) :
    chunkPlan length firstFrames subsequentFrames hop nFft more frame = some plans := by
  induction fuel generalizing more frame plans with
  | zero =>
    by_cases hgoes : frame < totalFrames length hop
    · unfold chunkPlan at h
      rw [if_pos hgoes] at h
      cases h
    · rw [chunkPlan_done (Nat.not_lt.mp hgoes)] at h ⊢
      exact h
  | succ fuel ih =>
    by_cases hgoes : frame < totalFrames length hop
    · obtain ⟨more, rfl⟩ := Nat.exists_eq_add_of_le' (Nat.one_le_of_lt hmore)
      rw [chunkPlan_next hgoes] at h ⊢
      obtain ⟨rest, hrest, rfl⟩ := Option.map_eq_some_iff.mp h
      rw [ih hrest (Nat.le_of_succ_le_succ hmore)]
      rfl
    · rw [chunkPlan_done (Nat.not_lt.mp hgoes)] at h ⊢
      exact h

theorem Yields.unique {plans plans' : List Plan}
    (h : Yields length firstFrames subsequentFrames hop nFft plans)
    (h' : Yields length firstFrames subsequentFrames hop nFft plans') : plans = plans' := by
  obtain ⟨fuel, hplans⟩ := h
  obtain ⟨fuel', hplans'⟩ := h'
  have heq := chunkPlan_more hplans (Nat.le_max_left fuel fuel')
  rw [chunkPlan_more hplans' (Nat.le_max_right fuel fuel')] at heq
  exact (Option.some.inj heq).symm

variable (length hop nFft)

/-- **What the loop yields from a later frame on**: plans of `planAt` that fill whole steps
    up to the first end of one that is not below the last frame. -/
theorem chunkPlan_from (hsubsequent : 0 < subsequentFrames) {fuel frame : Nat}
    (hframe : 0 < frame) (hfuel : totalFrames length hop ≤ frame + fuel) :
    ∃ plans stop, chunkPlan length firstFrames subsequentFrames hop nFft fuel frame = some plans ∧
      Tiles frame plans stop ∧ totalFrames length hop ≤ stop ∧ subsequentFrames ∣ stop - frame ∧
      (stop = frame ∨ stop < totalFrames length hop + subsequentFrames) ∧
      ∀ plan ∈ plans, plan = planAt length firstFrames subsequentFrames hop nFft plan.frame := by
  induction fuel generalizing frame with
  | zero =>
    refine ⟨[], frame, chunkPlan_done hfuel, rfl, hfuel, by simp, .inl rfl, ?_⟩
    exact fun plan hplan => absurd hplan List.not_mem_nil
  | succ fuel ih =>
    by_cases hgoes : frame < totalFrames length hop
    · have hframes : (planAt length firstFrames subsequentFrames hop nFft frame).frames =
          subsequentFrames := by
        simp [planAt, Nat.ne_of_gt hframe]
      have hnext : 0 < frame + subsequentFrames := Nat.add_pos_left hframe _
      obtain ⟨plans, stop, hplans, htiles, hend, hsteps, hstop, hall⟩ := ih hnext (by omega)
      have hle := htiles.le
      refine ⟨_ :: plans, stop, by rw [chunkPlan_next hgoes, hframes, hplans]; rfl,
        ⟨rfl, hframes ▸ hsubsequent, hframes.symm ▸ htiles⟩, hend, ?_, ?_, ?_⟩
      · obtain ⟨steps, hsteps⟩ := hsteps
        exact ⟨steps + 1, by rw [Nat.mul_succ]; omega⟩
      · exact .inr (by omega)
      · intro plan hplan
        rcases List.mem_cons.mp hplan with rfl | hmem
        · rfl
        · exact hall plan hmem
    · have hdone := Nat.not_lt.mp hgoes
      refine ⟨[], frame, chunkPlan_done hdone, rfl, hdone, by simp, .inl rfl, ?_⟩
      exact fun plan hplan => absurd hplan List.not_mem_nil

/-- The frames end with the last whole frame of the recording. -/
def Aligned (firstFrames subsequentFrames total : Nat) : Prop :=
  firstFrames = total ∨ (firstFrames < total ∧ subsequentFrames ∣ total - firstFrames)

/-- **What the generator yields**, and where it ends. -/
theorem exists_yields (hfirst : 0 < firstFrames) (hsubsequent : 0 < subsequentFrames) :
    ∃ plans stop, Yields length firstFrames subsequentFrames hop nFft plans ∧
      Tiles 0 plans stop ∧ totalFrames length hop ≤ stop ∧
      (stop = totalFrames length hop ↔
        Aligned firstFrames subsequentFrames (totalFrames length hop)) ∧
      ∀ plan ∈ plans, plan = planAt length firstFrames subsequentFrames hop nFft plan.frame := by
  have htotal : 0 < totalFrames length hop := Nat.lt_of_lt_of_le Nat.one_pos (Nat.le_max_left _ _)
  obtain ⟨plans, stop, hplans, htiles, hend, ⟨steps, hsteps⟩, hstop, hall⟩ :=
    chunkPlan_from length hop nFft hsubsequent hfirst
      (Nat.le_add_left (totalFrames length hop) firstFrames)
  have hle := htiles.le
  have hframes : (planAt length firstFrames subsequentFrames hop nFft 0).frames = firstFrames :=
    rfl
  refine ⟨planAt length firstFrames subsequentFrames hop nFft 0 :: plans, stop,
    ⟨totalFrames length hop + 1, ?_⟩, ⟨rfl, hfirst, ?_⟩, hend, ?_, ?_⟩
  · rw [chunkPlan_next htotal, hframes, Nat.zero_add, hplans]
    rfl
  · rw [hframes, Nat.zero_add]
    exact htiles
  · unfold Aligned
    constructor
    · rintro rfl
      rcases Nat.eq_or_lt_of_le hle with heq | hlt
      · exact .inl heq
      · exact .inr ⟨hlt, steps, hsteps⟩
    · rintro (rfl | ⟨hlt, more, hmore⟩)
      · -- the first plan is the only one
        rcases hstop with heq | hbelow
        · exact heq
        · rcases Nat.eq_zero_or_pos steps with rfl | hpos
          · omega
          · have := Nat.le_mul_of_pos_right subsequentFrames hpos
            omega
      · rcases hstop with heq | hbelow
        · omega
        · -- both ends are whole steps behind the first plan, and less than one step apart
          have hdvd : subsequentFrames ∣ stop - totalFrames length hop :=
            (Nat.dvd_sub (Dvd.intro steps hsteps.symm) (Dvd.intro more hmore.symm)).trans
              (dvd_of_eq (by omega))
          have := Nat.eq_zero_of_dvd_of_lt hdvd (by omega)
          omega
  · intro plan hplan
    rcases List.mem_cons.mp hplan with rfl | hmem
    · rfl
    · exact hall plan hmem

end

/-! ## The samples -/

/-- What a run of plans owes a recording: frames without a gap from 0 past the last whole
    frame, and samples that become more, are there, and end with the recording. -/
structure Covers (length hop : Nat) (plans : List Plan) : Prop where
  tiles : ∃ stop, Tiles 0 plans stop ∧ totalFrames length hop ≤ stop
  sorted : plans.Pairwise fun before after => before.availableSamples ≤ after.availableSamples
  bounded : ∀ plan ∈ plans, plan.availableSamples ≤ length
  last : ∃ plan, plans.getLast? = some plan ∧ plan.availableSamples = length

section

variable {length firstFrames subsequentFrames : Nat}

theorem planAt_available (length firstFrames subsequentFrames frame : Nat) :
    (planAt length firstFrames subsequentFrames 160 512 frame).availableSamples =
      min (((frame : Int) +
        (planAt length firstFrames subsequentFrames 160 512 frame).frames - 1) * 160 + 256)
        length := rfl

/-- Plans in order ask for samples in order. -/
theorem Tiles.sorted {frame stop : Nat} {plans : List Plan} (h : Tiles frame plans stop)
    (hall : ∀ plan ∈ plans,
      plan = planAt length firstFrames subsequentFrames 160 512 plan.frame) :
    plans.Pairwise fun before after => before.availableSamples ≤ after.availableSamples := by
  refine h.pairwise.imp_of_mem fun {before after} hbefore hafter hle => ?_
  obtain ⟨-, hframes, -⟩ := h.mem hafter
  have hbefore' := planAt_available length firstFrames subsequentFrames before.frame
  have hafter' := planAt_available length firstFrames subsequentFrames after.frame
  rw [← hall before hbefore] at hbefore'
  rw [← hall after hafter] at hafter'
  omega

/-- **Exactly which recordings lose their last samples.** Those of more than 96 samples
    behind the last whole frame, where a plan ends with that frame. -/
theorem chunkPlan_covers_iff (hlength : 0 < length) (hfirst : 0 < firstFrames)
    (hsubsequent : 0 < subsequentFrames) :
    (∃ plans, Yields length firstFrames subsequentFrames 160 512 plans ∧
      Covers length 160 plans) ↔
    length < 160 ∨ length % 160 ≤ 96 ∨
      ¬Aligned firstFrames subsequentFrames (totalFrames length 160) := by
  obtain ⟨plans, stop, hyields, htiles, hend, haligned, hall⟩ :=
    exists_yields length 160 512 hfirst hsubsequent
  have htotal : totalFrames length 160 = max 1 (length / 160) := rfl
  obtain ⟨last, hlast, hstop⟩ := htiles.last (by omega)
  have hmem : last ∈ plans := List.mem_of_getLast? hlast
  have havailable := planAt_available length firstFrames subsequentFrames last.frame
  rw [← hall last hmem] at havailable
  rw [← haligned]
  constructor
  · rintro ⟨plans', hyields', hcovers⟩
    obtain rfl := hyields.unique hyields'
    obtain ⟨last', hlast', hwhole⟩ := hcovers.last
    obtain rfl : last = last' := Option.some.inj (hlast.symm.trans hlast')
    omega
  · intro hcond
    refine ⟨plans, hyields, ⟨stop, htiles, hend⟩, htiles.sorted hall, fun plan hplan => ?_,
      last, hlast, by omega⟩
    have hplan' := planAt_available length firstFrames subsequentFrames plan.frame
    rw [← hall plan hplan] at hplan'
    omega

end

theorem chunkPlan_covers_iff_twoSeconds :
    ∃ plans, Yields 32000 25 32 160 512 plans ∧ Covers 32000 160 plans :=
  (chunkPlan_covers_iff (by decide) (by decide) (by decide)).mpr (.inr (.inl (by decide)))

/-- **One frame and a half, in plans of one frame**: the last 1 of 257 samples is dropped. -/
theorem chunkPlan_drops_tail :
    ¬∀ length firstFrames subsequentFrames : Nat, 0 < length → 0 < firstFrames →
      0 < subsequentFrames →
      ∃ plans, Yields length firstFrames subsequentFrames 160 512 plans ∧
        Covers length 160 plans := by
  intro hclaim
  obtain ⟨plans, hyields, hcovers⟩ := hclaim 257 1 1 (by decide) (by decide) (by decide)
  have hone : Yields 257 1 1 160 512 [planAt 257 1 1 160 512 0] := ⟨1, by decide⟩
  obtain rfl := hone.unique hyields
  obtain ⟨last, hlast, hwhole⟩ := hcovers.last
  obtain rfl : planAt 257 1 1 160 512 0 = last := Option.some.inj hlast
  revert hwhole
  decide

end Benchmarks
end LocalMeetingStt
