import LocalMeetingStt.Captions.Spacing

/-!
# Collapsed repeats, and texts cleaned twice

`collapse_repeats` runs one pass for each unit from 2 to 24 characters. A pass keeps one
copy of a repeated unit, so it brings the end of that copy next to what stood behind the
last one — which is where the last copy's end stood too. Windows of the text up to one
character longer than the unit are therefore old (`window_of_collapse`), and what
`Spaced` and `SpaceNormal` say is about windows of two and three.

A double gap is a window of five. That a pass makes none takes the two short units apart:
a unit of two or three inside a double gap, standing four times in a row, would itself be
a double gap or two spaces in a row.
-/

namespace LocalMeetingStt

open Scan

/-! ## One collapsing pass -/

theorem countRepeats_prefix (pattern : Text) (fuel : Nat) (t : Text) :
    (List.replicate (countRepeats pattern fuel t) pattern).flatten <+: t := by
  induction fuel generalizing t with
  | zero => simp [countRepeats]
  | succ fuel ih =>
    simp only [countRepeats]
    split_ifs with h
    · obtain ⟨rest, rfl⟩ := h
      have := ih rest
      simpa [List.replicate_succ] using this
    · simp

/-- What a collapsing pass recognizes: a unit and three or more copies of it. -/
theorem repeatMatch_some {u n : Nat} {t r : Text} (h : repeatMatch u t = some (r, n)) :
    ∃ k rest, t = (List.replicate (k + 4) r).flatten ++ rest ∧ r.length = u ∧
      n = u * (k + 4) := by
  simp only [repeatMatch] at h
  split_ifs at h with hlen hnl hrepeats
  obtain ⟨rfl, rfl⟩ := Prod.mk.inj (Option.some.inj h)
  obtain ⟨rest, hrest⟩ := countRepeats_prefix (t.take u) t.length t
  obtain ⟨k, hk⟩ := Nat.exists_eq_add_of_le' hrepeats
  rw [hk] at hrest ⊢
  exact ⟨k, rest, hrest.symm, by simp; omega, rfl⟩

theorem repeatMatch_drop {u n : Nat} {t r : Text} (h : repeatMatch u t = some (r, n)) :
    ∃ k, t = (List.replicate (k + 4) r).flatten ++ t.drop n ∧ r.length = u := by
  obtain ⟨k, rest, heq, hlen, rfl⟩ := repeatMatch_some h
  refine ⟨k, ?_, hlen⟩
  have hflat : (List.replicate (k + 4) r).flatten.length = u * (k + 4) := by
    simp [hlen, Nat.mul_comm]
  conv_rhs => rw [heq]
  rw [← hflat, List.drop_left, heq]

theorem repeatMatch_line {u n : Nat} {t r : Text} (h : repeatMatch u t = some (r, n)) :
    '\n' ∉ r := by
  simp only [repeatMatch] at h
  split_ifs at h with hlen hnl hrepeats
  obtain ⟨rfl, rfl⟩ := Prod.mk.inj (Option.some.inj h)
  simpa using hnl

theorem repeatMatch_progress {u : Nat} (hu : 0 < u) : Progress (repeatMatch u) where
  nil := by simp [repeatMatch]; omega
  pos h := by
    obtain ⟨k, -, -, -, rfl⟩ := repeatMatch_some h
    exact Nat.mul_pos hu (by omega)

/-- What is left is the last copy and what stood behind it. -/
theorem repeatMatch_shrinks {u n : Nat} {t r : Text} (h : repeatMatch u t = some (r, n)) :
    r ++ t.drop n <:+ t := by
  obtain ⟨k, heq, -⟩ := repeatMatch_drop h
  refine ⟨(List.replicate (k + 3) r).flatten, ?_⟩
  conv_rhs => rw [heq]
  simp [List.replicate_succ' (n := k + 3)]

/-- A pass changes nothing before the end of a unit. -/
theorem take_collapse {u : Nat} (hu : 0 < u) (t : Text) :
    (scan (repeatMatch u) t).take u = t.take u := by
  induction t using scan_induction (repeatMatch_progress hu) with
  | nil => rfl
  | hit t r n h _ =>
    have hm := repeatMatch_progress hu
    obtain ⟨k, heq, hlen⟩ := repeatMatch_drop h
    rw [scan_match h (hm.ne_nil h) (hm.pos h), List.take_left' hlen, heq]
    simp [List.replicate_succ, List.take_left' hlen]
  | copy x t h ih =>
    obtain ⟨v, rfl⟩ := Nat.exists_eq_add_of_le' hu
    have hv : (scan (repeatMatch (v + 1)) t).take v = t.take v := by
      simpa [List.take_take] using congrArg (List.take v) ih
    rw [scan_copy h, List.take_succ_cons, List.take_succ_cons, hv]

theorem head?_collapse {u : Nat} (hu : 0 < u) (t : Text) :
    (scan (repeatMatch u) t).head? = t.head? := by
  have hhead := congrArg List.head? (take_collapse hu t)
  rwa [List.head?_take, List.head?_take, if_neg hu.ne', if_neg hu.ne'] at hhead

theorem collapse_sublist {u : Nat} (hu : 0 < u) (t : Text) :
    (scan (repeatMatch u) t).Sublist t :=
  scan_sublist (repeatMatch_progress hu) (fun _ _ _ h => (repeatMatch_shrinks h).sublist) t

theorem prefix_of_collapse {u : Nat} (hu : 0 < u) {v t : Text} (hlen : v.length ≤ u)
    (h : v <+: scan (repeatMatch u) t) : v <+: t := by
  have htake : v <+: (scan (repeatMatch u) t).take u := List.prefix_take_iff.mpr ⟨h, hlen⟩
  rw [take_collapse hu] at htake
  exact (List.prefix_take_iff.mp htake).1

theorem window_of_collapse {u : Nat} (hu : 0 < u) {w t : Text} (hlen : w.length ≤ u + 1)
    (h : w <:+: scan (repeatMatch u) t) : w <:+: t := by
  refine infix_of_scan (repeatMatch_progress hu) (fun _ _ _ => repeatMatch_shrinks) ?_ h
  intro v xs _ hvw hne hv
  have hle := hvw.length_le
  have hlt : v.length ≠ w.length := fun heq => hne (hvw.eq_of_length heq)
  exact prefix_of_collapse hu (by omega) hv

theorem getLast?_collapse {u : Nat} (hu : 0 < u) (t : Text) :
    (scan (repeatMatch u) t).getLast? = t.getLast? := by
  have hm := repeatMatch_progress hu
  induction t using scan_induction hm with
  | nil => rfl
  | hit t r n h ih =>
    obtain ⟨k, heq, hlen⟩ := repeatMatch_drop h
    rw [scan_match h (hm.ne_nil h) (hm.pos h), List.getLast?_append, ih]
    conv_rhs => rw [heq, List.replicate_succ', List.flatten_append, List.append_assoc]
    simp [Option.or_assoc]
  | copy x t h ih => rw [scan_copy h, List.getLast?_cons, ih, List.getLast?_cons]

/-! ## What a pass keeps -/

variable {u : Nat} {t : Text}

theorem Spaced.collapse (hu : 2 ≤ u) (h : Spaced t) : Spaced (scan (repeatMatch u) t) where
  head := by
    intro c r hcr
    have hprefix : [c] <+: scan (repeatMatch u) t := ⟨r, hcr.symm⟩
    obtain ⟨rest, hrest⟩ := prefix_of_collapse (by omega) (by simp; omega) hprefix
    exact h.head c rest hrest.symm
  last := by
    intro c hc
    rw [getLast?_collapse (by omega)] at hc
    exact h.last c hc
  plain c hc := by
    have hwindow := (List.singleton_infix_iff c _).mpr hc
    exact h.plain c ((List.singleton_infix_iff c t).mp
      (window_of_collapse (by omega) (by simp) hwindow))
  single s c hw := h.single s c (window_of_collapse (by omega) (by simp; omega) hw)
  before_mark s p hw := h.before_mark s p (window_of_collapse (by omega) (by simp; omega) hw)
  after_opener o s hw := h.after_opener o s (window_of_collapse (by omega) (by simp; omega) hw)

theorem SpaceNormal.collapse (hu : 2 ≤ u) (h : SpaceNormal t) :
    SpaceNormal (scan (repeatMatch u) t) where
  toSpaced := h.toSpaced.collapse hu
  kana a s b hw := h.kana a s b (window_of_collapse (by omega) (by simp; omega) hw)

/-! ## Double gaps -/

/-- Two neighbours that the same unit repeated brings together stand in the text. -/
theorem window_repeated {r xs : Text} {k n : Nat}
    (h : xs = (List.replicate (k + 4) r).flatten ++ xs.drop n) (hxs : xs <:+ t) :
    r ++ (r ++ r) <:+: t := by
  refine .trans ⟨[], (List.replicate (k + 1) r).flatten ++ xs.drop n, ?_⟩ hxs.isInfix
  conv_rhs => rw [h]
  simp [List.replicate_succ]

section

variable {s b s' c : Char} {xs : Text}

theorem gap_tail_three (hu : 2 ≤ u) (hgap : NoDoubleGap t) (hb : isKanaOrHan b = true)
    (hs' : isWhitespace s' = true) (hxs : xs <:+ t)
    (h : [b, s', c] <+: scan (repeatMatch u) xs) : [b, s', c] <+: xs := by
  by_cases hthree : 3 ≤ u
  · exact prefix_of_collapse (by omega) (by simpa using hthree) h
  -- Only a unit of two characters is shorter than the window.
  obtain rfl : u = 2 := by omega
  have hm := repeatMatch_progress (u := 2) (by omega)
  cases hx : xs with
  | nil => simp [hx] at h
  | cons x rest =>
    subst hx
    cases hmatch : repeatMatch 2 (x :: rest) with
    | none =>
      rw [scan_copy hmatch, List.cons_prefix_cons] at h
      exact List.cons_prefix_cons.mpr ⟨h.1, prefix_of_collapse (by omega) (by simp) h.2⟩
    | some found =>
      obtain ⟨r, n⟩ := found
      obtain ⟨k, heq, hlen⟩ := repeatMatch_drop hmatch
      obtain ⟨p, q, rfl⟩ := List.length_eq_two.mp hlen
      rw [scan_match hmatch (hm.ne_nil hmatch) (hm.pos hmatch)] at h
      obtain ⟨rfl, rfl, -⟩ : b = p ∧ s' = q ∧ _ := by simpa using h
      have hwindow : [b, s', b, s', b] <:+: t :=
        .trans ⟨[], [s'], by simp⟩ (window_repeated heq hxs)
      simp [hgap b s' b s' b hwindow hb hs' hb hs'] at hb

theorem gap_tail_four (hu : 2 ≤ u) (hspaced : Spaced t) (hgap : NoDoubleGap t)
    (hs : isWhitespace s = true) (hb : isKanaOrHan b = true) (hs' : isWhitespace s' = true)
    (hxs : xs <:+ t) (h : [s, b, s', c] <+: scan (repeatMatch u) xs) : [s, b, s', c] <+: xs := by
  by_cases hfour : 4 ≤ u
  · exact prefix_of_collapse (by omega) (by simpa using hfour) h
  have hm := repeatMatch_progress (u := u) (by omega)
  cases hx : xs with
  | nil => simp [hx] at h
  | cons x rest =>
    subst hx
    cases hmatch : repeatMatch u (x :: rest) with
    | none =>
      rw [scan_copy hmatch, List.cons_prefix_cons] at h
      exact List.cons_prefix_cons.mpr
        ⟨h.1, gap_tail_three hu hgap hb hs' ((List.suffix_cons x rest).trans hxs) h.2⟩
    | some found =>
      obtain ⟨r, n⟩ := found
      obtain ⟨k, heq, hlen⟩ := repeatMatch_drop hmatch
      rw [scan_match hmatch (hm.ne_nil hmatch) (hm.pos hmatch)] at h
      have hwindow := window_repeated heq hxs
      -- A unit `s b` makes a double gap of its copies, and a unit `s b s'` two spaces.
      obtain rfl | rfl : u = 2 ∨ u = 3 := by omega
      · obtain ⟨p, q, rfl⟩ := List.length_eq_two.mp hlen
        obtain ⟨rfl, rfl, -⟩ : s = p ∧ b = q ∧ _ := by simpa using h
        have hdouble : [b, s, b, s, b] <:+: t := .trans ⟨[s], [], by simp⟩ hwindow
        simp [hgap b s b s b hdouble hb hs hb hs] at hb
      · obtain ⟨p, q, o, rfl⟩ := List.length_eq_three.mp hlen
        obtain ⟨rfl, rfl, rfl, -⟩ : s = p ∧ b = q ∧ s' = o ∧ _ := by simpa using h
        have hpair : [s', s] <:+: t := .trans ⟨[s, b], [b, s', s, b, s'], by simp⟩ hwindow
        simp [hspaced.single s' s hpair hs'] at hs

end

theorem NoDoubleGap.collapse (hu : 2 ≤ u) (hspaced : Spaced t) (hgap : NoDoubleGap t) :
    NoDoubleGap (scan (repeatMatch u) t) := by
  intro a s b s' c hw ha hs hb hs'
  refine hgap a s b s' c ?_ ha hs hb hs'
  refine infix_of_scan (repeatMatch_progress (by omega)) (fun _ _ _ => repeatMatch_shrinks) ?_ hw
  intro v xs hxs hvw hne hv
  -- The ends of the window: only those longer than the shortest unit are in question.
  rcases List.suffix_cons_iff.mp hvw with heq | hvw
  · exact absurd heq hne
  rcases List.suffix_cons_iff.mp hvw with rfl | hvw
  · exact gap_tail_four hu hspaced hgap hs hb hs' hxs hv
  rcases List.suffix_cons_iff.mp hvw with rfl | hvw
  · exact gap_tail_three hu hgap hb hs' hxs hv
  · have := hvw.length_le
    exact prefix_of_collapse (by omega) (by simp at this; omega) hv

/-! ## Texts cleaned once and twice -/

theorem collapseRepeats_induction {motive : Text → Prop}
    (h : ∀ u t, 2 ≤ u → motive t → motive (scan (repeatMatch u) t)) {t : Text} (ht : motive t) :
    motive (collapseRepeats t) := by
  unfold collapseRepeats
  refine List.foldlRecOn (List.range' 2 23) _ ht fun t ht u hu => ?_
  exact h u t (List.mem_range'_1.mp hu).1 ht

theorem spaced_clean (t : Text) :
    Spaced (cleanTranscriptText t) ∧ NoDoubleGap (cleanTranscriptText t) := by
  have hcollapsed : Spaced (collapseRepeats (normalizeJapaneseSpacing t)) ∧
      NoDoubleGap (collapseRepeats (normalizeJapaneseSpacing t)) :=
    collapseRepeats_induction (motive := fun t => Spaced t ∧ NoDoubleGap t)
      (fun _ _ hu ht => ⟨ht.1.collapse hu, ht.2.collapse hu ht.1⟩)
      ⟨spaced_normalize t, noDoubleGap_normalize t⟩
  simp only [cleanTranscriptText]
  split_ifs
  · exact ⟨spaced_nil, fun _ _ _ _ _ h => by simp at h⟩
  · exact hcollapsed

/-- What the preview shows: cleaned once, then spaced once more. -/
theorem spaceNormal_normalize_clean (t : Text) :
    SpaceNormal (normalizeJapaneseSpacing (cleanTranscriptText t)) :=
  spaceNormal_normalize (spaced_clean t).1 (spaced_clean t).2

theorem SpaceNormal.collapseRepeats (h : SpaceNormal t) : SpaceNormal (collapseRepeats t) :=
  collapseRepeats_induction (fun _ _ hu ht => ht.collapse hu) h

/-- **A caption cleaned twice is space-normal.** -/
theorem spaceNormal_clean_clean (t : Text) :
    SpaceNormal (cleanTranscriptText (cleanTranscriptText t)) := by
  have h := (spaceNormal_normalize_clean t).collapseRepeats
  rw [cleanTranscriptText]
  split_ifs
  · exact ⟨spaced_nil, fun _ _ _ h => by simp at h⟩
  · exact h

end LocalMeetingStt
