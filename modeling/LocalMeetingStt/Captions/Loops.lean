import LocalMeetingStt.Captions.Stamped

/-!
# A final that confirms its preview (`captions.rs`)

A preview is cleaned once, a final twice, and each is spaced once more before it is shown.
The second cleaning is there to do nothing: by then the spacing has reached its fixed point.
It still collapses repeats, and the spacing in between has moved characters next to each
other, as have the twenty-three passes of the first collapse among themselves. So a final
can differ from the preview it confirms, exactly when the preview as it is shown holds a
unit of 2 to 24 characters four times in a row (`confirms_iff`).

The first section says when the collapser leaves a text alone, the second that a stamp at
the start of a text outlives it.
-/

namespace LocalMeetingStt

open Scan Captions

/-! ## What the collapser leaves alone -/

/-- A unit of 2 to 24 characters stands four times in a row. -/
def Looped (t : Text) : Prop :=
  ∃ r : Text, 2 ≤ r.length ∧ r.length ≤ 24 ∧ r ++ (r ++ (r ++ r)) <:+: t

theorem countRepeats_append (r : Text) (fuel : Nat) (t : Text) :
    countRepeats r (fuel + 1) (r ++ t) = countRepeats r fuel t + 1 := by
  rw [countRepeats, if_pos (List.prefix_append r t), List.drop_left]

/-- Four copies are enough for the collapser. -/
theorem repeatMatch_ne_none {r : Text} (rest : Text) (hr : r ≠ []) (hline : '\n' ∉ r) :
    repeatMatch r.length (r ++ (r ++ (r ++ (r ++ rest)))) ≠ none := by
  have hpos : 0 < r.length := List.length_pos_of_ne_nil hr
  obtain ⟨fuel, hfuel⟩ : ∃ fuel, (r ++ (r ++ (r ++ (r ++ rest)))).length = fuel + 4 := by
    refine ⟨_, (Nat.sub_add_cancel ?_).symm⟩
    simp only [List.length_append]
    omega
  have hlen : r.length * 4 ≤ (r ++ (r ++ (r ++ (r ++ rest)))).length := by
    simp only [List.length_append]
    omega
  have hcount : 4 ≤ countRepeats r (fuel + 4) (r ++ (r ++ (r ++ (r ++ rest)))) := by
    simp only [countRepeats_append]
    omega
  have hcontains : ¬r.contains '\n' = true := by simpa using hline
  rw [hfuel] at hlen
  simp only [repeatMatch, List.take_left, if_neg hcontains, hfuel, if_pos hcount, if_pos hlen]
  exact Option.some_ne_none _

/-- Where one copy is kept, three or more go. -/
theorem repeatMatch_saves {u : Nat} (hu : 2 ≤ u) {t r : Text} {n : Nat}
    (h : repeatMatch u t = some (r, n)) : r.length + (t.drop n).length + 6 ≤ t.length := by
  obtain ⟨k, rest, rfl, hlen, rfl⟩ := repeatMatch_some h
  have hflat : (List.replicate (k + 4) r).flatten.length = u * (k + 4) := by
    simp [hlen, Nat.mul_comm]
  have hmul : u * 4 ≤ u * (k + 4) := Nat.mul_le_mul_left u (Nat.le_add_left 4 k)
  rw [← hflat, List.drop_left, List.length_append, hflat, hlen]
  omega

/-- Passes over several units leave a text alone, or save six characters. -/
theorem collapse_units_shrinks {units : List Nat} (hunits : ∀ u ∈ units, 2 ≤ u) (t : Text) :
    ((∀ u ∈ units, ∀ s, s <:+ t → repeatMatch u s = none) ∧
      units.foldl (fun current unit => scan (repeatMatch unit) current) t = t) ∨
    (units.foldl (fun current unit => scan (repeatMatch unit) current) t).length + 6 ≤
      t.length := by
  induction units generalizing t with
  | nil => exact .inl ⟨fun u hu => absurd hu List.not_mem_nil, rfl⟩
  | cons u units ih =>
    have hu := hunits u List.mem_cons_self
    have hpass := scan_shrinks (repeatMatch_progress (by omega : 0 < u))
      (fun _ _ _ => repeatMatch_saves hu) t
    have hrest := ih (fun v hv => hunits v (List.mem_cons_of_mem u hv)) (scan (repeatMatch u) t)
    rw [List.foldl_cons]
    rcases hpass with ⟨hnone, heq⟩ | hle
    · rw [heq] at hrest ⊢
      rcases hrest with ⟨hothers, hfold⟩ | hle
      · refine .inl ⟨fun v hv => ?_, hfold⟩
        rcases List.mem_cons.mp hv with rfl | hv
        · exact hnone
        · exact hothers v hv
      · exact .inr hle
    · right
      rcases hrest with ⟨-, hfold⟩ | hle'
      · rw [hfold]
        exact hle
      · omega

theorem collapse_units_eq_self {units : List Nat} (hunits : ∀ u ∈ units, 2 ≤ u) {t : Text}
    (hnone : ∀ u ∈ units, ∀ s, s <:+ t → repeatMatch u s = none) :
    units.foldl (fun current unit => scan (repeatMatch unit) current) t = t := by
  induction units with
  | nil => rfl
  | cons u units ih =>
    have hu : 0 < u := Nat.lt_of_lt_of_le Nat.zero_lt_two (hunits u List.mem_cons_self)
    have hpass : scan (repeatMatch u) t = t := by
      refine scan_eq_self (repeatMatch_progress hu) fun s r n hs h => ?_
      rw [hnone u List.mem_cons_self s hs] at h
      cases h
    rw [List.foldl_cons, hpass]
    exact ih (fun v hv => hunits v (List.mem_cons_of_mem u hv))
      fun v hv => hnone v (List.mem_cons_of_mem u hv)

theorem collapseRepeats_shrinks (t : Text) :
    collapseRepeats t = t ∨ (collapseRepeats t).length + 6 ≤ t.length :=
  (collapse_units_shrinks (fun _ hu => (List.mem_range'_1.mp hu).1) t).imp And.right id

/-- A unit of 2 to 24 characters, none of them a line break, stands four times in a row. -/
def LoopedInLine (t : Text) : Prop :=
  ∃ w : Text, 2 ≤ w.length ∧ w.length ≤ 24 ∧ '\n' ∉ w ∧ w ++ (w ++ (w ++ w)) <:+: t

theorem loopedInLine_iff {t : Text} (hline : '\n' ∉ t) : LoopedInLine t ↔ Looped t := by
  constructor
  · intro h
    obtain ⟨w, hlo, hhi, -, hcopies⟩ := h
    exact ⟨w, hlo, hhi, hcopies⟩
  · intro h
    obtain ⟨w, hlo, hhi, hcopies⟩ := h
    refine ⟨w, hlo, hhi, ?_, hcopies⟩
    intro hmem
    exact hline (hcopies.mem (List.mem_append_left _ hmem))

/-- What a pass recognizes stands in the text four times in a row. -/
theorem loopedInLine_of_repeatMatch {u n : Nat} {t s r : Text} (hlo : 2 ≤ u) (hhi : u ≤ 24)
    (hs : s <:+ t) (h : repeatMatch u s = some (r, n)) : LoopedInLine t := by
  obtain ⟨k, heq, hlen⟩ := repeatMatch_drop h
  have hcopies : r ++ (r ++ (r ++ r)) <+: s := by
    refine ⟨(List.replicate k r).flatten ++ s.drop n, ?_⟩
    conv_rhs => rw [heq]
    simp [List.replicate_succ]
  exact ⟨r, by omega, by omega, repeatMatch_line h, hcopies.isInfix.trans hs.isInfix⟩

/-- **The collapser leaves a text alone** exactly when nothing in it loops within a line. -/
theorem collapseRepeats_unchanged_iff (t : Text) : collapseRepeats t = t ↔ ¬LoopedInLine t := by
  have hunits : ∀ u ∈ List.range' 2 23, 2 ≤ u := fun u hu => (List.mem_range'_1.mp hu).1
  constructor
  · rintro heq ⟨r, hlo, hhi, hline, before, after, rfl⟩
    rcases collapse_units_shrinks hunits (before ++ (r ++ (r ++ (r ++ r))) ++ after) with
      ⟨hnone, -⟩ | hle
    · refine repeatMatch_ne_none (r := r) after ?_ hline ?_
      · rintro rfl
        simp at hlo
      · refine hnone r.length (List.mem_range'_1.mpr ⟨hlo, by omega⟩) _ ⟨before, ?_⟩
        simp
    · rw [collapseRepeats] at heq
      rw [heq] at hle
      omega
  · intro hfree
    refine collapse_units_eq_self hunits fun u hu s hs => ?_
    by_contra hsome
    obtain ⟨⟨r, n⟩, hmatch⟩ := Option.ne_none_iff_exists'.mp hsome
    have hrange := List.mem_range'_1.mp hu
    exact hfree (loopedInLine_of_repeatMatch hrange.1 (by omega) hs hmatch)

theorem collapseRepeats_eq_self_iff {t : Text} (hline : '\n' ∉ t) :
    collapseRepeats t = t ↔ ¬Looped t := by
  rw [collapseRepeats_unchanged_iff, loopedInLine_iff hline]

/-- The passes leave characters out, and never the first. -/
theorem collapseRepeats_sublist (t : Text) :
    (collapseRepeats t).Sublist t ∧ (collapseRepeats t).head? = t.head? := by
  refine collapseRepeats_induction (motive := fun s => s.Sublist t ∧ s.head? = t.head?) ?_
    ⟨List.Sublist.refl t, rfl⟩
  rintro u s hu ⟨hsub, hhead⟩
  have hpos : 0 < u := Nat.lt_of_lt_of_le Nat.zero_lt_two hu
  exact ⟨(collapse_sublist hpos s).trans hsub, (head?_collapse hpos s).trans hhead⟩

/-- **What the collapser does to a text**: nothing, where no unit of 2 to 24 characters of one
    line stands four times in a row; elsewhere it leaves characters out, one at least, and
    keeps the first. -/
theorem collapseRepeats_spec (t : Text) :
    (collapseRepeats t = t ↔ ¬LoopedInLine t) ∧
      (collapseRepeats t = t ∨
        (collapseRepeats t).length < t.length ∧ (collapseRepeats t).Sublist t ∧
          ∃ c, t.head? = some c ∧ (collapseRepeats t).head? = some c) := by
  refine ⟨collapseRepeats_unchanged_iff t, ?_⟩
  obtain ⟨hsub, hhead⟩ := collapseRepeats_sublist t
  cases collapseRepeats_shrinks t with
  | inl heq => exact .inl heq
  | inr hle =>
    have hlt : (collapseRepeats t).length < t.length := by omega
    obtain ⟨c, rest, rfl⟩ := List.exists_cons_of_length_pos (Nat.zero_lt_of_lt hlt)
    exact .inr ⟨hlt, hsub, c, rfl, hhead⟩

/-! ## A stamp outlives the collapser

No unit repeats across a stamp: its last bracket would have to stand in it earlier, or a
colon where there is a digit. -/

theorem repeatMatch_period {u n i : Nat} {t r : Text} (h : repeatMatch u t = some (r, n))
    (hi : i < 3 * u) : t[i + u]? = t[i]? := by
  obtain ⟨k, rest, rfl, hlen, -⟩ := repeatMatch_some h
  subst hlen
  generalize hrest : (List.replicate k r).flatten ++ rest = after
  have heq : (List.replicate (k + 4) r).flatten ++ rest = r ++ (r ++ (r ++ (r ++ after))) := by
    simp [← hrest, List.replicate_succ]
  have hthree : i < (r ++ (r ++ r)).length := by
    simp only [List.length_append]
    omega
  have hhere : (r ++ (r ++ (r ++ (r ++ after))))[i]? = (r ++ (r ++ r))[i]? := by
    rw [show r ++ (r ++ (r ++ (r ++ after))) = (r ++ (r ++ r)) ++ (r ++ after) by simp,
      List.getElem?_append_left hthree]
  have hnext : (r ++ (r ++ (r ++ (r ++ after))))[i + r.length]? = (r ++ (r ++ r))[i]? := by
    rw [List.getElem?_append_right (Nat.le_add_left _ _), Nat.add_sub_cancel,
      show r ++ (r ++ (r ++ after)) = (r ++ (r ++ r)) ++ after by simp,
      List.getElem?_append_left hthree]
  rw [heq, hnext, hhere]

section

variable [UnicodeTables]

theorem stampPrefix_shape {t time rest : Text} (h : stampPrefix t = some (time, rest)) :
    time.length = 8 ∧ time[2]? = some ':' ∧
      ∃ d, time[0]? = some d ∧ UnicodeTables.isDecimal d = true := by
  unfold stampPrefix at h
  split at h
  · next h₁ h₂ m₁ m₂ s₁ s₂ after =>
    split_ifs at h with hdigits
    obtain ⟨rfl, -⟩ := Prod.mk.inj (Option.some.inj h)
    simp only [List.all_eq_true, List.mem_cons, List.not_mem_nil, or_false] at hdigits
    exact ⟨rfl, rfl, h₁, rfl, hdigits h₁ (.inl rfl)⟩
  · cases h

theorem stampText_length {t time rest : Text} (h : stampPrefix t = some (time, rest)) :
    (stampText time).length = 10 := by
  rw [stampText, List.length_append, List.length_cons, (stampPrefix_shape h).1]
  rfl

theorem bracket_not_mem (hd : DecimalsApart) {t time rest : Text}
    (h : stampPrefix t = some (time, rest)) : ']' ∉ '[' :: time := by
  intro hmem
  rcases List.mem_cons.mp hmem with heq | htime
  · cases heq
  · rcases (stampPrefix_eq h).2.2 _ htime with heq | hdigit
    · cases heq
    · rw [hd.not_bracket] at hdigit
      cases hdigit

/-- Somewhere in the end of a stamp two characters `u` apart differ. -/
theorem stamp_not_periodic (hd : DecimalsApart) {t time rest s : Text}
    (h : stampPrefix t = some (time, rest)) (hs : s <:+ stampText time) {u : Nat} (hu : 2 ≤ u)
    (hlen : u < s.length) : ∃ i, i < 3 * u ∧ i + u < s.length ∧ s[i + u]? ≠ s[i]? := by
  obtain ⟨htime, hcolon, d, hdigit, hdecimal⟩ := stampPrefix_shape h
  obtain ⟨before, hbefore⟩ := hs
  have hten : before.length + s.length = 10 := by
    rw [← List.length_append, hbefore, stampText_length h]
  have hget : ∀ i, s[i]? = (stampText time)[before.length + i]? := by
    intro i
    rw [← hbefore, List.getElem?_append_right (Nat.le_add_right _ _), Nat.add_sub_cancel_left]
  by_cases hnear : s.length - 1 - u < 3 * u
  · refine ⟨s.length - 1 - u, hnear, by omega, ?_⟩
    have hlast : (stampText time)[9]? = some ']' := by
      simp [stampText, htime]
    have hother : before.length + (s.length - 1 - u) < ('[' :: time).length := by
      simp only [List.length_cons]
      omega
    rw [hget, hget, show before.length + (s.length - 1 - u + u) = 9 by omega, hlast, stampText,
      List.getElem?_append_left hother, List.getElem?_eq_getElem hother]
    intro heq
    exact bracket_not_mem hd h (Option.some.inj heq ▸ List.getElem_mem hother)
  · -- Only a unit of two repeats four times before the bracket.
    obtain rfl : u = 2 := by omega
    refine ⟨1 - before.length, by omega, by omega, ?_⟩
    have hthird : (stampText time)[3]? = some ':' := by
      rw [stampText, List.cons_append, List.getElem?_cons_succ,
        List.getElem?_append_left (by omega), hcolon]
    have hfirst : (stampText time)[1]? = some d := by
      rw [stampText, List.cons_append, List.getElem?_cons_succ,
        List.getElem?_append_left (by omega), hdigit]
    rw [hget, hget, show before.length + (1 - before.length + 2) = 3 by omega,
      show before.length + (1 - before.length) = 1 by omega, hthird, hfirst]
    intro heq
    rw [← Option.some.inj heq, hd.not_colon] at hdecimal
    cases hdecimal

theorem stamp_collapse_pass (hd : DecimalsApart) {t time rest : Text}
    (h : stampPrefix t = some (time, rest)) {u : Nat} (hu : 2 ≤ u) :
    ∃ rest', scan (repeatMatch u) t = stampText time ++ rest' := by
  have hm := repeatMatch_progress (u := u) (by omega)
  have key : ∀ s, s <:+ stampText time →
      ∃ rest', scan (repeatMatch u) (s ++ rest) = s ++ rest' := by
    intro s
    induction s with
    | nil => exact fun _ => ⟨_, rfl⟩
    | cons x s ih =>
      intro hs
      cases hmatch : repeatMatch u (x :: s ++ rest) with
      | none =>
        obtain ⟨rest', heq⟩ := ih ((List.suffix_cons x s).trans hs)
        refine ⟨rest', ?_⟩
        rw [List.cons_append] at hmatch ⊢
        rw [scan_copy hmatch, heq, List.cons_append]
      | some found =>
        obtain ⟨r, n⟩ := found
        obtain ⟨k, heq, hlen⟩ := repeatMatch_drop hmatch
        by_cases hshort : (x :: s).length ≤ u
        · -- The copy that is kept begins with the whole end of the stamp.
          have hcopy : r <+: x :: s ++ rest := by
            refine ⟨(List.replicate (k + 3) r).flatten ++ (x :: s ++ rest).drop n, ?_⟩
            conv_rhs => rw [heq]
            simp [List.replicate_succ]
          obtain ⟨more, rfl⟩ := List.prefix_of_prefix_length_le (List.prefix_append (x :: s) rest)
            hcopy (by rw [hlen]; exact hshort)
          refine ⟨more ++ scan (repeatMatch u) ((x :: s ++ rest).drop n), ?_⟩
          rw [scan_match hmatch (by simp) (hm.pos hmatch), List.append_assoc]
        · obtain ⟨i, hi, hwithin, hne⟩ := stamp_not_periodic hd h hs hu (by omega)
          have hperiod := repeatMatch_period hmatch hi
          rw [List.getElem?_append_left hwithin, List.getElem?_append_left (by omega)] at hperiod
          exact absurd hperiod hne
  obtain ⟨rest', heq⟩ := key (stampText time) (List.suffix_refl _)
  exact ⟨rest', by rw [← heq, ← (stampPrefix_eq h).1]⟩

theorem stampPrefix_collapse (hd : DecimalsApart) {t time rest : Text}
    (h : stampPrefix t = some (time, rest)) :
    ∃ rest', stampPrefix (collapseRepeats t) = some (time, rest') := by
  refine collapseRepeats_induction (motive := fun t => ∃ rest, stampPrefix t = some (time, rest))
    ?_ ⟨rest, h⟩
  rintro u t hu ⟨rest, hstamp⟩
  obtain ⟨rest', heq⟩ := stamp_collapse_pass hd hstamp hu
  exact ⟨rest', by rw [heq, (stampPrefix_eq hstamp).2.1]⟩

/-! ## Preview and final -/

/-- The text of the caption that `stamped` makes of a spaced text. -/
def shownText (t : Text) : Text :=
  match stampPrefix t with
  | some (_, rest) => rest.dropWhile isWhitespace
  | none => t

theorem stamped_shownText {line : Text} (hne : normalizeJapaneseSpacing line ≠ []) (now : Text) :
    ∃ time, stamped line now = some ⟨time, shownText (normalizeJapaneseSpacing line)⟩ := by
  have hempty : (normalizeJapaneseSpacing line).isEmpty = false := by simpa using hne
  simp only [stamped, shownText, hempty, Bool.false_eq_true, if_false]
  cases stampPrefix (normalizeJapaneseSpacing line) with
  | some found => exact ⟨found.1, rfl⟩
  | none => exact ⟨now, rfl⟩

theorem shownText_length (t : Text) : (shownText t).length ≤ t.length := by
  unfold shownText
  split
  · next time rest h =>
    have hdrop := (List.dropWhile_suffix isWhitespace (l := rest)).length_le
    have := stampPrefix_length h
    omega
  · exact Nat.le_refl _

omit [UnicodeTables] in
/-- One space at most stands in front of the end of a spaced text. -/
theorem Spaced.length_dropWhile {t rest : Text} (h : Spaced t) (hrest : rest <:+ t) :
    rest.length ≤ (rest.dropWhile isWhitespace).length + 1 := by
  match rest with
  | [] => exact Nat.zero_le _
  | [a] => exact Nat.le_add_left _ _
  | a :: b :: rest =>
    by_cases ha : isWhitespace a = true
    · have hb := h.single a b (.trans ⟨[], rest, rfl⟩ hrest.isInfix) ha
      simp [ha, hb]
    · simp [ha]

/-- What the page shows of a text tells whether the collapser changed it. -/
theorem shownText_collapse (hd : DecimalsApart) {t : Text} (ht : Spaced t) :
    shownText (collapseRepeats t) = shownText t ↔ collapseRepeats t = t := by
  refine ⟨fun heq => ?_, fun heq => by rw [heq]⟩
  refine (collapseRepeats_shrinks t).resolve_right fun hshort => ?_
  have hlen := congrArg List.length heq
  cases hstamp : stampPrefix t with
  | none =>
    have hplain : shownText t = t := by simp only [shownText, hstamp]
    have := shownText_length (collapseRepeats t)
    rw [hplain] at hlen
    omega
  | some found =>
    obtain ⟨time, rest⟩ := found
    obtain ⟨rest', hstamp'⟩ := stampPrefix_collapse hd hstamp
    have hrest := ht.length_dropWhile (stampPrefix_suffix hstamp)
    have hrest' := (List.dropWhile_suffix isWhitespace (l := rest')).length_le
    have htext := congrArg List.length (stampPrefix_eq hstamp).1
    have htext' := congrArg List.length (stampPrefix_eq hstamp').1
    simp only [shownText, hstamp, hstamp'] at hlen
    simp only [List.length_append] at htext htext'
    omega

/-- A text cleaned once and spaced again: what a preview shows, if it is not stamped, and what
    the loopback stream compares with the shown lines. -/
def spacedClean (text : Text) : Text := normalizeJapaneseSpacing (cleanTranscriptText text)

omit [UnicodeTables] in
/-- What a final that is not empty is cleaned to the second time. -/
theorem cleanedFinal_eq {text : Text} (h : cleanedFinal text ≠ []) :
    cleanedFinal text = collapseRepeats (spacedClean text) := by
  have hclean : cleanedFinal text =
      if (spacedClean text).length - (collapseRepeats (spacedClean text)).length > 120 then []
      else collapseRepeats (spacedClean text) := rfl
  rw [hclean] at h ⊢
  split_ifs at h ⊢
  · exact absurd rfl h
  · rfl

/-- A final confirms the preview of the same words: if it commits a line, that is the text
    the preview shows. -/
def Confirms (c : Captions) (text now now' : Text) : Prop :=
  ∀ line, (c.ingestLine (finalLine text) now).1.lines = c.lines ++ [line] →
    ∃ shown, (c.ingestLine (previewLine text) now').1.partialLine = some shown ∧
      shown.text = line.text

theorem ingestLine_finalLine_kept {c : Captions} {text : Text} (now : Text)
    (hc : c.loopbackStream = false) (h : NoAnnouncement text) (hkept : ¬Dropped text) :
    ∃ time, (c.ingestLine (finalLine text) now).1.lines =
      c.lines ++ [⟨time, shownText (cleanedFinal text)⟩] := by
  rw [ingestLine_finalLine now hc h, commitUtteranceLine_kept now hkept, shownText]
  cases stampPrefix (cleanedFinal text) with
  | some found => exact ⟨found.1, by simp⟩
  | none => exact ⟨now, by simp⟩

/-- A final that is dropped, or announces a file, commits nothing. -/
theorem ingestLine_finalLine_none {c : Captions} {text : Text} (now : Text)
    (hc : c.loopbackStream = false) (h : NoAnnouncement text → Dropped text) :
    (c.ingestLine (finalLine text) now).1.lines = c.lines := by
  by_cases hnone : NoAnnouncement text
  · rw [ingestLine_finalLine now hc hnone, commitUtteranceLine_dropped now (h hnone),
      setPartial_lines]
  · obtain ⟨path, hpath⟩ := ingestLine_finalLine_announced (c := c) now hnone
    rw [hpath]

/-- What the two passes show of a final that commits a line. -/
theorem confirms_iff_shownText {c : Captions} (hc : c.loopbackStream = false) {text : Text}
    (now now' : Text) (hnone : NoAnnouncement text) (hkept : ¬Dropped text) :
    Confirms c text now now' ↔
      shownText (collapseRepeats (spacedClean text)) = shownText (spacedClean text) := by
  have hfinal := cleanedFinal_eq (not_or.mp hkept).1
  have hne : spacedClean text ≠ [] := by
    intro hnil
    rw [hnil] at hfinal
    exact (not_or.mp hkept).1 hfinal
  obtain ⟨time, hlines⟩ := ingestLine_finalLine_kept now hc hnone hkept
  obtain ⟨time', hstamped⟩ := stamped_shownText hne now'
  have hpreview : (c.ingestLine (previewLine text) now').1.partialLine =
      some ⟨time', shownText (spacedClean text)⟩ := by
    rw [ingestLine_previewLine, if_pos (show transcriptCapture text = none from hnone),
      setPartial_partialLine, hstamped, spacedClean]
  rw [Confirms, hlines, hpreview, ← hfinal]
  constructor
  · intro h
    obtain ⟨shown, hshown, htext⟩ := h ⟨time, shownText (cleanedFinal text)⟩ rfl
    cases hshown
    dsimp only at htext
    exact htext.symm
  · intro heq line hline
    rw [List.append_cancel_left_eq, List.cons.injEq] at hline
    refine ⟨⟨time', shownText (spacedClean text)⟩, rfl, ?_⟩
    rw [← hline.1]
    dsimp only
    exact heq.symm

/-- **A final confirms its preview exactly when it commits nothing, or nothing loops in the
    preview as it is shown.** -/
theorem confirms_iff (hd : DecimalsApart) {c : Captions} (hc : c.loopbackStream = false)
    (text now now' : Text) :
    Confirms c text now now' ↔
      (NoAnnouncement text → ¬Dropped text → ¬Looped (spacedClean text)) := by
  by_cases hcommits : NoAnnouncement text ∧ ¬Dropped text
  · obtain ⟨hnone, hkept⟩ := hcommits
    have hspaced : Spaced (spacedClean text) := (spaceNormal_normalize_clean text).toSpaced
    rw [confirms_iff_shownText hc now now' hnone hkept, shownText_collapse hd hspaced,
      collapseRepeats_eq_self_iff (no_newline_of_spaced hspaced)]
    exact ⟨fun h _ _ => h, fun h => h hnone hkept⟩
  · have hdropped : NoAnnouncement text → Dropped text := by
      intro hnone
      by_contra hkept
      exact hcommits ⟨hnone, hkept⟩
    refine ⟨fun _ hnone hkept => absurd (hdropped hnone) hkept, fun _ line hline => ?_⟩
    rw [ingestLine_finalLine_none now hc hdropped] at hline
    simp at hline

end

theorem confirms_iff_hello :
    let _ := asciiTables
    Confirms (.new false) "Hello".toList "10:00:02".toList "10:00:01".toList := by
  intro _
  refine (@confirms_iff asciiTables decimalsApart_ascii (.new false) rfl _ _ _).mpr ?_
  rintro - - ⟨r, hlo, -, hinfix⟩
  have hlen := hinfix.length_le
  have hfive : (spacedClean "Hello".toList).length = 5 := by decide
  simp only [List.length_append, hfive] at hlen
  omega

/-- **The spacing of a once-cleaned text joins four "はい", and the second cleaning leaves
    one**: the preview shows what the final does not confirm. -/
theorem preview_not_confirmed :
    let _ := asciiTables
    ¬Confirms (.new false) "は い は い は い は い".toList "10:00:02".toList
      "10:00:01".toList := by
  intro _ h
  obtain ⟨shown, hshown, htext⟩ := h ⟨"10:00:02".toList, "はい".toList⟩ (by decide)
  have hpreview : ((Captions.new false).ingestLine
      (previewLine "は い は い は い は い".toList) "10:00:01".toList).1.partialLine =
      some ⟨"10:00:01".toList, "はいはいはいはい".toList⟩ := by decide
  rw [hpreview] at hshown
  rw [← Option.some.inj hshown] at htext
  exact absurd htext (by decide)

end LocalMeetingStt
