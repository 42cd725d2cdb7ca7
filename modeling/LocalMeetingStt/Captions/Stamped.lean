import LocalMeetingStt.Captions.Frame
import LocalMeetingStt.Captions.Utterances
import LocalMeetingStt.Lib.Windows

/-!
# The older scripts' lines (`captions.rs`, `append_preview_line`)

A line `[HH:MM:SS] text` brings its own time. Spacing runs over the stamp and the text
together, twice, and leaves the stamp alone (`normalize_stamp`), so what is appended is the
printed time and the text as two passes leave it.

Whether the caption is already there is decided by a search for its rendering as a
substring of the whole rendered transcript. The rendering of a line ends with a line feed,
what is searched for does not, so the search also finds a line that goes on where the new
one ends. `appendedUnlessShown_iff` says exactly when it decides as a comparison of lines
would.
-/

namespace LocalMeetingStt

open Scan Windows Transition

/-! ## Spacing behind a stamp -/

/-- No whitespace after the first character: none of the four passes finds a match there. -/
theorem passes_none_of_flush {x y : Char} {r : Text} (hx : isWhitespace x = false)
    (hy : isWhitespace y = false) :
    kanaMatch (x :: y :: r) = none ∧ beforePunctMatch (x :: y :: r) = none ∧
      afterOpenMatch (x :: y :: r) = none ∧ spacesMatch (x :: y :: r) = none := by
  simp [kanaMatch, beforePunctMatch, afterOpenMatch, spacesMatch, hx, hy]

theorem passes_none_of_bracket (r : Text) :
    kanaMatch (']' :: r) = none ∧ beforePunctMatch (']' :: r) = none ∧
      afterOpenMatch (']' :: r) = none ∧ spacesMatch (']' :: r) = none := by
  have hkana : isKanaOrHan ']' = false := rfl
  have hspace : isWhitespace ']' = false := rfl
  have hopener : isOpener ']' = false := rfl
  refine ⟨?_, ?_, ?_, ?_⟩
  · simp only [kanaMatch, hkana, Bool.false_and, Bool.false_eq_true, if_false]
    split <;> rfl
  · simp [beforePunctMatch, hspace]
  · simp [afterOpenMatch, hopener]
  · simp [spacesMatch, hspace]

/-- A front without whitespace, up to a character that no pass removes whitespace after. -/
structure Front (front : Text) : Prop where
  plain : ∀ c ∈ front, isWhitespace c = false
  last : front.getLast? = some ']'

theorem Front.ne_nil {front : Text} (h : Front front) : front ≠ [] := by
  rintro rfl
  cases h.last

theorem scan_front {m : Matcher Char} {front rest : Text} (hfront : Front front)
    (hpair : ∀ x y r, isWhitespace x = false → isWhitespace y = false → m (x :: y :: r) = none)
    (hlast : ∀ r, m (']' :: r) = none) : scan m (front ++ rest) = front ++ scan m rest := by
  refine scan_append fun x s hs => ?_
  have hplain : ∀ c ∈ x :: s, isWhitespace c = false := fun c hc => hfront.plain c (hs.mem hc)
  cases s with
  | nil =>
    obtain ⟨before, hbefore⟩ := hs
    have hx := hfront.last
    rw [← hbefore, List.getLast?_concat, Option.some.injEq] at hx
    subst hx
    exact hlast rest
  | cons y s =>
    exact hpair x y _ (hplain x List.mem_cons_self)
      (hplain y (List.mem_cons_of_mem x List.mem_cons_self))

theorem scan_blank_kana {spaces : Text} (h : ∀ s ∈ spaces, isWhitespace s = true) (t : Text) :
    scan kanaMatch (spaces ++ t) = spaces ++ scan kanaMatch t := by
  refine scan_append fun x s hs => ?_
  have hx := h x (hs.mem List.mem_cons_self)
  by_contra hsome
  obtain ⟨⟨r, n⟩, hmatch⟩ := Option.ne_none_iff_exists'.mp hsome
  obtain ⟨a, _, _, _, heq, ha, -⟩ := kanaMatch_some hmatch
  rw [List.cons_append, List.cons.injEq] at heq
  rw [heq.1, kana_not_space ha] at hx
  cases hx

theorem scan_blank_opener {spaces : Text} (h : ∀ s ∈ spaces, isWhitespace s = true) (t : Text) :
    scan afterOpenMatch (spaces ++ t) = spaces ++ scan afterOpenMatch t := by
  refine scan_append fun x s hs => ?_
  have hx := h x (hs.mem List.mem_cons_self)
  by_contra hsome
  obtain ⟨⟨r, n⟩, hmatch⟩ := Option.ne_none_iff_exists'.mp hsome
  obtain ⟨o, _, _, heq, ho, -⟩ := afterOpenMatch_some hmatch
  rw [List.cons_append, List.cons.injEq] at heq
  rw [heq.1, (opener_disjoint ho).1] at hx
  cases hx

theorem takeWhile_blank {spaces t : Text} (h : ∀ s ∈ spaces, isWhitespace s = true)
    (ht : Flush t) :
    (spaces ++ t).takeWhile isWhitespace = spaces ∧ (spaces ++ t).dropWhile isWhitespace = t := by
  rw [List.takeWhile_append_of_pos h, List.dropWhile_append_of_pos h]
  cases t with
  | nil => simp
  | cons c r => simp [ht c r rfl]

/-- Whitespace before a mark goes, before anything else it stays. -/
theorem scan_blank_punct {spaces t : Text} (h : ∀ s ∈ spaces, isWhitespace s = true)
    (ht : Flush t) :
    ∃ sep, (∀ s ∈ sep, isWhitespace s = true) ∧
      scan beforePunctMatch (spaces ++ t) = sep ++ scan beforePunctMatch t := by
  by_cases hnone : ∀ x s, x :: s <:+ spaces → beforePunctMatch (x :: s ++ t) = none
  · exact ⟨spaces, h, scan_append hnone⟩
  · refine ⟨[], fun s hs => absurd hs List.not_mem_nil, ?_⟩
    push Not at hnone
    obtain ⟨x, s, hs, hsome⟩ := hnone
    -- Somewhere in the whitespace the pass matches, so the text begins with a mark.
    obtain ⟨p, r, rfl, hp⟩ : ∃ p r, t = p :: r ∧ isMark p = true := by
      have hsuffix : ∀ c ∈ x :: s, isWhitespace c = true := fun c hc => h c (hs.mem hc)
      simp only [beforePunctMatch, takeWhile_blank hsuffix ht] at hsome
      cases t with
      | nil => exact absurd rfl hsome
      | cons p r =>
        by_cases hp : isMark p = true
        · exact ⟨p, r, rfl, hp⟩
        · simp [hp] at hsome
    have hspaces : spaces ≠ [] := by
      rintro rfl
      simp at hs
    have hmatch : beforePunctMatch (spaces ++ p :: r) = some ([p], spaces.length + 1) := by
      simp [beforePunctMatch, takeWhile_blank h ht, hp, hspaces]
    have hcopy : beforePunctMatch (p :: r) = none := by
      simp [beforePunctMatch, (mark_disjoint hp).1]
    have hdrop : (spaces ++ p :: r).drop (spaces.length + 1) = r := by
      rw [List.drop_length_add_append, List.drop_one, List.tail_cons]
    rw [scan_match hmatch (by simp) (Nat.succ_pos _), hdrop, scan_copy hcopy]
    rfl

theorem scan_blank_spaces {spaces t : Text} (h : ∀ s ∈ spaces, isWhitespace s = true)
    (ht : Flush t) :
    ∃ sep, (∀ s ∈ sep, isWhitespace s = true) ∧
      scan spacesMatch (spaces ++ t) = sep ++ scan spacesMatch t := by
  by_cases hnil : spaces = []
  · subst hnil
    exact ⟨[], h, rfl⟩
  · have hmatch : spacesMatch (spaces ++ t) = some ([' '], spaces.length) := by
      simp [spacesMatch, takeWhile_blank h ht, hnil]
    refine ⟨[' '], by simp [space_is_space], ?_⟩
    rw [scan_match hmatch (by simp [hnil]) (List.length_pos_of_ne_nil hnil), List.drop_left]

/-- **Spacing leaves a front alone** and spaces what stands behind it as it would alone. -/
theorem normalize_front {front spaces t : Text} (hfront : Front front)
    (hspaces : ∀ s ∈ spaces, isWhitespace s = true) (hne : t ≠ []) (hflush : Flush t)
    (hclosed : Closed t) :
    ∃ sep, (∀ s ∈ sep, isWhitespace s = true) ∧
      normalizeJapaneseSpacing (front ++ (spaces ++ t)) =
        front ++ (sep ++ normalizeJapaneseSpacing t) := by
  have htrim : trim (front ++ (spaces ++ t)) = front ++ (spaces ++ t) := by
    refine trim_eq_self ?_ ?_
    · obtain ⟨x, xs, rfl⟩ := List.exists_cons_of_ne_nil (hfront.ne_nil)
      exact Flush.append (fun c r h => hfront.plain c (by simp [h])) (by simp) _
    · rw [← List.append_assoc]
      exact hclosed.append hne _
  have hkana : Flush (scan kanaMatch t) :=
    flush_scan kanaMatch_progress hflush fun _ _ h => (kanaMatch_end h).imp_right And.left
  have hpunct : Flush (scan beforePunctMatch (scan kanaMatch t)) :=
    flush_scan beforePunctMatch_progress hkana fun _ _ h => (beforePunct_end h).imp_right And.left
  have hopener : Flush (scan afterOpenMatch (scan beforePunctMatch (scan kanaMatch t))) :=
    flush_scan afterOpenMatch_progress hpunct fun _ _ h => (afterOpen_end h).imp_right And.left
  obtain ⟨sep₁, hsep₁, heq₁⟩ := scan_blank_punct hspaces hkana
  obtain ⟨sep₂, hsep₂, heq₂⟩ := scan_blank_spaces hsep₁ hopener
  refine ⟨sep₂, hsep₂, ?_⟩
  have hpair := fun x y r hx hy => passes_none_of_flush (x := x) (y := y) (r := r) hx hy
  simp only [normalizeJapaneseSpacing, htrim, trim_eq_self hflush hclosed]
  rw [scan_front hfront (fun x y r hx hy => (hpair x y r hx hy).1)
      fun r => (passes_none_of_bracket r).1,
    scan_blank_kana hspaces,
    scan_front hfront (fun x y r hx hy => (hpair x y r hx hy).2.1)
      fun r => (passes_none_of_bracket r).2.1,
    heq₁,
    scan_front hfront (fun x y r hx hy => (hpair x y r hx hy).2.2.1)
      fun r => (passes_none_of_bracket r).2.2.1,
    scan_blank_opener hsep₁,
    scan_front hfront (fun x y r hx hy => (hpair x y r hx hy).2.2.2)
      fun r => (passes_none_of_bracket r).2.2.2, heq₂]

theorem normalize_ne_nil {t : Text} (h : trim t ≠ []) : normalizeJapaneseSpacing t ≠ [] := by
  have hkana := scan_ne_nil kanaMatch_progress (fun _ _ _ h => (kanaMatch_end h).1) h
  have hpunct :=
    scan_ne_nil beforePunctMatch_progress (fun _ _ _ h => (beforePunct_end h).1) hkana
  have hopener :=
    scan_ne_nil afterOpenMatch_progress (fun _ _ _ h => (afterOpen_end h).1) hpunct
  refine scan_ne_nil spacesMatch_progress (fun xs r n hm => ?_) hopener
  obtain ⟨_, _, -, -, -, rfl, -⟩ := spacesMatch_some hm
  exact List.cons_ne_nil _ _

/-- The text of a caption printed behind a stamp, as two passes of the spacing leave it. -/
def spacedTwice (t : Text) : Text := normalizeJapaneseSpacing (normalizeJapaneseSpacing t)

theorem spaceNormal_spacedTwice (t : Text) : SpaceNormal (spacedTwice t) :=
  spaceNormal_normalize (spaced_normalize t) (noDoubleGap_normalize t)

theorem normalize_trim (t : Text) :
    normalizeJapaneseSpacing (trim t) = normalizeJapaneseSpacing t := by
  simp only [normalizeJapaneseSpacing, trim_eq_self (flush_trim t) (closed_trim t)]

/-- Whitespace around a text goes before anything else. -/
theorem normalize_of_closed {t : Text} (h : Closed t) :
    normalizeJapaneseSpacing t = normalizeJapaneseSpacing (t.dropWhile isWhitespace) := by
  have hclosed : Closed (t.dropWhile isWhitespace) := h.of_suffix (List.dropWhile_suffix _)
  have htrim : trim t = t.dropWhile isWhitespace := by
    have := trim_eq_self (flush_dropWhile t) hclosed
    rwa [trim, trimStart, List.dropWhile_idempotent] at this
  rw [← htrim, normalize_trim]

theorem no_newline_of_spaced {t : Text} (h : Spaced t) : '\n' ∉ t :=
  fun hmem => absurd (h.plain '\n' hmem rfl) (by simp)

/-! ## The caption of a stamped line -/

section

variable [UnicodeTables]

/-- What every edition of Unicode says of its decimal digits: none is whitespace, and none is
    one of the marks of a stamp. -/
structure DecimalsApart : Prop where
  not_space : ∀ c, UnicodeTables.isDecimal c = true → isWhitespace c = false
  not_colon : UnicodeTables.isDecimal ':' = false
  not_bracket : UnicodeTables.isDecimal ']' = false

/-- The stamp and its brackets. -/
def stampText (time : Text) : Text := '[' :: time ++ [']']

/-- What a stamp looks like, and that nothing behind it matters. -/
theorem stampPrefix_eq {t time rest : Text} (h : stampPrefix t = some (time, rest)) :
    t = stampText time ++ rest ∧ (∀ r, stampPrefix (stampText time ++ r) = some (time, r)) ∧
      ∀ c ∈ time, c = ':' ∨ UnicodeTables.isDecimal c = true := by
  unfold stampPrefix at h
  split at h
  · next h₁ h₂ m₁ m₂ s₁ s₂ after =>
    split_ifs at h with hdigits
    obtain ⟨rfl, rfl⟩ := Prod.mk.inj (Option.some.inj h)
    refine ⟨rfl, fun r => ?_, ?_⟩
    · simp only [stampText, List.cons_append, List.nil_append, stampPrefix]
      exact if_pos hdigits
    · simp only [List.all_eq_true, List.mem_cons, List.not_mem_nil, or_false] at hdigits
      intro c hc
      simp only [List.mem_cons, List.not_mem_nil, or_false] at hc
      rcases hc with rfl | rfl | rfl | rfl | rfl | rfl | rfl | rfl
      all_goals first | exact .inl rfl | exact .inr (hdigits _ (by simp))
  · cases h

theorem front_stampText (hd : DecimalsApart) {t time rest : Text}
    (h : stampPrefix t = some (time, rest)) : Front (stampText time) where
  plain := by
    intro c hc
    simp only [stampText, List.cons_append, List.mem_cons, List.mem_append, List.not_mem_nil,
      or_false] at hc
    rcases hc with rfl | hc | rfl
    · rfl
    · rcases (stampPrefix_eq h).2.2 c hc with rfl | hdigit
      · rfl
      · exact hd.not_space c hdigit
    · rfl
  last := by rw [stampText, List.getLast?_concat]

theorem stamped_front {t time rest now : Text} {sep : Text}
    (hstamp : stampPrefix t = some (time, rest)) (hsep : ∀ s ∈ sep, isWhitespace s = true)
    {line text : Text} (hline : normalizeJapaneseSpacing line = stampText time ++ (sep ++ text))
    (htext : Flush text) : stamped line now = some ⟨time, text⟩ := by
  have hne : (stampText time ++ (sep ++ text)).isEmpty = false := rfl
  simp only [stamped, hline, hne, (stampPrefix_eq hstamp).2.1]
  rw [(takeWhile_blank hsep htext).2]
  rfl

/-- **Spacing a stamped line** leaves its stamp and spaces its text, in both passes. -/
theorem normalize_stamped (hd : DecimalsApart) {raw time rest : Text} {s : Char}
    (hstamp : stampPrefix (trim raw) = some (time, s :: rest)) :
    ∃ sep₁ sep₂ : Text,
      (∀ c ∈ sep₂, isWhitespace c = true) ∧
      normalizeJapaneseSpacing (trim raw) =
        stampText time ++ (sep₁ ++ normalizeJapaneseSpacing (s :: rest)) ∧
      spacedTwice (trim raw) = stampText time ++ (sep₂ ++ spacedTwice (s :: rest)) := by
  have hfront := front_stampText hd hstamp
  have hclosed : Closed (s :: rest) := (closed_trim raw).of_suffix (stampPrefix_suffix hstamp)
  have hnormal := normalize_of_closed hclosed
  -- Something is said: the trimmed line does not end with the whitespace behind its stamp.
  have hne : (s :: rest).dropWhile isWhitespace ≠ [] := by
    intro hnil
    have hall := List.dropWhile_eq_nil_iff.mp hnil
    have hlast := List.getLast?_eq_some_getLast (List.cons_ne_nil s rest)
    have := hclosed _ hlast
    rw [hall _ (List.getLast_mem _)] at this
    cases this
  have hflush := flush_dropWhile (s :: rest)
  have hclosed' := hclosed.of_suffix (List.dropWhile_suffix isWhitespace)
  obtain ⟨sep₁, hsep₁, heq₁⟩ := normalize_front hfront
    (fun c hc => List.mem_takeWhile_imp hc : ∀ c ∈ (s :: rest).takeWhile isWhitespace, _)
    hne hflush hclosed'
  rw [List.takeWhile_append_dropWhile, ← (stampPrefix_eq hstamp).1, ← hnormal] at heq₁
  have hne' : normalizeJapaneseSpacing (s :: rest) ≠ [] := by
    rw [hnormal]
    exact normalize_ne_nil (by rwa [trim_eq_self hflush hclosed'])
  obtain ⟨sep₂, hsep₂, heq₂⟩ := normalize_front hfront hsep₁ hne' (flush_normalize _)
    (closed_normalize _)
  refine ⟨sep₁, sep₂, hsep₂, heq₁, ?_⟩
  rw [spacedTwice, heq₁, heq₂, spacedTwice]

namespace Captions

/-! ## What is already shown -/

/-- A line of the transcript as the page's file holds it, without its line feed. -/
def renderedLine (line : Line) : Text := '[' :: line.time ++ "] ".toList ++ line.text

omit [UnicodeTables] in
theorem contains_rendered {c : Captions} {w : Text} (hline : '\n' ∉ w) (hne : w ≠ []) :
    contains c.rendered w = true ↔ ∃ line ∈ c.lines, w <:+: renderedLine line := by
  rw [contains, decide_eq_true_iff]
  exact infix_terminated hline hne c.lines

theorem appendPreviewLine_eq (hd : DecimalsApart) (c : Captions) {raw time rest : Text} {s : Char}
    (hstamp : stampPrefix (trim raw) = some (time, s :: rest)) (now : Text) :
    (c.appendPreviewLine (trim raw) now).lines =
      if ∃ line ∈ c.lines, normalizeJapaneseSpacing (trim raw) <:+: renderedLine line ∨
          renderedLine ⟨time, spacedTwice (s :: rest)⟩ <:+: renderedLine line then c.lines
      else c.lines ++ [⟨time, spacedTwice (s :: rest)⟩] := by
  obtain ⟨sep₁, sep₂, hsep₂, hvalue, htwice⟩ := normalize_stamped hd hstamp
  have hnormal := spaceNormal_spacedTwice (s :: rest)
  have hnext : stamped (normalizeJapaneseSpacing (trim raw)) now =
      some ⟨time, spacedTwice (s :: rest)⟩ :=
    stamped_front hstamp hsep₂ htwice hnormal.head
  have hfirst := contains_rendered (c := c)
    (no_newline_of_spaced (spaced_normalize (trim raw))) (by simp [hvalue, stampText])
  have hfront := front_stampText hd hstamp
  have hsecond := contains_rendered (c := c) (w := renderedLine ⟨time, spacedTwice (s :: rest)⟩)
    (by
      have htime : '\n' ∉ stampText time := fun h => absurd (hfront.plain _ h) (by decide)
      have htext := no_newline_of_spaced hnormal.toSpaced
      simp only [renderedLine, stampText, List.cons_append, List.mem_cons, List.mem_append,
        not_or] at htime ⊢
      exact ⟨htime.1, ⟨htime.2.1, by decide⟩, htext⟩)
    (by simp [renderedLine])
  unfold appendPreviewLine
  simp only [hnext]
  by_cases hshown : contains c.rendered (normalizeJapaneseSpacing (trim raw)) = true ∨
      contains c.rendered (renderedLine ⟨time, spacedTwice (s :: rest)⟩) = true
  · have hcode := hshown
    rw [hfirst, hsecond] at hshown
    rw [if_pos (by simpa [renderedLine] using hcode), if_pos]
    rcases hshown with ⟨line, hline, hw⟩ | ⟨line, hline, hw⟩
    · exact ⟨line, hline, .inl hw⟩
    · exact ⟨line, hline, .inr hw⟩
  · have hcode := hshown
    rw [hfirst, hsecond] at hshown
    rw [if_neg (by simpa [renderedLine] using hcode), if_neg, push_lines]
    rintro ⟨line, hline, hw | hw⟩
    · exact hshown (.inl ⟨line, hline, hw⟩)
    · exact hshown (.inr ⟨line, hline, hw⟩)

/-! ## One stamped line -/

/-- The line goes to the older dialect, unless it announces a file. -/
theorem ingestLine_stampedLine {c : Captions} (hc : c.loopbackStream = false)
    {raw time rest : Text} {s : Char} (hstamp : stampPrefix (trim raw) = some (time, s :: rest))
    (hs : isWhitespace s = true) (now : Text) :
    (c.ingestLine raw now).1 =
      if transcriptCapture raw = none then c.appendPreviewLine (trim raw) now else c := by
  have htrim : trim raw = stampText time ++ s :: rest := (stampPrefix_eq hstamp).1
  have hempty : (trim raw).isEmpty = false := by rw [htrim]; rfl
  have hline : isStampedLine (trim raw) = true := by simp [isStampedLine, hstamp, hs]
  obtain ⟨after, hstart⟩ : ∃ after, trimStart raw = '[' :: after := by
    obtain ⟨spaces, hspaces⟩ := List.rdropWhile_prefix isWhitespace (trimStart raw)
    rw [← trim, htrim] at hspaces
    exact ⟨_, hspaces.symm⟩
  have hpart : stripPrefix "@@PARTIAL\t".toList (trimStart raw) = none := by
    rw [hstart]
    exact stripPrefix_cons_ne (show '@' ≠ '[' by simp) _ _
  have hfinal : stripPrefix "@@FINAL\t".toList (trimStart raw) = none := by
    rw [hstart]
    exact stripPrefix_cons_ne (show '@' ≠ '[' by simp) _ _
  unfold ingestLine
  cases transcriptCapture raw with
  | some found => rfl
  | none =>
    simp only [hpart, hfinal, hempty, hc, hline, Bool.false_eq_true, if_false, if_true]

/-- What the module's own head promises of the older dialect: "appended unless already shown". -/
def AppendedUnlessShown (c c' : Captions) (caption : Line) : Prop :=
  c'.lines = if caption ∈ c.lines then c.lines else c.lines ++ [caption]

omit [UnicodeTables] in
theorem appendedUnlessShown_of_mem {c c' : Captions} {caption : Line} (h : caption ∈ c.lines) :
    AppendedUnlessShown c c' caption ↔ c'.lines = c.lines := by
  rw [AppendedUnlessShown, if_pos h]

omit [UnicodeTables] in
theorem appendedUnlessShown_of_not_mem {c c' : Captions} {caption : Line}
    (h : caption ∉ c.lines) :
    AppendedUnlessShown c c' caption ↔ c'.lines = c.lines ++ [caption] := by
  rw [AppendedUnlessShown, if_neg h]

/-- **A stamped line is appended unless its caption is there, exactly when the caption is
    there or nothing hides the line**: it announces no file, and neither the line as spaced
    once nor the caption's rendering stands inside the rendering of a line already shown. -/
theorem appendedUnlessShown_iff (hd : DecimalsApart) {c : Captions}
    (h : (system false).Reachable c) {raw time rest : Text} {s : Char}
    (hstamp : stampPrefix (trim raw) = some (time, s :: rest)) (hs : isWhitespace s = true)
    (now : Text) :
    AppendedUnlessShown c (c.ingestLine raw now).1 ⟨time, spacedTwice (s :: rest)⟩ ↔
      ⟨time, spacedTwice (s :: rest)⟩ ∈ c.lines ∨
        (NoAnnouncement raw ∧ ∀ line ∈ c.lines,
          ¬normalizeJapaneseSpacing (trim raw) <:+: renderedLine line ∧
          ¬renderedLine ⟨time, spacedTwice (s :: rest)⟩ <:+: renderedLine line) := by
  have hlines := appendPreviewLine_eq hd c hstamp now
  rw [ingestLine_stampedLine (system_loopbackStream h) hstamp hs now]
  by_cases hmem : ⟨time, spacedTwice (s :: rest)⟩ ∈ c.lines
  · -- The search finds at least the line itself.
    have hfound : ∃ line ∈ c.lines, normalizeJapaneseSpacing (trim raw) <:+: renderedLine line ∨
        renderedLine ⟨time, spacedTwice (s :: rest)⟩ <:+: renderedLine line :=
      ⟨_, hmem, .inr (List.infix_refl _)⟩
    rw [if_pos hfound] at hlines
    rw [appendedUnlessShown_of_mem hmem]
    refine ⟨fun _ => .inl hmem, fun _ => ?_⟩
    split_ifs
    · exact hlines
    · rfl
  · rw [appendedUnlessShown_of_not_mem hmem, or_iff_right hmem, NoAnnouncement]
    split_ifs with hnone
    · rw [hlines]
      simp only [hnone, true_and]
      split_ifs with hfound
      · obtain ⟨line, hline, hhidden⟩ := hfound
        refine ⟨fun heq => absurd heq (by simp), fun hall => ?_⟩
        rcases hhidden with hw | hw
        · exact absurd hw (hall line hline).1
        · exact absurd hw (hall line hline).2
      · refine ⟨fun _ line hline => ?_, fun _ => rfl⟩
        exact ⟨fun hw => hfound ⟨line, hline, .inl hw⟩, fun hw => hfound ⟨line, hline, .inr hw⟩⟩
    · simp [hnone]

omit [UnicodeTables] in
theorem not_space_of_isDigit {c : Char} (h : c.isDigit = true) : isWhitespace c = false := by
  by_contra hspace
  simp only [Char.isDigit, Bool.and_eq_true, decide_eq_true_eq, UInt32.le_iff_toNat_le] at h
  simp only [isWhitespace, inRange, Bool.not_eq_false, Bool.or_eq_true, decide_eq_true_eq,
    beq_iff_eq, Char.toNat] at hspace
  have hlo : '0'.val.toNat = 48 := rfl
  have hhi : '9'.val.toNat = 57 := rfl
  rw [hlo, hhi] at h
  omega

omit [UnicodeTables] in
theorem decimalsApart_ascii : @DecimalsApart asciiTables :=
  @DecimalsApart.mk asciiTables (fun _ => not_space_of_isDigit) rfl rfl

omit [UnicodeTables] in
/-- A caption that begins another one, but of an earlier second, is appended behind it. -/
theorem appendedUnlessShown_iff_later :
    let _ := asciiTables
    let c :=
      ((Captions.new false).ingestLine "[10:00:00] はい、そうです".toList "10:00:00".toList).1
    c.lines = [⟨"10:00:00".toList, "はい、そうです".toList⟩] ∧
      AppendedUnlessShown c (c.ingestLine "[10:00:02] はい".toList "10:00:03".toList).1
        ⟨"10:00:02".toList, "はい".toList⟩ := by
  intro _ c
  have hlines : c.lines = [⟨"10:00:00".toList, "はい、そうです".toList⟩] := by decide
  have hstamp : @stampPrefix asciiTables (trim "[10:00:02] はい".toList) =
      some ("10:00:02".toList, ' ' :: "はい".toList) := rfl
  refine ⟨hlines, (@appendedUnlessShown_iff asciiTables decimalsApart_ascii c
    (.next (.start rfl) (.inl ⟨_, _, rfl⟩)) _ _ _ _ hstamp rfl "10:00:03".toList).mpr
    (.inr ⟨?_, ?_⟩)⟩
  · unfold NoAnnouncement
    rfl
  · rw [hlines]
    decide

omit [UnicodeTables] in
/-- **A caption that begins another one of the same second is dropped.** -/
theorem shorter_caption_dropped :
    let _ := asciiTables
    let c :=
      ((Captions.new false).ingestLine "[10:00:00] はい、そうです".toList "10:00:00".toList).1
    (system false).Reachable c ∧
      ¬AppendedUnlessShown c (c.ingestLine "[10:00:00] はい".toList "10:00:01".toList).1
        ⟨"10:00:00".toList, "はい".toList⟩ := by
  intro _ c
  refine ⟨.next (.start rfl) (.inl ⟨_, _, rfl⟩), ?_⟩
  unfold AppendedUnlessShown
  decide

end Captions

end

end LocalMeetingStt
