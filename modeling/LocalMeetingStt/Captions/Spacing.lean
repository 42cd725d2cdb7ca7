import LocalMeetingStt.Captions.Text

/-!
# What spacing and cleaning leave behind

`normalize_japanese_spacing` runs four passes over a text, and one run of it is not
enough: its matches do not overlap, so of `あ い う` it removes the first gap only.
`clean_transcript_text` runs it and then collapses repeats, which moves characters next
to each other that were not. A final caption is cleaned twice and then spaced once
more, and what is committed is the result of all of it.

`SpaceNormal` is the state all this ends in: single spaces, none at an end, none between
Japanese characters, before a mark or after an opening bracket. A space-normal text is a
fixed point of the spacing (`SpaceNormal.normalize`), and a text cleaned twice is
space-normal (`spaceNormal_clean_clean`). The first half of the file is about what one
pass keeps of what the passes before it have reached; `Seen` is the observer that says it.
-/

namespace LocalMeetingStt

open Scan

/-! ## The classes of characters are disjoint -/

theorem isMark_cases {c : Char} (h : isMark c = true) :
    c = '、' ∨ c = '。' ∨ c = '！' ∨ c = '？' := by
  simpa [isMark, or_assoc] using h

theorem isOpener_cases {c : Char} (h : isOpener c = true) : c = '「' ∨ c = '『' ∨ c = '（' := by
  simpa [isOpener, or_assoc] using h

theorem mark_disjoint {c : Char} (h : isMark c = true) :
    isWhitespace c = false ∧ isKanaOrHan c = false ∧ isOpener c = false := by
  rcases isMark_cases h with rfl | rfl | rfl | rfl <;> decide

theorem opener_disjoint {c : Char} (h : isOpener c = true) :
    isWhitespace c = false ∧ isKanaOrHan c = false := by
  rcases isOpener_cases h with rfl | rfl | rfl <;> decide

theorem kana_not_space {c : Char} (h : isKanaOrHan c = true) : isWhitespace c = false := by
  by_contra hspace
  simp only [isKanaOrHan, inRange, Bool.or_eq_true, decide_eq_true_eq] at h
  simp only [isWhitespace, inRange, Bool.not_eq_false, Bool.or_eq_true, decide_eq_true_eq,
    beq_iff_eq] at hspace
  omega

theorem space_is_space : isWhitespace ' ' = true := by decide

/-! ## What the four matchers recognize -/

/-- A run of whitespace. -/
def Blank (spaces : Text) : Prop := spaces ≠ [] ∧ ∀ s ∈ spaces, isWhitespace s = true

/-- No whitespace at the start. -/
def Flush (t : Text) : Prop := ∀ c r, t = c :: r → isWhitespace c = false

/-- After any whitespace comes a character of a class. -/
def Ahead (p : Char → Bool) (t : Text) : Prop :=
  ∃ b r, t.dropWhile isWhitespace = b :: r ∧ p b = true

theorem blank_takeWhile {t : Text} (h : (t.takeWhile isWhitespace).isEmpty = false) :
    Blank (t.takeWhile isWhitespace) :=
  ⟨by simpa using h, fun _ hs => List.mem_takeWhile_imp hs⟩

theorem flush_dropWhile (t : Text) : Flush (t.dropWhile isWhitespace) := by
  intro c r h
  have := List.head?_dropWhile_not isWhitespace t
  rw [h] at this
  simpa using this

theorem kanaMatch_some {t r : Text} {n : Nat} (h : kanaMatch t = some (r, n)) :
    ∃ a spaces b rest, t = a :: (spaces ++ b :: rest) ∧ isKanaOrHan a = true ∧
      isKanaOrHan b = true ∧ Blank spaces ∧ r = [a, b] ∧ n = spaces.length + 2 := by
  cases t with
  | nil => cases h
  | cons a rest =>
    simp only [kanaMatch] at h
    split at h
    · cases h
    · next b after hdrop =>
      split_ifs at h with hcond
      simp only [Bool.and_eq_true, Bool.not_eq_true'] at hcond
      obtain ⟨⟨ha, hb⟩, hne⟩ := hcond
      obtain ⟨rfl, rfl⟩ := Prod.mk.inj (Option.some.inj h)
      refine ⟨a, rest.takeWhile isWhitespace, b, after, ?_, ha, hb, blank_takeWhile hne, rfl, rfl⟩
      rw [← hdrop, List.takeWhile_append_dropWhile]

theorem kanaMatch_none {a : Char} {rest : Text} (h : kanaMatch (a :: rest) = none)
    (ha : isKanaOrHan a = true) (hahead : Ahead isKanaOrHan rest) : Flush rest := by
  obtain ⟨b, after, hdrop, hb⟩ := hahead
  simp only [kanaMatch, hdrop, ha, hb, Bool.true_and] at h
  split_ifs at h with hempty
  intro c r hr
  subst hr
  by_contra hspace
  simp only [Bool.not_eq_false] at hspace
  simp [hspace] at hempty

theorem beforePunctMatch_some {t r : Text} {n : Nat} (h : beforePunctMatch t = some (r, n)) :
    ∃ spaces p rest, t = spaces ++ p :: rest ∧ isMark p = true ∧ Blank spaces ∧ r = [p] ∧
      n = spaces.length + 1 := by
  simp only [beforePunctMatch] at h
  split at h
  · cases h
  · next p after hdrop =>
    split_ifs at h with hcond
    simp only [Bool.and_eq_true, Bool.not_eq_true'] at hcond
    obtain ⟨rfl, rfl⟩ := Prod.mk.inj (Option.some.inj h)
    refine ⟨t.takeWhile isWhitespace, p, after, ?_, hcond.1, blank_takeWhile hcond.2, rfl, rfl⟩
    rw [← hdrop, List.takeWhile_append_dropWhile]

theorem beforePunctMatch_none {x : Char} {xs : Text} (h : beforePunctMatch (x :: xs) = none)
    (hx : isWhitespace x = true) : ¬Ahead isMark xs := by
  rintro ⟨p, after, hdrop, hp⟩
  simp [beforePunctMatch, hx, hdrop, hp] at h

theorem afterOpenMatch_some {t r : Text} {n : Nat} (h : afterOpenMatch t = some (r, n)) :
    ∃ o spaces rest, t = o :: (spaces ++ rest) ∧ isOpener o = true ∧ Blank spaces ∧
      Flush rest ∧ r = [o] ∧ n = spaces.length + 1 := by
  cases t with
  | nil => cases h
  | cons o rest =>
    simp only [afterOpenMatch] at h
    split_ifs at h with hcond
    simp only [Bool.and_eq_true, Bool.not_eq_true'] at hcond
    obtain ⟨rfl, rfl⟩ := Prod.mk.inj (Option.some.inj h)
    exact ⟨o, rest.takeWhile isWhitespace, rest.dropWhile isWhitespace,
      by rw [List.takeWhile_append_dropWhile], hcond.1, blank_takeWhile hcond.2,
      flush_dropWhile rest, rfl, rfl⟩

theorem afterOpenMatch_none {o : Char} {rest : Text} (h : afterOpenMatch (o :: rest) = none)
    (ho : isOpener o = true) : Flush rest := by
  intro c r hr
  subst hr
  by_contra hspace
  simp only [Bool.not_eq_false] at hspace
  simp [afterOpenMatch, ho, hspace] at h

theorem spacesMatch_some {t r : Text} {n : Nat} (h : spacesMatch t = some (r, n)) :
    ∃ spaces rest, t = spaces ++ rest ∧ Blank spaces ∧ Flush rest ∧ r = [' '] ∧
      n = spaces.length := by
  simp only [spacesMatch] at h
  split_ifs at h with hempty
  obtain ⟨rfl, rfl⟩ := Prod.mk.inj (Option.some.inj h)
  exact ⟨t.takeWhile isWhitespace, t.dropWhile isWhitespace,
    by rw [List.takeWhile_append_dropWhile], blank_takeWhile (by simpa using hempty),
    flush_dropWhile t, rfl, rfl⟩

theorem spacesMatch_none {x : Char} {xs : Text} (h : spacesMatch (x :: xs) = none) :
    isWhitespace x = false := by
  by_contra hspace
  simp only [Bool.not_eq_false] at hspace
  simp [spacesMatch, hspace] at h

theorem kanaMatch_progress : Progress kanaMatch where
  nil := rfl
  pos h := by obtain ⟨_, _, _, _, -, -, -, -, -, rfl⟩ := kanaMatch_some h; omega

theorem beforePunctMatch_progress : Progress beforePunctMatch where
  nil := rfl
  pos h := by obtain ⟨_, _, _, -, -, -, -, rfl⟩ := beforePunctMatch_some h; omega

theorem afterOpenMatch_progress : Progress afterOpenMatch where
  nil := rfl
  pos h := by obtain ⟨_, _, _, -, -, -, -, -, rfl⟩ := afterOpenMatch_some h; omega

theorem spacesMatch_progress : Progress spacesMatch where
  nil := rfl
  pos h := by
    obtain ⟨_, _, -, ⟨hne, -⟩, -, -, rfl⟩ := spacesMatch_some h
    exact List.length_pos_of_ne_nil hne

/-! ## The observer of spaces

It remembers the last character that is no whitespace and whether whitespace followed:
for a Japanese character also whether a gap joined it to the Japanese character before. -/

inductive Seen where
  | other
  | opener
  | kana (joined : Bool)
  /-- Whitespace, after a Japanese character or after something else. -/
  | gap (before : Option Bool)
deriving DecidableEq, Repr

def Seen.afterSpace : Seen → Seen
  | .kana joined => .gap (some joined)
  | .gap before => .gap before
  | .other | .opener => .gap none

def Seen.afterKana : Seen → Seen
  | .gap (some _) => .kana true
  | .other | .opener | .kana _ | .gap none => .kana false

def Seen.next (q : Seen) (c : Char) : Seen :=
  if isWhitespace c then q.afterSpace
  else if isKanaOrHan c then q.afterKana
  else if isOpener c then .opener
  else .other

/-- A gap between two Japanese characters, of which `P` says whether the first may have
    been joined by a gap itself. -/
def KanaGap (P : Bool → Prop) (q : Seen) (c : Char) : Prop :=
  ∃ joined, q = .gap (some joined) ∧ P joined ∧ isKanaOrHan c = true

/-- Whitespace that is no single space. -/
def Unplain (q : Seen) (c : Char) : Prop :=
  isWhitespace c = true ∧ ((∃ before, q = .gap before) ∨ c ≠ ' ')

def SpaceBeforeMark (q : Seen) (c : Char) : Prop := (∃ before, q = .gap before) ∧ isMark c = true

def SpaceAfterOpener (q : Seen) (c : Char) : Prop := q = .opener ∧ isWhitespace c = true

namespace Seen

theorem next_mark {c : Char} (h : isMark c = true) (q : Seen) : q.next c = .other := by
  obtain ⟨hspace, hkana, hopener⟩ := mark_disjoint h
  simp [next, hspace, hkana, hopener]

theorem next_opener {c : Char} (h : isOpener c = true) (q : Seen) : q.next c = .opener := by
  obtain ⟨hspace, hkana⟩ := opener_disjoint h
  simp [next, hspace, hkana, h]

theorem next_space {c d : Char} (hc : isWhitespace c = true) (hd : isWhitespace d = true)
    (q : Seen) : q.next c = q.next d ∧ (q.next c).next d = q.next c := by
  cases q <;> simp [next, hc, hd, afterSpace]

theorem next_of_space {c : Char} (h : isWhitespace c = true) (q : Seen) :
    ∃ before, q.next c = .gap before := by
  cases q <;> simp [next, afterSpace, h]

theorem next_of_kana {c : Char} (h : isKanaOrHan c = true) (q : Seen) :
    ∃ joined, q.next c = .kana joined := by
  rcases q with _ | _ | _ | (_ | _) <;> simp [next, afterKana, kana_not_space h, h]

theorem kana_next_space {c : Char} (h : isWhitespace c = true) (joined : Bool) :
    (kana joined).next c = .gap (some joined) := by
  simp [next, afterSpace, h]

theorem gap_next_kana {c : Char} (h : isKanaOrHan c = true) (joined : Bool) :
    (gap (some joined)).next c = .kana true := by
  simp [next, afterKana, kana_not_space h, h]

theorem next_eq_gap {q : Seen} {c : Char} {before : Option Bool} (h : q.next c = .gap before) :
    isWhitespace c = true ∧ q.afterSpace = .gap before := by
  unfold next at h
  split_ifs at h with hspace
  · exact ⟨hspace, h⟩
  · rcases q with _ | _ | _ | (_ | _) <;> cases h

theorem next_eq_kana {q : Seen} {c : Char} {joined : Bool} (h : q.next c = .kana joined) :
    isKanaOrHan c = true := by
  unfold next at h
  split_ifs at h with hspace hkana
  · cases q <;> cases h
  · exact hkana

theorem next_eq_opener {q : Seen} {c : Char} (h : q.next c = .opener) : isOpener c = true := by
  unfold next at h
  split_ifs at h with hspace hkana hopener
  · cases q <;> cases h
  · rcases q with _ | _ | _ | (_ | _) <;> cases h
  · exact hopener

/-- A run of whitespace is one space to the observer. -/
theorem foldl_blank {spaces : Text} (h : Blank spaces) (q : Seen) :
    spaces.foldl next q = q.next ' ' := by
  obtain ⟨hne, hall⟩ := h
  obtain ⟨c, cs, rfl⟩ := List.exists_cons_of_ne_nil hne
  have hc := hall c List.mem_cons_self
  have hrest : ∀ (cs : Text) (q : Seen), (∀ s ∈ cs, isWhitespace s = true) →
      cs.foldl next (q.next c) = q.next c := by
    intro cs
    induction cs with
    | nil => exact fun _ _ => rfl
    | cons d ds ih =>
      intro q hds
      rw [List.foldl_cons, (next_space hc (hds d List.mem_cons_self) q).2]
      exact ih q fun s hs => hds s (List.mem_cons_of_mem _ hs)
  rw [List.foldl_cons, hrest cs q fun s hs => hall s (List.mem_cons_of_mem _ hs)]
  exact (next_space hc space_is_space q).1

/-- The state the observer may be in instead, after the spaces behind a bracket went:
    it objects to less of what this section is about. -/
def Below (q q' : Seen) : Prop := q = q' ∨ (q = .opener ∧ q' = .gap none)

theorem Below.next {q q' : Seen} (h : q.Below q') (c : Char) : (q.next c).Below (q'.next c) := by
  rcases h with rfl | ⟨rfl, rfl⟩
  · exact .inl rfl
  · left
    unfold Seen.next
    split_ifs <;> rfl

end Seen

/-! ## What the passes keep -/

theorem keeps_beforePunct (P : Bool → Prop) {t : Text} {q : Seen}
    (h : Accepts Seen.next (KanaGap P) q t) :
    Accepts Seen.next (KanaGap P) q (scan beforePunctMatch t) := by
  refine Accepts.scan beforePunctMatch_progress (R := Eq) ?_ ?_ t q q rfl h
  · rintro q _ x rfl
    exact ⟨id, rfl⟩
  · rintro xs r n q _ hm rfl hacc
    obtain ⟨spaces, p, rest, rfl, hp, -, rfl, rfl⟩ := beforePunctMatch_some hm
    have htake : (spaces ++ p :: rest).take (spaces.length + 1) = spaces ++ [p] := by
      rw [List.append_cons, List.take_append_of_le_length (by simp),
        List.take_of_length_le (by simp)]
    rw [htake, List.foldl_append]
    refine ⟨⟨?_, trivial⟩, ?_⟩
    · rintro ⟨_, -, -, hkana⟩
      simp [(mark_disjoint hp).2.1] at hkana
    · exact (Seen.next_mark hp _).trans (Seen.next_mark hp _).symm

theorem keeps_afterOpen {bad : Seen → Char → Prop} (hopener : ∀ c, ¬bad .opener c)
    (hbad : ∀ q c, isOpener c = true → ¬bad q c) {t : Text} {q : Seen}
    (h : Accepts Seen.next bad q t) : Accepts Seen.next bad q (scan afterOpenMatch t) := by
  refine Accepts.scan afterOpenMatch_progress (R := Seen.Below) ?_ ?_ t q q (.inl rfl) h
  · rintro q q' x hR
    refine ⟨?_, hR.next x⟩
    rcases hR with rfl | ⟨rfl, -⟩
    · exact id
    · exact fun hb => absurd hb (hopener x)
  · rintro xs r n q q' hm hR -
    obtain ⟨o, spaces, rest, rfl, ho, hblank, -, rfl, rfl⟩ := afterOpenMatch_some hm
    refine ⟨⟨hbad q o ho, trivial⟩, .inr ⟨Seen.next_opener ho q, ?_⟩⟩
    rw [List.take_succ_cons, List.take_left, List.foldl_cons, Seen.next_opener ho,
      Seen.foldl_blank hblank]
    rfl

theorem keeps_spaces {bad : Seen → Char → Prop}
    (hbad : ∀ q c d, isWhitespace c = true → isWhitespace d = true → bad q c → bad q d)
    {t : Text} {q : Seen} (h : Accepts Seen.next bad q t) :
    Accepts Seen.next bad q (scan spacesMatch t) := by
  refine Accepts.scan spacesMatch_progress (R := Eq) ?_ ?_ t q q rfl h
  · rintro q _ x rfl
    exact ⟨id, rfl⟩
  · rintro xs r n q _ hm rfl hacc
    obtain ⟨spaces, rest, rfl, hblank, -, rfl, rfl⟩ := spacesMatch_some hm
    rw [List.take_left] at hacc ⊢
    refine ⟨⟨?_, trivial⟩, (Seen.foldl_blank hblank q).symm⟩
    obtain ⟨hne, hall⟩ := hblank
    obtain ⟨c, cs, rfl⟩ := List.exists_cons_of_ne_nil hne
    exact fun hb => hacc.1 (hbad q ' ' c space_is_space (hall c List.mem_cons_self) hb)

/-! ## What each pass adds -/

theorem Ahead.of_not_space {p : Char → Bool} {x : Char} {xs : Text}
    (hspace : isWhitespace x = false) (hp : p x = true) : Ahead p (x :: xs) :=
  ⟨x, xs, by rw [List.dropWhile_cons_of_neg (by simp [hspace])], hp⟩

theorem ahead_cons_space {p : Char → Bool} {x : Char} {xs : Text}
    (hspace : isWhitespace x = true) : Ahead p (x :: xs) ↔ Ahead p xs := by
  simp [Ahead, hspace]

theorem ahead_blank {p : Char → Bool} {spaces rest : Text} {b : Char} (h : Blank spaces)
    (hspace : isWhitespace b = false) (hp : p b = true) : Ahead p (spaces ++ b :: rest) := by
  refine ⟨b, rest, ?_, hp⟩
  rw [List.dropWhile_append_of_pos h.2, List.dropWhile_cons_of_neg (by simp [hspace])]

/-- Two gaps in a row, between three Japanese characters: what one pass leaves one of. -/
def DoubleGap (t : Text) : Prop :=
  ∃ a spaces b spaces' c rest, isKanaOrHan a = true ∧ Blank spaces ∧ isKanaOrHan b = true ∧
    Blank spaces' ∧ isKanaOrHan c = true ∧ t = a :: (spaces ++ b :: (spaces' ++ c :: rest))

/-- The first pass removes every gap that does not follow a gap it has removed; in a
    text without double gaps it removes them all (`P` is then true of everything). -/
theorem adds_kana {P : Bool → Prop} {t : Text}
    (hdouble : P false → ∀ s, s <:+ t → ¬DoubleGap s) {q : Seen} (hq : q = .other ∨ q = .opener) :
    Accepts Seen.next (KanaGap P) q (scan kanaMatch t) := by
  -- What the rest may look like behind a Japanese character, and behind a gap after one.
  refine accepts_scan kanaMatch_progress
    (fun q xs => xs <:+ t ∧
      (∀ d, q = .kana d → P d → Ahead isKanaOrHan xs → Flush xs) ∧
      ∀ d, q = .gap (some d) → P d → ¬Ahead isKanaOrHan xs) ?_ ?_ t q ?_
  · rintro q x xs hm ⟨hsuffix, hkana, hgap⟩
    refine ⟨?_, (List.suffix_cons x xs).trans hsuffix, ?_, ?_⟩
    · rintro ⟨d, rfl, hd, hx⟩
      exact hgap d rfl hd (.of_not_space (kana_not_space hx) hx)
    · exact fun d hnext _ hahead => kanaMatch_none hm (Seen.next_eq_kana hnext) hahead
    · intro d hnext hd hahead
      -- A space was copied, so what stands before it decides.
      obtain ⟨hx, hafter⟩ := Seen.next_eq_gap hnext
      have hahead' := (ahead_cons_space hx).mpr hahead
      cases q with
      | kana joined =>
        cases hafter
        have := hkana d rfl hd hahead' x xs rfl
        simp [hx] at this
      | gap before =>
        cases hafter
        exact hgap d rfl hd hahead'
      | other => cases hafter
      | opener => cases hafter
  · rintro q xs r n hm ⟨hsuffix, -, hgap⟩
    obtain ⟨a, spaces, b, rest, rfl, ha, hb, hblank, rfl, rfl⟩ := kanaMatch_some hm
    have hdrop : (a :: (spaces ++ b :: rest)).drop (spaces.length + 2) = rest := by
      rw [List.drop_succ_cons, List.append_cons, List.drop_left' (by simp)]
    have haspace := kana_not_space ha
    have hbspace := kana_not_space hb
    obtain ⟨d, hd⟩ := Seen.next_of_kana ha q
    have hlast : (q.next a).next b = .kana false := by
      rw [hd]
      simp [Seen.next, Seen.afterKana, hbspace, hb]
    rw [hdrop]
    refine ⟨⟨?_, ?_, trivial⟩, ?_, ?_, ?_⟩
    · rintro ⟨d, rfl, hd, -⟩
      exact hgap d rfl hd (.of_not_space haspace ha)
    · rintro ⟨d', hd', -, -⟩
      rw [hd] at hd'
      cases hd'
    · exact (List.suffix_append (a :: spaces ++ [b]) rest).trans (by simpa using hsuffix)
    · rintro d' hd' hP ⟨c, after, hafter, hc⟩
      rw [List.foldl_cons, List.foldl_cons, List.foldl_nil, hlast] at hd'
      cases hd'
      -- Another gap behind the joined pair would be the second of a double gap.
      intro y ys hy
      by_contra hspace
      simp only [Bool.not_eq_false] at hspace
      refine hdouble hP _ hsuffix ⟨a, spaces, b, rest.takeWhile isWhitespace, c, after, ha, hblank,
        hb, blank_takeWhile (by simp [hy, hspace]), hc, ?_⟩
      rw [← hafter, List.takeWhile_append_dropWhile]
    · intro d' hd'
      rw [List.foldl_cons, List.foldl_cons, List.foldl_nil, hlast] at hd'
      cases hd'
  · refine ⟨List.suffix_refl t, ?_, ?_⟩ <;> rcases hq with rfl | rfl <;> simp

theorem adds_beforePunct {t : Text} {q : Seen} (hq : q = .other ∨ q = .opener) :
    Accepts Seen.next SpaceBeforeMark q (scan beforePunctMatch t) := by
  refine accepts_scan beforePunctMatch_progress
    (fun q xs => ∀ before, q = .gap before → ¬Ahead isMark xs) ?_ ?_ t q ?_
  · intro q x xs hm hgap
    refine ⟨?_, fun before hnext => beforePunctMatch_none hm (Seen.next_eq_gap hnext).1⟩
    rintro ⟨⟨before, rfl⟩, hx⟩
    exact hgap before rfl (.of_not_space (mark_disjoint hx).1 hx)
  · intro q xs r n hm hgap
    obtain ⟨spaces, p, rest, rfl, hp, hblank, rfl, rfl⟩ := beforePunctMatch_some hm
    refine ⟨⟨?_, trivial⟩, ?_⟩
    · rintro ⟨⟨before, rfl⟩, -⟩
      exact hgap before rfl (ahead_blank hblank (mark_disjoint hp).1 hp)
    · intro before hnext
      rw [List.foldl_cons, List.foldl_nil, Seen.next_mark hp] at hnext
      cases hnext
  · rcases hq with rfl | rfl <;> simp

theorem adds_afterOpen {t : Text} (h : Flush t) :
    Accepts Seen.next SpaceAfterOpener .opener (scan afterOpenMatch t) := by
  refine accepts_scan afterOpenMatch_progress
    (fun q xs => q = Seen.opener → Flush xs) ?_ ?_ t .opener fun _ => h
  · intro q x xs hm hflush
    refine ⟨?_, ?_⟩
    · rintro ⟨rfl, hx⟩
      simp [hflush rfl x xs rfl] at hx
    · exact fun hnext => afterOpenMatch_none hm (Seen.next_eq_opener hnext)
  · intro q xs r n hm hflush
    obtain ⟨o, spaces, rest, rfl, ho, hblank, hrest, rfl, rfl⟩ := afterOpenMatch_some hm
    refine ⟨⟨?_, trivial⟩, fun _ => ?_⟩
    · rintro ⟨-, hspace⟩
      simp [(opener_disjoint ho).1] at hspace
    · rwa [List.drop_succ_cons, List.drop_left]

theorem adds_spaces {t : Text} {q : Seen} (hq : q = .other ∨ q = .opener) :
    Accepts Seen.next Unplain q (scan spacesMatch t) := by
  refine accepts_scan spacesMatch_progress
    (fun q xs => ∀ before, q = .gap before → Flush xs) ?_ ?_ t q ?_
  · intro q x xs hm _
    have hx := spacesMatch_none hm
    refine ⟨fun hbad => absurd hbad.1 (by simp [hx]), fun before hnext => ?_⟩
    have := (Seen.next_eq_gap hnext).1
    simp [hx] at this
  · intro q xs r n hm hflush
    obtain ⟨spaces, rest, rfl, hblank, hrest, rfl, rfl⟩ := spacesMatch_some hm
    refine ⟨⟨?_, trivial⟩, fun _ _ => by rwa [List.drop_left]⟩
    rintro ⟨-, ⟨before, rfl⟩ | hne⟩
    · obtain ⟨c, cs, rfl⟩ := List.exists_cons_of_ne_nil hblank.1
      have := hflush before rfl c (cs ++ rest) rfl
      simp [hblank.2 c List.mem_cons_self] at this
    · exact hne rfl
  · rcases hq with rfl | rfl <;> simp

/-! ## The ends of a text -/

/-- The last character, if there is one, is no whitespace. -/
def Closed (t : Text) : Prop := ∀ c, t.getLast? = some c → isWhitespace c = false

theorem flush_scan {m : Matcher Char} (hm : Progress m) {t : Text} (ht : Flush t)
    (hhit : ∀ r n, m t = some (r, n) → r ≠ [] ∧ Flush r) : Flush (scan m t) := by
  cases t with
  | nil => exact ht
  | cons x xs =>
    cases hx : m (x :: xs) with
    | none =>
      rw [scan_copy hx]
      rintro c r heq
      obtain ⟨rfl, -⟩ := List.cons.inj heq
      exact ht x xs rfl
    | some found =>
      obtain ⟨r, n⟩ := found
      obtain ⟨hne, hr⟩ := hhit r n hx
      rw [scan_match hx (hm.ne_nil hx) (hm.pos hx)]
      obtain ⟨y, ys, rfl⟩ := List.exists_cons_of_ne_nil hne
      rintro c r heq
      obtain ⟨rfl, -⟩ := List.cons.inj heq
      exact hr y ys rfl

/-- Whether the last character read is whitespace. -/
def blankLast (_ : Bool) (c : Char) : Bool := isWhitespace c

theorem foldl_blankLast {t : Text} (hne : t ≠ []) (q : Bool) :
    t.foldl blankLast q = true ↔ ¬Closed t := by
  obtain ⟨front, c, rfl⟩ := (t.eq_nil_or_concat).resolve_left hne
  simp [Closed, blankLast]

theorem closed_scan {m : Matcher Char} (hm : Progress m) {t : Text} (ht : Closed t)
    (hhit : ∀ xs r n, m xs = some (r, n) → r ≠ [] ∧ (Closed r ∨ ¬Closed (xs.take n))) :
    Closed (scan m t) := by
  have hfold : (scan m t).foldl blankLast false = true → t.foldl blankLast false = true := by
    refine foldl_scan hm (R := fun q q' => q = true → q' = true) ?_ ?_ t false false id
    · exact fun _ _ _ _ h => h
    intro xs r n q q' hmatch _ hr
    obtain ⟨hne, hcase⟩ := hhit xs r n hmatch
    have hopen := hcase.resolve_left ((foldl_blankLast hne q).mp hr)
    exact (foldl_blankLast (fun h => hopen (by simp [h, Closed])) q').mpr hopen
  by_cases hnil : scan m t = []
  · simp [hnil, Closed]
  · by_contra hopen
    have hlast := hfold ((foldl_blankLast hnil false).mpr hopen)
    have hne : t ≠ [] := by
      rintro rfl
      exact hnil rfl
    exact (foldl_blankLast hne false).mp hlast ht

theorem flush_trim (t : Text) : Flush (trim t) := by
  intro c r h
  have hprefix : trim t <+: trimStart t := List.rdropWhile_prefix _ _
  obtain ⟨rest, hrest⟩ := hprefix
  rw [h] at hrest
  exact flush_dropWhile t c (r ++ rest) hrest.symm

theorem closed_trim (t : Text) : Closed (trim t) := by
  intro c hc
  have hne : trim t ≠ [] := by
    rintro h
    rw [h] at hc
    cases hc
  have := List.rdropWhile_last_not isWhitespace (trimStart t) hne
  rw [List.getLast?_eq_some_getLast hne, Option.some.injEq] at hc
  subst hc
  exact Bool.not_eq_true _ ▸ this

theorem trim_eq_self {t : Text} (hhead : Flush t) (hlast : Closed t) : trim t = t := by
  have hstart : trimStart t = t := by
    cases t with
    | nil => rfl
    | cons c r => exact List.dropWhile_cons_of_neg (by simp [hhead c r rfl])
  rw [trim, hstart, List.rdropWhile_eq_self_iff]
  intro hne
  simp [hlast (t.getLast hne) (List.getLast?_eq_some_getLast hne)]

/-! ## Normal texts -/

/-- No whitespace at an end; single spaces; none before a mark or after an opening
    bracket. -/
structure Spaced (t : Text) : Prop where
  head : Flush t
  last : Closed t
  plain : ∀ c ∈ t, isWhitespace c = true → c = ' '
  single : ∀ s c, [s, c] <:+: t → isWhitespace s = true → isWhitespace c = false
  before_mark : ∀ s p, [s, p] <:+: t → isWhitespace s = true → isMark p = false
  after_opener : ∀ o s, [o, s] <:+: t → isOpener o = true → isWhitespace s = false

/-- And none between two Japanese characters: nothing is left to normalize. -/
structure SpaceNormal (t : Text) : Prop extends Spaced t where
  kana : ∀ a s b, [a, s, b] <:+: t → isKanaOrHan a = true → isWhitespace s = true →
    isKanaOrHan b = false

/-- No two gaps in a row: what one pass leaves of the gaps between Japanese characters. -/
def NoDoubleGap (t : Text) : Prop :=
  ∀ a s b s' c, [a, s, b, s', c] <:+: t → isKanaOrHan a = true → isWhitespace s = true →
    isKanaOrHan b = true → isWhitespace s' = true → isKanaOrHan c = false

theorem spaced_nil : Spaced [] := by
  constructor <;> simp [Flush, Closed]

/-- In a text with single spaces a run of whitespace is one character. -/
theorem Spaced.blank {t spaces rest : Text} {a : Char} (h : Spaced t) (hblank : Blank spaces)
    (hwindow : a :: (spaces ++ rest) <:+: t) : ∃ s, spaces = [s] ∧ isWhitespace s = true := by
  obtain ⟨hne, hall⟩ := hblank
  match spaces, hne with
  | [s], _ => exact ⟨s, rfl, hall s List.mem_cons_self⟩
  | s :: s' :: more, _ =>
    have hpair : [s, s'] <:+: t :=
      List.IsInfix.trans ⟨[a], more ++ rest, by simp⟩ hwindow
    have := h.single s s' hpair (hall s (by simp))
    rw [hall s' (by simp)] at this
    cases this

theorem Spaced.not_doubleGap {t s : Text} (h : Spaced t) (hgap : NoDoubleGap t) (hs : s <:+ t) :
    ¬DoubleGap s := by
  rintro ⟨a, spaces, b, spaces', c, rest, ha, hblank, hb, hblank', hc, rfl⟩
  obtain ⟨s, rfl, hspace⟩ := h.blank hblank hs.isInfix
  obtain ⟨s', rfl, hspace'⟩ := h.blank hblank'
    (show b :: (spaces' ++ c :: rest) <:+: t from .trans ⟨[a, s], [], by simp⟩ hs.isInfix)
  have := hgap a s b s' c (.trans ⟨[], rest, by simp⟩ hs.isInfix) ha hspace hb hspace'
  rw [hc] at this
  cases this

/-! ## What one normalization reaches -/

theorem beforePunct_end {xs r : Text} {n : Nat} (h : beforePunctMatch xs = some (r, n)) :
    r ≠ [] ∧ Flush r ∧ Closed r := by
  obtain ⟨spaces, p, rest, -, hp, -, rfl, -⟩ := beforePunctMatch_some h
  simp [Flush, Closed, (mark_disjoint hp).1]

theorem afterOpen_end {xs r : Text} {n : Nat} (h : afterOpenMatch xs = some (r, n)) :
    r ≠ [] ∧ Flush r ∧ Closed r := by
  obtain ⟨o, spaces, rest, -, ho, -, -, rfl, -⟩ := afterOpenMatch_some h
  simp [Flush, Closed, (opener_disjoint ho).1]

theorem kanaMatch_end {xs r : Text} {n : Nat} (h : kanaMatch xs = some (r, n)) :
    r ≠ [] ∧ Flush r ∧ Closed r := by
  obtain ⟨a, spaces, b, rest, -, ha, hb, -, rfl, -⟩ := kanaMatch_some h
  simp [Flush, Closed, kana_not_space ha, kana_not_space hb]

/-- The text after the third pass, before runs of whitespace become single spaces. -/
def unspaced (t : Text) : Text :=
  scan afterOpenMatch (scan beforePunctMatch (scan kanaMatch (trim t)))

theorem flush_unspaced (t : Text) : Flush (unspaced t) := by
  have hkana : Flush (scan kanaMatch (trim t)) :=
    flush_scan kanaMatch_progress (flush_trim t) fun _ _ h => (kanaMatch_end h).imp_right And.left
  have hpunct : Flush (scan beforePunctMatch (scan kanaMatch (trim t))) :=
    flush_scan beforePunctMatch_progress hkana fun _ _ h => (beforePunct_end h).imp_right And.left
  exact flush_scan afterOpenMatch_progress hpunct fun _ _ h =>
    (afterOpen_end h).imp_right And.left

theorem closed_unspaced (t : Text) : Closed (unspaced t) := by
  have hkana : Closed (scan kanaMatch (trim t)) :=
    closed_scan kanaMatch_progress (closed_trim t) fun _ _ _ h =>
      (kanaMatch_end h).imp_right fun hr => .inl hr.2
  have hpunct : Closed (scan beforePunctMatch (scan kanaMatch (trim t))) :=
    closed_scan beforePunctMatch_progress hkana fun _ _ _ h =>
      (beforePunct_end h).imp_right fun hr => .inl hr.2
  exact closed_scan afterOpenMatch_progress hpunct fun _ _ _ h =>
    (afterOpen_end h).imp_right fun hr => .inl hr.2

theorem flush_normalize (t : Text) : Flush (normalizeJapaneseSpacing t) := by
  refine flush_scan spacesMatch_progress (flush_unspaced t) fun r n h => ?_
  obtain ⟨spaces, rest, heq, ⟨hne, hall⟩, -, -, -⟩ := spacesMatch_some h
  obtain ⟨c, cs, rfl⟩ := List.exists_cons_of_ne_nil hne
  have := flush_unspaced t c (cs ++ rest) heq
  simp [hall c List.mem_cons_self] at this

theorem closed_normalize (t : Text) : Closed (normalizeJapaneseSpacing t) := by
  refine closed_scan spacesMatch_progress (closed_unspaced t) fun xs r n h => ?_
  obtain ⟨spaces, rest, rfl, ⟨hne, hall⟩, -, rfl, rfl⟩ := spacesMatch_some h
  refine ⟨by simp, .inr fun hclosed => ?_⟩
  have hlast := List.getLast?_eq_some_getLast hne
  have := hclosed (spaces.getLast hne) (by rwa [List.take_left])
  simp [hall _ (List.getLast_mem hne)] at this

/-- The observer's view of a normalized text: `P` as in `adds_kana`. -/
theorem normalize_accepts_kana {P : Bool → Prop} {t : Text}
    (hdouble : P false → ∀ s, s <:+ trim t → ¬DoubleGap s) :
    Accepts Seen.next (KanaGap P) .opener (normalizeJapaneseSpacing t) := by
  refine keeps_spaces ?_ (keeps_afterOpen ?_ ?_ (keeps_beforePunct P
    (adds_kana hdouble (.inr rfl))))
  · rintro q c d hc - ⟨_, -, -, hkana⟩
    simp [kana_not_space hkana] at hc
  · rintro c ⟨_, hq, -⟩
    cases hq
  · rintro q c hc ⟨_, -, -, hkana⟩
    simp [(opener_disjoint hc).2] at hkana

theorem normalize_accepts_mark (t : Text) :
    Accepts Seen.next SpaceBeforeMark .opener (normalizeJapaneseSpacing t) := by
  refine keeps_spaces ?_ (keeps_afterOpen ?_ ?_ (adds_beforePunct (.inr rfl)))
  · rintro q c d hc - ⟨-, hmark⟩
    simp [(mark_disjoint hmark).1] at hc
  · rintro c ⟨⟨_, hq⟩, -⟩
    cases hq
  · rintro q c hc ⟨-, hmark⟩
    simp [(mark_disjoint hmark).2.2] at hc

theorem normalize_accepts_opener (t : Text) :
    Accepts Seen.next SpaceAfterOpener .opener (normalizeJapaneseSpacing t) := by
  have hpunct : Flush (scan beforePunctMatch (scan kanaMatch (trim t))) :=
    flush_scan beforePunctMatch_progress
      (flush_scan kanaMatch_progress (flush_trim t) fun _ _ h =>
        (kanaMatch_end h).imp_right And.left)
      fun _ _ h => (beforePunct_end h).imp_right And.left
  exact keeps_spaces (fun _ _ _ _ hd hbad => ⟨hbad.1, hd⟩) (adds_afterOpen hpunct)

theorem spaced_normalize (t : Text) : Spaced (normalizeJapaneseSpacing t) where
  head := flush_normalize t
  last := closed_normalize t
  plain := by
    intro c hc hspace
    have hwindow : [] ++ [c] <:+: normalizeJapaneseSpacing t :=
      (List.singleton_infix_iff c _).mpr hc
    obtain ⟨q, hbad⟩ := (adds_spaces (t := unspaced t) (.inr rfl)).window hwindow
    by_contra hne
    exact hbad ⟨hspace, .inr hne⟩
  single := by
    intro s c hwindow hs
    obtain ⟨q, hbad⟩ := (adds_spaces (t := unspaced t) (.inr rfl)).window (w := [s]) hwindow
    by_contra hc
    simp only [Bool.not_eq_false] at hc
    exact hbad ⟨hc, .inl (Seen.next_of_space hs q)⟩
  before_mark := by
    intro s p hwindow hs
    obtain ⟨q, hbad⟩ := (normalize_accepts_mark t).window (w := [s]) hwindow
    by_contra hp
    simp only [Bool.not_eq_false] at hp
    exact hbad ⟨Seen.next_of_space hs q, hp⟩
  after_opener := by
    intro o s hwindow ho
    obtain ⟨q, hbad⟩ := (normalize_accepts_opener t).window (w := [o]) hwindow
    by_contra hs
    simp only [Bool.not_eq_false] at hs
    exact hbad ⟨Seen.next_opener ho q, hs⟩

theorem noDoubleGap_normalize (t : Text) : NoDoubleGap (normalizeJapaneseSpacing t) := by
  intro a s b s' c hwindow ha hs hb hs'
  have haccepts := normalize_accepts_kana (P := (· = true)) (t := t) (by simp)
  obtain ⟨q, hbad⟩ := haccepts.window (w := [a, s, b, s']) hwindow
  obtain ⟨joined, hjoined⟩ := Seen.next_of_kana ha q
  by_contra hc
  simp only [Bool.not_eq_false] at hc
  refine hbad ⟨true, ?_, rfl, hc⟩
  simp only [List.foldl_cons, List.foldl_nil, hjoined, Seen.kana_next_space hs,
    Seen.gap_next_kana hb, Seen.kana_next_space hs']

/-- **Normalizing a text that has no double gaps leaves nothing to normalize.** -/
theorem spaceNormal_normalize {t : Text} (h : Spaced t) (hgap : NoDoubleGap t) :
    SpaceNormal (normalizeJapaneseSpacing t) where
  toSpaced := spaced_normalize t
  kana := by
    intro a s b hwindow ha hs
    have haccepts := normalize_accepts_kana (P := fun _ => True) (t := t) fun _ s hsuffix =>
      h.not_doubleGap hgap (trim_eq_self h.head h.last ▸ hsuffix)
    obtain ⟨q, hbad⟩ := haccepts.window (w := [a, s]) hwindow
    obtain ⟨joined, hjoined⟩ := Seen.next_of_kana ha q
    by_contra hb
    simp only [Bool.not_eq_false] at hb
    refine hbad ⟨joined, ?_, trivial, hb⟩
    simp only [List.foldl_cons, List.foldl_nil, hjoined, Seen.kana_next_space hs]

/-! ## Normal texts are the fixed points -/

namespace SpaceNormal

variable {t : Text}

theorem kanaMatch_eq_none (h : SpaceNormal t) {xs : Text} (hxs : xs <:+ t) :
    kanaMatch xs = none := by
  by_contra hsome
  obtain ⟨⟨r, n⟩, hmatch⟩ := Option.ne_none_iff_exists'.mp hsome
  obtain ⟨a, spaces, b, rest, rfl, ha, hb, hblank, -, -⟩ := kanaMatch_some hmatch
  obtain ⟨s, rfl, hs⟩ := h.toSpaced.blank hblank hxs.isInfix
  have hwindow : [a, s, b] <:+: t := .trans ⟨[], rest, by simp⟩ hxs.isInfix
  simp [h.kana a s b hwindow ha hs] at hb

theorem beforePunctMatch_eq_none (h : SpaceNormal t) {xs : Text} (hxs : xs <:+ t) :
    beforePunctMatch xs = none := by
  by_contra hsome
  obtain ⟨⟨r, n⟩, hmatch⟩ := Option.ne_none_iff_exists'.mp hsome
  obtain ⟨spaces, p, rest, rfl, hp, ⟨hne, hall⟩, -, -⟩ := beforePunctMatch_some hmatch
  obtain ⟨front, s, rfl⟩ := (spaces.eq_nil_or_concat).resolve_left hne
  have hwindow : [s, p] <:+: t := .trans ⟨front, rest, by simp⟩ hxs.isInfix
  simp [h.before_mark s p hwindow (hall s (by simp))] at hp

theorem afterOpenMatch_eq_none (h : SpaceNormal t) {xs : Text} (hxs : xs <:+ t) :
    afterOpenMatch xs = none := by
  by_contra hsome
  obtain ⟨⟨r, n⟩, hmatch⟩ := Option.ne_none_iff_exists'.mp hsome
  obtain ⟨o, spaces, rest, rfl, ho, ⟨hne, hall⟩, -, -, -⟩ := afterOpenMatch_some hmatch
  obtain ⟨s, more, rfl⟩ := List.exists_cons_of_ne_nil hne
  have hwindow : [o, s] <:+: t := .trans ⟨[], more ++ rest, by simp⟩ hxs.isInfix
  simp [h.after_opener o s hwindow ho] at hall

/-- A run of whitespace is one space already, and is replaced by itself. -/
theorem spacesMatch_same (h : SpaceNormal t) {xs r : Text} {n : Nat} (hxs : xs <:+ t)
    (hmatch : spacesMatch xs = some (r, n)) : r ++ xs.drop n = xs := by
  obtain ⟨spaces, rest, rfl, ⟨hne, hall⟩, -, rfl, rfl⟩ := spacesMatch_some hmatch
  rw [List.drop_left]
  match spaces, hne with
  | [s], _ =>
    have hs : s = ' ' := h.plain s (hxs.subset (by simp)) (hall s (by simp))
    rw [hs]
  | s :: s' :: more, _ =>
    have hwindow : [s, s'] <:+: t := .trans ⟨[], more ++ rest, by simp⟩ hxs.isInfix
    have := h.single s s' hwindow (hall s (by simp))
    simp [hall s' (by simp)] at this

/-- **A space-normal text is a fixed point of the spacing.** -/
theorem normalize (h : SpaceNormal t) : normalizeJapaneseSpacing t = t := by
  have hkana : scan kanaMatch t = t :=
    scan_eq_self kanaMatch_progress fun xs r n hxs hmatch => by
      simp [h.kanaMatch_eq_none hxs] at hmatch
  have hpunct : scan beforePunctMatch t = t :=
    scan_eq_self beforePunctMatch_progress fun xs r n hxs hmatch => by
      simp [h.beforePunctMatch_eq_none hxs] at hmatch
  have hopen : scan afterOpenMatch t = t :=
    scan_eq_self afterOpenMatch_progress fun xs r n hxs hmatch => by
      simp [h.afterOpenMatch_eq_none hxs] at hmatch
  have hspaces : scan spacesMatch t = t :=
    scan_eq_self spacesMatch_progress fun xs r n hxs hmatch => h.spacesMatch_same hxs hmatch
  rw [normalizeJapaneseSpacing, trim_eq_self h.head h.last, hkana, hpunct, hopen, hspaces]

end SpaceNormal

/-- **The fixed points of the spacing are the space-normal texts.** -/
theorem normalize_eq_self_iff {t : Text} : normalizeJapaneseSpacing t = t ↔ SpaceNormal t := by
  refine ⟨fun h => ?_, SpaceNormal.normalize⟩
  have hspaced : Spaced t := h ▸ spaced_normalize t
  have hgap : NoDoubleGap t := h ▸ noDoubleGap_normalize t
  exact h ▸ spaceNormal_normalize hspaced hgap

end LocalMeetingStt
