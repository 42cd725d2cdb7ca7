import Mathlib.Data.List.Basic
import Mathlib.Data.List.Infix

/-!
# One left-to-right rewriting pass

`replace_all` of a regular expression, a repetition collapser and a tokenizer have
one shape: walk the list from the left, and where a *matcher* recognizes something at
the current position, emit a replacement and skip what was recognized; elsewhere
copy one element. `scan` is that shape, over any alphabet and any matcher.

A matcher answers `some (r, n)`: "the next `n` elements are a match, write `r`". The
skip is a counter rather than a `drop`, which makes the pass **structurally
recursive** on the list — it needs neither fuel nor a termination argument, and
closed instances evaluate in the kernel. `scan_match`/`scan_copy` are the two
equations every proof about a pass starts from, and `scan_induction` is the
induction that follows the pass's own progress.
-/

namespace Scan

variable {α : Type*}

/-- What a pass recognizes at the head of a list: a replacement and the number of
    elements it stands for. -/
abbrev Matcher (α : Type*) := List α → Option (List α × Nat)

/-- The pass, with `k` elements still to be skipped. -/
def scanSkip (m : Matcher α) : Nat → List α → List α
  | _, [] => []
  | k + 1, _ :: xs => scanSkip m k xs
  | 0, x :: xs =>
    match m (x :: xs) with
    | some (r, n) => r ++ scanSkip m (n - 1) xs
    | none => x :: scanSkip m 0 xs

/-- The pass from the start of a list. -/
def scan (m : Matcher α) (xs : List α) : List α := scanSkip m 0 xs

@[simp] theorem scan_nil (m : Matcher α) : scan m [] = [] := rfl

theorem scanSkip_eq_scan (m : Matcher α) (k : Nat) (xs : List α) :
    scanSkip m k xs = scan m (xs.drop k) := by
  induction xs generalizing k with
  | nil => cases k <;> rfl
  | cons x xs ih =>
    cases k with
    | zero => rfl
    | succ k => simpa [scanSkip] using ih k

/-- Where the matcher answers, the replacement is written and the match skipped. -/
theorem scan_match {m : Matcher α} {xs r : List α} {n : Nat}
    (h : m xs = some (r, n)) (hne : xs ≠ []) (hn : 0 < n) :
    scan m xs = r ++ scan m (xs.drop n) := by
  obtain ⟨x, xs, rfl⟩ := List.exists_cons_of_ne_nil hne
  obtain ⟨n, rfl⟩ : ∃ k, n = k + 1 := ⟨n - 1, by omega⟩
  have hstep : scan m (x :: xs) = r ++ scanSkip m n xs := by simp [scan, scanSkip, h]
  rw [hstep, scanSkip_eq_scan, List.drop_succ_cons]

/-- Where it does not, one element is copied. -/
theorem scan_copy {m : Matcher α} {x : α} {xs : List α} (h : m (x :: xs) = none) :
    scan m (x :: xs) = x :: scan m xs := by
  simp [scan, scanSkip, h]

/-- A front at which nothing is recognized is copied. -/
theorem scan_append {m : Matcher α} {front rest : List α}
    (h : ∀ x s, x :: s <:+ front → m (x :: s ++ rest) = none) :
    scan m (front ++ rest) = front ++ scan m rest := by
  induction front with
  | nil => rfl
  | cons x front ih =>
    have hx : m (x :: (front ++ rest)) = none := h x front (List.suffix_refl _)
    rw [List.cons_append, scan_copy hx,
      ih fun y s hs => h y s (hs.trans (List.suffix_cons x front)), List.cons_append]

/-- A matcher that always consumes, and never answers on the empty list. -/
structure Progress (m : Matcher α) : Prop where
  nil : m [] = none
  pos : ∀ {xs r n}, m xs = some (r, n) → 0 < n

/-- **Induction along the pass**: a statement about a list follows from the statement
    about what is left after the match at its head, or after its head. -/
theorem scan_induction {m : Matcher α} (hm : Progress m) {motive : List α → Prop}
    (nil : motive [])
    (hit : ∀ xs r n, m xs = some (r, n) → motive (xs.drop n) → motive xs)
    (copy : ∀ x xs, m (x :: xs) = none → motive xs → motive (x :: xs)) :
    ∀ xs, motive xs := by
  intro xs
  induction hlen : xs.length using Nat.strongRecOn generalizing xs with
  | ind len ih =>
    cases xs with
    | nil => exact nil
    | cons x xs =>
      cases h : m (x :: xs) with
      | none => exact copy x xs h (ih xs.length (by simp at hlen; omega) xs rfl)
      | some p =>
        obtain ⟨r, n⟩ := p
        have hn := hm.pos h
        refine hit _ r n h (ih ((x :: xs).drop n).length ?_ _ rfl)
        simp only [List.length_drop]
        simp only [List.length_cons] at hlen ⊢
        omega

theorem Progress.ne_nil {m : Matcher α} (hm : Progress m) {xs r : List α} {n : Nat}
    (h : m xs = some (r, n)) : xs ≠ [] := by
  rintro rfl
  rw [hm.nil] at h
  cases h

/-- A pass that writes something for each match leaves something. -/
theorem scan_ne_nil {m : Matcher α} (hm : Progress m)
    (hhit : ∀ xs r n, m xs = some (r, n) → r ≠ []) {t : List α} (ht : t ≠ []) : scan m t ≠ [] := by
  obtain ⟨x, xs, rfl⟩ := List.exists_cons_of_ne_nil ht
  cases h : m (x :: xs) with
  | none =>
    rw [scan_copy h]
    exact List.cons_ne_nil _ _
  | some found =>
    obtain ⟨r, n⟩ := found
    rw [scan_match h ht (hm.pos h)]
    exact List.append_ne_nil_of_left_ne_nil (hhit _ r n h) _

/-- A pass that writes only what it found is the identity. -/
theorem scan_eq_self {m : Matcher α} (hm : Progress m) {t : List α}
    (h : ∀ xs r n, xs <:+ t → m xs = some (r, n) → r ++ xs.drop n = xs) : scan m t = t := by
  have key : ∀ xs, xs <:+ t → scan m xs = xs := by
    intro xs
    induction xs using scan_induction hm with
    | nil => exact fun _ => rfl
    | hit xs r n hmatch ih =>
      intro hxs
      rw [scan_match hmatch (hm.ne_nil hmatch) (hm.pos hmatch),
        ih ((List.drop_suffix n xs).trans hxs), h xs r n hxs hmatch]
    | copy x xs hmatch ih =>
      intro hxs
      rw [scan_copy hmatch, ih ((List.suffix_cons x xs).trans hxs)]
  exact key t (List.suffix_refl t)

/-- A pass that only leaves elements out leaves a sublist. -/
theorem scan_sublist {m : Matcher α} (hm : Progress m)
    (hhit : ∀ xs r n, m xs = some (r, n) → (r ++ xs.drop n).Sublist xs) (t : List α) :
    (scan m t).Sublist t := by
  induction t using scan_induction hm with
  | nil => exact List.Sublist.refl []
  | hit xs r n h ih =>
    rw [scan_match h (hm.ne_nil h) (hm.pos h)]
    exact (ih.append_left r).trans (hhit xs r n h)
  | copy x xs h ih =>
    rw [scan_copy h]
    exact ih.cons_cons x

/-- A pass whose matches each save `d` elements leaves the list as it is, and then nothing
    in it matches, or saves as much. -/
theorem scan_shrinks {m : Matcher α} (hm : Progress m) {d : Nat}
    (hhit : ∀ xs r n, m xs = some (r, n) → r.length + (xs.drop n).length + d ≤ xs.length)
    (t : List α) :
    ((∀ s, s <:+ t → m s = none) ∧ scan m t = t) ∨ (scan m t).length + d ≤ t.length := by
  induction t using scan_induction hm with
  | nil =>
    refine .inl ⟨fun s hs => ?_, rfl⟩
    rw [List.suffix_nil.mp hs]
    exact hm.nil
  | hit t r n h ih =>
    right
    have hsave := hhit t r n h
    rw [scan_match h (hm.ne_nil h) (hm.pos h), List.length_append]
    rcases ih with ⟨-, heq⟩ | hle
    · rw [heq]
      exact hsave
    · omega
  | copy x t h ih =>
    rw [scan_copy h]
    rcases ih with ⟨hnone, heq⟩ | hle
    · refine .inl ⟨fun s hs => ?_, by rw [heq]⟩
      rcases List.suffix_cons_iff.mp hs with rfl | hs
      · exact h
      · exact hnone s hs
    · right
      simp only [List.length_cons]
      omega

/-! ## What a pass keeps and what it adds

A property of neighbours ("no `b` right after an `a`") is an **observer**: it reads the
list from the left, remembers what it must, and objects to some elements in some states.
A pass keeps the property if each replacement leaves the observer where the replaced
elements leave it, or in a state that objects to less (`Accepts.scan`). -/

variable {σ : Type*}

/-- The observer objects to nothing it reads, from this state on. -/
def Accepts (next : σ → α → σ) (bad : σ → α → Prop) : σ → List α → Prop
  | _, [] => True
  | q, x :: xs => ¬bad q x ∧ Accepts next bad (next q x) xs

theorem accepts_append {next : σ → α → σ} {bad : σ → α → Prop} {q : σ} {xs ys : List α} :
    Accepts next bad q (xs ++ ys) ↔
      Accepts next bad q xs ∧ Accepts next bad (xs.foldl next q) ys := by
  induction xs generalizing q with
  | nil => simp [Accepts]
  | cons x xs ih => simp [Accepts, ih, and_assoc]

/-- What follows a front in an accepted list is accepted from the state it leads to. -/
theorem Accepts.not_bad {next : σ → α → σ} {bad : σ → α → Prop} {q : σ} {front rest : List α}
    {x : α} (h : Accepts next bad q (front ++ x :: rest)) : ¬bad (front.foldl next q) x :=
  (accepts_append.mp h).2.1

/-- So it is inside a window of the list: some state before the window leads there. -/
theorem Accepts.window {next : σ → α → σ} {bad : σ → α → Prop} {q : σ} {t w : List α} {x : α}
    (h : Accepts next bad q t) (hw : w ++ [x] <:+: t) : ∃ q', ¬bad (w.foldl next q') x := by
  obtain ⟨front, rest, rfl⟩ := hw
  refine ⟨front.foldl next q, ?_⟩
  rw [← List.foldl_append]
  have h' : Accepts next bad q ((front ++ w) ++ x :: rest) := by simpa using h
  exact h'.not_bad

/-- The simulation rule: `R q q'` says that from `q` the observer objects to less. -/
theorem Accepts.scan {next : σ → α → σ} {bad : σ → α → Prop} {m : Matcher α} (hm : Progress m)
    {R : σ → σ → Prop}
    (hcopy : ∀ q q' x, R q q' → (bad q x → bad q' x) ∧ R (next q x) (next q' x))
    (hhit : ∀ xs r n q q', m xs = some (r, n) → R q q' →
      Accepts next bad q' (xs.take n) →
      Accepts next bad q r ∧ R (r.foldl next q) ((xs.take n).foldl next q')) :
    ∀ (xs : List α) (q q' : σ), R q q' → Accepts next bad q' xs →
      Accepts next bad q (scan m xs) := by
  intro xs
  induction xs using scan_induction hm with
  | nil => exact fun _ _ _ _ => trivial
  | hit xs r n h ih =>
    intro q q' hR hacc
    rw [scan_match h (hm.ne_nil h) (hm.pos h), accepts_append]
    rw [← List.take_append_drop n xs, accepts_append] at hacc
    obtain ⟨hr, hnext⟩ := hhit xs r n q q' h hR hacc.1
    exact ⟨hr, ih _ _ hnext hacc.2⟩
  | copy x xs h ih =>
    intro q q' hR hacc
    rw [scan_copy h]
    exact ⟨fun hbad => hacc.1 ((hcopy q q' x hR).1 hbad), ih _ _ (hcopy q q' x hR).2 hacc.2⟩

/-- The rule for what a pass adds: `Inv q xs` says what the rest `xs` of the input may
    look like when the output so far has led the observer to `q`. -/
theorem accepts_scan {next : σ → α → σ} {bad : σ → α → Prop} {m : Matcher α} (hm : Progress m)
    (Inv : σ → List α → Prop)
    (hcopy : ∀ q x xs, m (x :: xs) = none → Inv q (x :: xs) → ¬bad q x ∧ Inv (next q x) xs)
    (hhit : ∀ q xs r n, m xs = some (r, n) → Inv q xs →
      Accepts next bad q r ∧ Inv (r.foldl next q) (xs.drop n)) :
    ∀ (xs : List α) (q : σ), Inv q xs → Accepts next bad q (scan m xs) := by
  intro xs
  induction xs using scan_induction hm with
  | nil => exact fun _ _ => trivial
  | hit xs r n h ih =>
    intro q hinv
    obtain ⟨hr, hnext⟩ := hhit q xs r n h hinv
    rw [scan_match h (hm.ne_nil h) (hm.pos h), accepts_append]
    exact ⟨hr, ih _ hnext⟩
  | copy x xs h ih =>
    intro q hinv
    obtain ⟨hx, hnext⟩ := hcopy q x xs h hinv
    rw [scan_copy h]
    exact ⟨hx, ih _ hnext⟩

/-- The state the observer ends in, by the same rule. -/
theorem foldl_scan {next : σ → α → σ} {m : Matcher α} (hm : Progress m) {R : σ → σ → Prop}
    (hcopy : ∀ q q' x, R q q' → R (next q x) (next q' x))
    (hhit : ∀ xs r n q q', m xs = some (r, n) → R q q' →
      R (r.foldl next q) ((xs.take n).foldl next q')) :
    ∀ (xs : List α) (q q' : σ), R q q' → R ((scan m xs).foldl next q) (xs.foldl next q') := by
  intro xs
  induction xs using scan_induction hm with
  | nil => exact fun _ _ h => h
  | hit xs r n h ih =>
    intro q q' hR
    rw [scan_match h (hm.ne_nil h) (hm.pos h), List.foldl_append]
    conv_rhs => rw [← List.take_append_drop n xs, List.foldl_append]
    exact ih _ _ (hhit xs r n q q' h hR)
  | copy x xs h ih =>
    intro q q' hR
    rw [scan_copy h]
    exact ih _ _ (hcopy q q' x hR)

/-! ## Windows of a shrinking pass

A pass whose matches shrink to an end of what they stood for (a repetition collapser)
makes few new neighbourhoods: what it brings together was together already, as far as
the rest of the window is read as it stood. -/

theorem infix_of_scan {m : Matcher α} (hm : Progress m)
    (hshrink : ∀ xs r n, m xs = some (r, n) → r ++ xs.drop n <:+ xs) {w t : List α}
    (htail : ∀ v xs, xs <:+ t → v <:+ w → v ≠ w → v <+: scan m xs → v <+: xs)
    (h : w <:+: scan m t) : w <:+: t := by
  have key : ∀ xs, xs <:+ t → w <:+: scan m xs → w <:+: xs := by
    intro xs
    induction xs using scan_induction hm with
    | nil => exact fun _ hw => hw
    | hit xs r n hmatch ih =>
      intro hxs hw
      have hrest : r ++ xs.drop n <:+ xs := hshrink xs r n hmatch
      rw [scan_match hmatch (hm.ne_nil hmatch) (hm.pos hmatch), List.infix_append_iff_ne_nil] at hw
      -- The window lies in the replacement, in the rest, or begins in one and ends in the other.
      rcases hw with hr | hscan | ⟨l, v, hl, -, rfl, hlr, hv⟩
      · exact (hr.trans (List.prefix_append r _).isInfix).trans hrest.isInfix
      · exact (ih ((List.drop_suffix n xs).trans hxs) hscan).trans (List.drop_suffix n xs).isInfix
      · have hne : v ≠ l ++ v := fun heq => hl (List.self_eq_append_left.mp heq)
        have hv' := htail v (xs.drop n) ((List.drop_suffix n xs).trans hxs)
          (List.suffix_append l v) hne hv
        refine .trans (List.infix_append_iff.mpr (.inr (.inr ⟨l, v, rfl, hlr, hv'⟩))) hrest.isInfix
    | copy x xs hmatch ih =>
      intro hxs hw
      have hxs' : xs <:+ t := (List.suffix_cons x xs).trans hxs
      rw [scan_copy hmatch, List.infix_cons_iff, List.prefix_cons_iff] at hw
      rcases hw with (rfl | ⟨v, rfl, hv⟩) | hscan
      · exact List.nil_infix
      · have hv' := htail v xs hxs' (List.suffix_cons x v) (List.ne_cons_self) hv
        exact ((List.prefix_cons_inj x).mpr hv').isInfix
      · exact (ih hxs' hscan).trans (List.suffix_cons x xs).isInfix
  exact key t (List.suffix_refl t) h

end Scan
