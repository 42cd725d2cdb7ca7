import LocalMeetingStt.Lib.WinNested

/-!
# The names of a Windows path

Two things about the names in a path. `with_file_name` replaces the last one, and for a
path that ends with its file name that is joining the new name to the text before it
(`withFileName_eq`). And what the components say of a text: its last name
(`names_join`, `names_push`), and how often a character that parsing never drops occurs in it
(`count_names`, `count_push`). Two texts that differ in one of these name different files.
-/

namespace WinPath

/-! ## The last name -/

theorem rdropWhile_sep {p : Char → Bool} (d : Path) {c : Char} {n : Path} (hc : p c = false)
    (hn : ∀ a ∈ n, p a = true) : (d ++ c :: n).rdropWhile p = d ++ [c] := by
  have hn' : ∀ a ∈ n.reverse, p a = true := fun a ha => hn a (List.mem_reverse.mp ha)
  rw [List.rdropWhile, List.reverse_append, List.reverse_cons, List.append_assoc,
    List.dropWhile_append_of_pos hn']
  simp [hc]

theorem rtakeWhile_sep {p : Char → Bool} (d : Path) {c : Char} {n : Path} (hc : p c = false)
    (hn : ∀ a ∈ n, p a = true) : (d ++ c :: n).rtakeWhile p = n := by
  have hn' : ∀ a ∈ n.reverse, p a = true := fun a ha => hn a (List.mem_reverse.mp ha)
  rw [List.rtakeWhile, List.reverse_append, List.reverse_cons, List.append_assoc,
    List.takeWhile_append_of_pos hn']
  simp [hc]

/-- A text is one piece without `c`, or some text, a `c` and a last piece. -/
theorem last_piece (c : Char) (t : Path) : c ∉ t ∨ ∃ d n, c ∉ n ∧ t = d ++ c :: n := by
  induction t using List.reverseRecOn with
  | nil => exact .inl (by simp)
  | append_singleton t e ih =>
    rcases eq_or_ne e c with rfl | he
    · exact .inr ⟨t, [], by simp, rfl⟩
    · rcases ih with h | ⟨d, n, hn, rfl⟩
      · exact .inl (by simp [h, he.symm])
      · exact .inr ⟨d, n ++ [e], by simp [hn, he.symm], by simp⟩

section

variable {n : Path} (h : '\\' ∉ n)
include h

theorem lastName_sep (d : Path) : lastName (d ++ '\\' :: n) = n :=
  rtakeWhile_sep d (by simp) (ne_of_not_mem h)

theorem dropName_sep (d : Path) : dropName (d ++ '\\' :: n) = d := by
  rw [dropName, rdropWhile_sep d (by simp) (ne_of_not_mem h), List.dropLast_concat]

theorem lastName_whole : lastName n = n := List.rtakeWhile_eq_self_iff.mpr (ne_of_not_mem h)

theorem dropName_whole : dropName n = [] := by
  rw [dropName, List.rdropWhile_eq_nil_iff.mpr (ne_of_not_mem h)]
  rfl

end

theorem dropName_isPrefix (t : Path) : dropName t <+: t :=
  (List.dropLast_prefix _).trans (List.rdropWhile_prefix _ _)

theorem trimRight_isPrefix (v : Bool) (t : Path) : trimRight v t <+: t := by
  fun_induction trimRight v t with
  | case1 => exact List.prefix_refl _
  | case2 t h hs ih => exact ih.trans (dropName_isPrefix t)
  | case3 => exact List.prefix_refl _

/-- Only names that are skipped are trimmed. -/
theorem body_trimRight (v : Bool) (t : Path) : body v (trimRight v t) = body v t := by
  fun_induction trimRight v t with
  | case1 => rfl
  | case2 t h hs ih =>
    rw [ih]
    rw [Option.isNone_iff_eq_none] at hs
    rcases last_piece '\\' t with ht | ⟨d, n, hn, rfl⟩
    · rw [lastName_whole ht] at hs
      rw [dropName_whole ht, body_nil, body_of_not_mem v ht, hs]
      rfl
    · rw [lastName_sep hn] at hs
      rw [dropName_sep hn, body_sep, body_of_not_mem v hn, hs]
      exact (List.append_nil _).symm
  | case3 => rfl

theorem trimRight_name {v : Bool} {t : Path} (h : (single v (lastName t)).isSome = true) :
    trimRight v t = t := by
  rw [trimRight]
  split
  · rename_i ht
    exact ht.symm
  · rw [if_neg]
    rw [Option.isNone_iff_eq_none]
    intro hn
    rw [hn] at h
    cases h

theorem isName_of_mem_body {v : Bool} {t n : Path} (h : .normal n ∈ body v t)
    (hn : Unbroken n) : IsName n := by
  obtain ⟨m, -, hs⟩ := mem_body h
  rcases single_cases hs with ⟨-, -, he⟩ | ⟨-, he⟩ | ⟨hnil, hdot, hdots, he⟩
  · cases he
  · cases he
  · obtain rfl := Component.normal.inj he
    exact ⟨hn, hnil, hdot, hdots⟩

/-! ## Another file name -/

section

variable {t raw rest x : Path} {p : Prefix}

theorem body_trimSep {w : Path} (v : Bool) (h : w.getLast? ≠ some '/') :
    body v (trimSep w) = body v w := by
  rcases eq_or_ne w [] with rfl | hne
  · rfl
  rcases trimSep_cases hne with ⟨c, hc, heq⟩ | ⟨-, -, -, -, heq⟩
  · have hc' : c = '\\' := by
      refine (isSep_iff.mp hc).resolve_right ?_
      rintro rfl
      exact h (by rw [heq, List.getLast?_concat])
    conv_rhs => rw [heq, hc', body_sep, body_nil, List.append_nil]
  · rw [heq]

theorem slashed_trimSep (t : Path) : slashed (trimSep t) = trimSep (slashed t) := by
  rcases List.eq_nil_or_concat' t with rfl | ⟨u, c, rfl⟩
  · rfl
  · rw [slashed_append]
    cases hc : isSep c with
    | true =>
      rw [trimSep_sep u hc]
      rcases isSep_iff.mp hc with rfl | rfl
      · exact (trimSep_sep _ rfl).symm
      · exact (trimSep_sep _ rfl).symm
    | false =>
      have hne : c ≠ '/' := by
        rintro rfl
        cases hc
      rw [trimSep_other u hc, slashed_append, slashed_cons, if_neg hne]
      exact (trimSep_other _ hc).symm

/-- A plain base below a root, and a name. -/
theorem components_trimSep_join {c : Char} {w : Path} (h : Parsed t raw (c :: w) p)
    (hv : p.isVerbatim = false) (hcomplete : p.Complete) (hc : isSep c = true)
    (hx : IsName x) :
    components (trimSep t ++ '\\' :: x) =
      .pre p :: .rootDir :: (body false w ++ [.normal x]) := by
  have hm := not_mark_join h.parse hv hx.unbroken
  have hs := h.seen
  rw [seen_plain (not_mark_of_plain h.parse hv)] at hs
  have hslash : w.getLast? ≠ some '/' := fun hlast =>
    slash_not_mem_slashed t (by rw [hs]; simp [List.mem_of_getLast? hlast])
  have hjoin : slashed (trimSep t ++ '\\' :: x) = trimSep (raw ++ c :: w) ++ '\\' :: x := by
    rw [hx.unbroken.slashed_join, slashed_trimSep, hs]
  rcases eq_or_ne w [] with rfl | hne
  · rw [trimSep_sep raw hc] at hjoin
    have hp := (h.reads.follow hcomplete x (.inl rfl)).parsed_plain hv hm hjoin
    rw [hp.components_sep rfl, hv, hx.body, body_nil]
    rfl
  · rw [trimSep_after raw c hne, List.append_assoc, List.cons_append] at hjoin
    have hp := (h.reads.follow hcomplete (trimSep w ++ '\\' :: x)
      (.inr ⟨w, rfl, hc⟩)).parsed_plain hv hm hjoin
    rw [hp.components_sep hc, hv, body_sep, hx.body, body_trimSep false hslash]

/-- Below a root, pushing a name adds it to the components. -/
theorem components_push_root {c : Char} {w : Path} (h : Parsed t raw (c :: w) p)
    (hcomplete : p.Complete) (hc : isSep c = true) (hx : IsName x)
    (hd : parseDrive x = none) :
    components (push t x) = .pre p :: .rootDir :: (body p.isVerbatim w ++ [.normal x]) := by
  cases hv : p.isVerbatim with
  | true => exact components_push_verbatim h hv hcomplete hx hd
  | false =>
    have hm := not_mark_of_plain h.parse hv
    have hlen : 3 ≤ t.length := by
      have hs := h.seen
      rw [seen_plain hm] at hs
      have hraw : 2 ≤ raw.length := by
        have := (plain_take h.parse hv []).2
        rw [h.prefixLen, List.length_take] at this
        omega
      rw [← length_slashed t, hs]
      simp only [List.length_append, List.length_cons]
      omega
    rw [components_push_plain hm (List.ne_nil_of_length_pos (by omega))
      (isBareDrive_of_length hlen) hx hd (not_mark_join h.parse hv hx.unbroken),
      components_trimSep_join h hv hcomplete hc hx]

/-- An absolute path that has a file name has a root before it. -/
theorem exists_root (habs : isAbsolute t = true) {name : Path} (hf : fileName t = some name) :
    ∃ p raw c w, Parsed t raw (c :: w) p ∧ isSep c = true ∧
      components t = .pre p :: .rootDir :: body p.isVerbatim w ∧
      (body p.isVerbatim w).getLast? = some (.normal name) := by
  obtain ⟨p, hp⟩ := Option.isSome_iff_exists.mp (Bool.and_eq_true_iff.mp habs).2
  obtain ⟨raw, rest, h⟩ := exists_parsed hp
  have hlast : (components t).getLast? = some (.normal name) := by
    unfold fileName at hf
    split at hf
    · rename_i n hn
      rw [hn, Option.some.inj hf]
    · cases hf
  have hrest : ∃ c w, rest = c :: w ∧ isSep c = true := by
    rw [h.isAbsolute_iff, Bool.or_eq_true] at habs
    rcases habs with hroot | himp
    · cases rest with
      | nil => cases hroot
      | cons c w => exact ⟨c, w, rfl, hroot⟩
    · rcases h.reads.tail (by simpa [Prefix.hasImplicitRoot] using himp) with rfl | hrest
      · rw [h.components_nil] at hlast
        split at hlast <;> simp at hlast
      · exact hrest
  obtain ⟨c, w, rfl, hc⟩ := hrest
  have hcomp := h.components_sep hc
  refine ⟨p, raw, c, w, h, hc, hcomp, ?_⟩
  rw [hcomp] at hlast
  cases hb : body p.isVerbatim w with
  | nil => rw [hb] at hlast; simp at hlast
  | cons d ds =>
    rw [hb] at hlast
    simpa [List.getLast?_cons_cons] using hlast

/-- Where the name stands in a path that ends with it. -/
theorem name_at {c sep : Char} {w dir name : Path} (hc : isSep c = true)
    (hname : Unbroken name) (h : raw ++ c :: w = dir ++ sep :: name) :
    (dir = raw ∧ c = sep ∧ w = name) ∨ ∃ d, dir = raw ++ c :: d ∧ w = d ++ sep :: name := by
  rcases List.append_eq_append_iff.mp h with ⟨a, rfl, ha⟩ | ⟨b, rfl, hb⟩
  · cases a with
    | nil =>
      obtain ⟨rfl, rfl⟩ := List.cons.inj ha
      exact .inl ⟨by simp, rfl, rfl⟩
    | cons e d =>
      obtain ⟨rfl, rfl⟩ := List.cons.inj ha
      exact .inr ⟨d, rfl, rfl⟩
  · cases b with
    | nil =>
      obtain ⟨rfl, rfl⟩ := List.cons.inj hb
      exact .inl ⟨by simp, rfl, rfl⟩
    | cons e b =>
      obtain ⟨rfl, rfl⟩ := List.cons.inj hb
      have := hname c (by simp)
      rw [this] at hc
      cases hc

/-- The last piece of a body that ends with its last name is that name. -/
theorem lastName_of_last {v : Bool} {sep : Char} {d name : Path} (hsep : isSep sep = true)
    (hname : Unbroken name)
    (h : (body v (d ++ sep :: name)).getLast? = some (.normal name)) : sep = '\\' := by
  rcases isSep_iff.mp hsep with rfl | rfl
  · rfl
  -- a `/` that is no separator belongs to the name
  exfalso
  have hpiece : ∀ n : Path, '\\' ∉ n →
      body v (n ++ '/' :: name) = [.normal (n ++ '/' :: name)] := by
    intro n hn
    have hnot : '\\' ∉ n ++ '/' :: name := by simp [hn, hname.not_mem.1]
    have hmem : '/' ∈ n ++ '/' :: name := by simp
    have hs : single v (n ++ '/' :: name) = some (.normal (n ++ '/' :: name)) := by
      rw [single, if_neg, if_neg, if_neg] <;>
      · intro he
        rw [he] at hmem
        simp at hmem
    rw [body_of_not_mem v hnot, hs]
    rfl
  have hne : ∀ n : Path, n ++ '/' :: name ≠ name := fun n he => by
    have := congrArg List.length he
    simp only [List.length_append, List.length_cons] at this
    omega
  rcases last_piece '\\' d with hd | ⟨u, n, hn, rfl⟩
  · rw [hpiece d hd] at h
    exact hne d (Component.normal.inj (Option.some.inj h))
  · rw [List.append_assoc, List.cons_append, body_sep, hpiece n hn, List.getLast?_concat] at h
    exact hne n (Component.normal.inj (Option.some.inj h))

/-- The text a path that ends with a name is popped to. -/
theorem pop_parsed {c : Char} {w : Path} (h : Parsed t raw (c :: w) p)
    (hreads : ∀ d, d <+: w → Reads raw (c :: d) p) (hc : isSep c = true)
    (hlast : (single p.isVerbatim (lastName w)).isSome = true) :
    Parsed (pop t) raw (c :: trimRight p.isVerbatim (dropName w)) p := by
  have hroot : hasRoot t = true := by
    rw [h.hasRoot_iff]
    exact Bool.or_eq_true_iff.mpr (.inl hc)
  have hbefore : lenBeforeBody t = raw.length + 1 := by
    have hphys : hasPhysicalRoot (c :: w) = true := hc
    rw [lenBeforeBody, h.prefixLen, h.afterPrefix, hphys, hroot]
    rfl
  have hbody : (seen t).drop (raw.length + 1) = w := by
    rw [h.seen, ← List.singleton_append, ← List.append_assoc]
    exact List.drop_left' (by simp)
  have hverb : (parsePrefix t).any Prefix.isVerbatim = p.isVerbatim := by rw [h.parse]; rfl
  have hpre := (trimRight_isPrefix p.isVerbatim (dropName w)).trans (dropName_isPrefix w)
  generalize hd' : trimRight p.isVerbatim (dropName w) = d at hpre
  have hpop : pop t = t.take (raw.length + 1 + d.length) := by
    simp only [pop, hbefore, hbody, hverb, trimRight_name hlast, hd']
  have htake : (raw ++ c :: w).take (raw.length + 1 + d.length) = raw ++ c :: d := by
    have hw : w.take d.length = d := (List.prefix_iff_eq_take.mp hpre).symm
    rw [Nat.add_assoc, List.take_append, List.take_of_length_le (by omega),
      Nat.add_sub_cancel_left, Nat.add_comm 1, List.take_succ_cons, hw]
  have hreads := hreads d hpre
  cases hv : p.isVerbatim with
  | true =>
    have hpop' : pop t = raw ++ c :: d := by
      rw [hpop, ← htake, ← h.text hv]
    rw [hpop']
    exact hreads.parsed hv
  | false =>
    have hm := not_mark_of_plain h.parse hv
    refine hreads.parsed_plain hv (fun hmark => hm ?_) ?_
    · rw [hpop] at hmark
      exact hmark.trans (List.take_prefix _ _)
    · have hs := h.seen
      rw [seen_plain hm] at hs
      rw [hpop, ← htake, ← hs]
      exact List.map_take ..

/-- The text as it is read, cut before its last name; a path with another name there is read
    with the same cut. -/
theorem Parsed.renamed {c sep : Char} {w dir name : Path} (h : Parsed t raw (c :: w) p)
    (ht : t = dir ++ sep :: name) (hsep : isSep sep = true) (hname : Unbroken name)
    (hc : isSep c = true) (hx : Unbroken x) :
    ∃ dir' sep', WinPath.seen t = dir' ++ sep' :: name ∧ isSep sep' = true ∧
      ∀ e y, Reads raw (e :: y) p → dir' ++ '\\' :: x = raw ++ e :: y →
        Parsed (dir ++ '\\' :: x) raw (e :: y) p := by
  cases hv : p.isVerbatim with
  | true =>
    refine ⟨dir, sep, ?_, hsep, fun e y hr heq => ?_⟩
    · rw [seen_verbatim ((isVerbatim_iff h.parse).mp hv), ht]
    · rw [heq]
      exact hr.parsed hv
  | false =>
    have hcut : WinPath.seen t = slashed dir ++ '\\' :: name := by
      rw [seen_plain (not_mark_of_plain h.parse hv), ht, slashed_append, slashed_cons,
        hname.slashed]
      rcases isSep_iff.mp hsep with rfl | rfl <;> rfl
    refine ⟨slashed dir, '\\', hcut, rfl, fun e y hr heq => hr.parsed_plain hv ?_ ?_⟩
    · have hlen : raw.length ≤ dir.length := by
        rw [← length_slashed dir]
        rcases name_at hc hname (h.seen ▸ hcut) with ⟨hdir, -, -⟩ | ⟨d, hdir, -⟩
        · rw [hdir]
        · rw [hdir, List.length_append]
          exact Nat.le_add_right ..
      have hdir : dir ++ '\\' :: x =
          t.take (WinPath.prefixLen t) ++ (dir.drop raw.length ++ '\\' :: x) := by
        rw [h.prefixLen, ht, List.take_append_of_le_length hlen, ← List.append_assoc,
          List.take_append_drop]
      rw [hdir]
      exact (plain_take h.parse hv _).1
    · rw [hx.slashed_join, heq]

/-- `with_file_name`, of a path that ends with its name and whose prefix is whole: the new name
    joined to the text before. -/
theorem withFileName_eq {dir name : Path} {sep : Char} (ht : t = dir ++ sep :: name)
    (hsep : isSep sep = true) (hname : Unbroken name) (habs : isAbsolute t = true)
    (hf : fileName t = some name) (hcomplete : ∀ p, parsePrefix t = some p → p.Complete)
    (hx : IsName x) (hd : parseDrive x = none) :
    ∃ p cs, components (withFileName t x) = .pre p :: cs ∧
      components (dir ++ '\\' :: x) = .pre p :: cs := by
  obtain ⟨p, raw, c, w, h, hc, hcomp, hlast⟩ := exists_root habs hf
  have hcomplete := hcomplete p h.parse
  have hisName : IsName name := isName_of_mem_body (List.mem_of_getLast? hlast) hname
  obtain ⟨dir', sep', hcut, hsep', hread⟩ := h.renamed ht hsep hname hc hx.unbroken
  have hlastName : lastName w = name ∧ components (dir ++ '\\' :: x) =
      .pre p :: .rootDir :: (body p.isVerbatim (dropName w) ++ [.normal x]) := by
    rcases name_at hc hname (h.seen ▸ hcut) with ⟨hdir, -, rfl⟩ | ⟨d, hdir, rfl⟩
    · refine ⟨lastName_whole hname.not_mem.1, ?_⟩
      rw [(hread _ _ (h.reads.follow hcomplete x (.inl rfl)) (by rw [hdir])).components_sep rfl,
        dropName_whole hname.not_mem.1, body_nil, hx.body]
      rfl
    · obtain rfl := lastName_of_last hsep' hname hlast
      refine ⟨lastName_sep hname.not_mem.1 d, ?_⟩
      rw [(hread _ _ (h.reads.follow hcomplete (d ++ '\\' :: x) (.inr ⟨_, rfl, hc⟩))
        (by rw [hdir]; simp)).components_sep hc, dropName_sep hname.not_mem.1, body_sep, hx.body]
  have hpop := pop_parsed h (fun d _ => h.reads.follow hcomplete d (.inr ⟨w, rfl, hc⟩)) hc
    (by rw [hlastName.1, hisName.single]; rfl)
  refine ⟨p, _, ?_, hlastName.2⟩
  rw [withFileName, hf, Option.isSome_some, if_pos rfl,
    components_push_root hpop hcomplete hc hx hd, body_trimRight]

end

/-! ## What components say of the text -/

/-- The names in a prefix. -/
def Prefix.names : Prefix → List Path
  | .verbatim x | .deviceNS x => [x]
  | .verbatimUNC server share | .unc server share => [server, share]
  | .verbatimDisk _ | .disk _ => []

def Component.names : Component → List Path
  | .pre p => p.names.filter (· ≠ [])
  | .rootDir => []
  | .curDir => [['.']]
  | .parentDir => [['.', '.']]
  | .normal n => [n]

/-- The names of a path, those of its prefix first. -/
def names (cs : List Component) : List Path := cs.flatMap Component.names

theorem names_append (cs ds : List Component) : names (cs ++ ds) = names cs ++ names ds :=
  List.flatMap_append

theorem names_cons (c : Component) (cs : List Component) : names (c :: cs) = c.names ++ names cs :=
  List.flatMap_cons

@[simp] theorem names_nil : names [] = [] := rfl

theorem names_last (cs : List Component) (n : Path) :
    (names (cs ++ [.normal n])).getLast? = some n := by
  rw [names_append]
  exact List.getLast?_concat

/-- A text is cut at its last `\` in one way. -/
theorem last_piece_unique {a b u x : Path} (hb : '\\' ∉ b) (hx : '\\' ∉ x)
    (h : a ++ '\\' :: b = u ++ '\\' :: x) : b = x := by
  rw [← lastName_sep hb a, h, lastName_sep hx u]

/-- A text without `c` that begins another one ends before the first `c` there. -/
theorem prefix_before {l u y : Path} {c : Char} (h : l <+: u ++ c :: y) (hc : c ∉ l) :
    l <+: u := by
  rcases List.prefix_or_prefix_of_prefix h
    (show u ++ [c] <+: u ++ c :: y from ⟨y, by simp⟩) with h | h
  · rcases List.prefix_concat_iff.mp h with rfl | h
    · exact absurd (by simp) hc
    · exact h
  · exact absurd (h.subset (by simp)) hc

section

variable {x : Path}

theorem last_component (p : Option Prefix) (v : Bool) (a : Path) (hx : IsName x) :
    ∃ cs, startDir p (a ++ '\\' :: x) ++
      body v (if hasPhysicalRoot (a ++ '\\' :: x) then (a ++ '\\' :: x).drop 1
        else a ++ '\\' :: x) = cs ++ [.normal x] := by
  split
  · cases a with
    | nil => exact ⟨startDir p ('\\' :: x), by simp [hx.body]⟩
    | cons c a =>
      exact ⟨startDir p (c :: a ++ '\\' :: x) ++ body v a, by simp [body_sep, hx.body]⟩
  · exact ⟨startDir p (a ++ '\\' :: x) ++ body v a, by simp [body_sep, hx.body]⟩

theorem sep_not_mem_drive {d : Char} (letter : d.isAlpha = true) : '\\' ∉ [d, ':'] := fun hm => by
  simp only [List.mem_cons, List.not_mem_nil, or_false] at hm
  rcases hm with rfl | hm
  · cases letter
  · cases hm

/-- A prefix that reaches to the end of the text ends with its last piece. -/
theorem Reads.names_last {raw u : Path} {p : Prefix} (h : Reads raw [] p) (hx : IsName x)
    (hlen : 2 < x.length) (heq : raw = u ++ '\\' :: x) :
    (p.names.filter (· ≠ [])).getLast? = some x := by
  have hq := hx.unbroken.not_mem.1
  have hcut : ∀ a b : Path, '\\' ∉ b → raw = a ++ '\\' :: b → b = x := fun a b hb hraw =>
    last_piece_unique hb hq (hraw.symm.trans heq)
  cases h with
  | verbatim whole =>
    obtain rfl := hcut ['\\', '\\', '?'] _ whole rfl
    simp [Prefix.names, hx.ne_nil]
  | @server c server _ sep whole =>
    rcases isSep_iff.mp sep with rfl | rfl
    · obtain rfl := hcut (mark ++ ['U', 'N', 'C']) _ whole (by simp)
      simp [Prefix.names, hx.ne_nil]
    · have := hcut ['\\', '\\', '?'] (['U', 'N', 'C', '/'] ++ server) (by simpa using whole)
        (by simp [mark])
      exact absurd (this ▸ by simp) hx.unbroken.not_mem.2
  | @share c server share _ sep whole some whole' =>
    obtain rfl := hcut _ _ whole' rfl
    simp [Prefix.names, List.filter_cons, hx.ne_nil]
    split <;> rfl
  | @verbatimDisk d _ letter =>
    obtain rfl := hcut ['\\', '\\', '?'] [d, ':'] (sep_not_mem_drive letter) rfl
    simp at hlen
  | device whole =>
    obtain rfl := hcut ['\\', '\\', '.'] _ whole rfl
    simp [Prefix.names, hx.ne_nil]
  | unc host whole dot some whole' =>
    obtain rfl := hcut _ _ whole' rfl
    simp [Prefix.names, host, hx.ne_nil]
  | @disk d _ letter =>
    exact absurd (by rw [heq]; simp) (sep_not_mem_drive letter)

/-- Whatever stands before it, the text after the last separator is the last name. -/
theorem names_seen {t u : Path} (hx : IsName x) (hlen : 2 < x.length)
    (hseen : seen t = u ++ '\\' :: x) : (names (components t)).getLast? = some x := by
  cases hp : parsePrefix t with
  | none =>
    rw [components_none hp, ← seen_plain (not_mark_of_none hp), hseen, parts_none]
    obtain ⟨cs, hcs⟩ := last_component none false u hx
    rw [hcs, names_last]
  | some p =>
    obtain ⟨raw, rest, h⟩ := exists_parsed hp
    have hcut := h.seen.symm.trans hseen
    have hdone : ∀ a, rest = a ++ '\\' :: x →
        (names (components t)).getLast? = some x := by
      rintro a rfl
      obtain ⟨cs, hcs⟩ := last_component (some p) p.isVerbatim a hx
      rw [h.components_eq, hcs, ← List.cons_append, names_last]
    rcases List.append_eq_append_iff.mp hcut with ⟨a, -, ha⟩ | ⟨b, hraw, hb⟩
    · exact hdone a ha
    cases b with
    | nil => exact hdone [] hb.symm
    | cons e b =>
      obtain ⟨rfl, hxb⟩ := List.cons.inj hb
      cases rest with
      | nil =>
        replace hxb : x = b := hxb.trans (List.append_nil b)
        rw [← hxb] at hraw
        have hlast := h.reads.names_last hx hlen hraw
        have hn : names (components t) = p.names.filter (· ≠ []) := by
          rw [h.components_nil, names_cons]
          split <;> simp [names, Component.names]
        rw [hn, hlast]
      | cons c w =>
        exfalso
        have hc : isSep c = false := hx.unbroken c (by rw [hxb]; simp)
        have hdrive : p.isDrive = true := by
          by_contra hnd
          rcases h.reads.tail (by simpa using hnd) with hnil | ⟨e, y, heq, he⟩
          · cases hnil
          · obtain ⟨rfl, -⟩ := List.cons.inj heq
            rw [hc] at he
            cases he
        have hr := h.reads
        cases hr with
        | @disk d _ letter =>
          exact absurd (by rw [hraw]; simp) (sep_not_mem_drive letter)
        | _ => cases hdrive

theorem names_join (u : Path) (hx : IsName x) (hlen : 2 < x.length) :
    (names (components (u ++ '\\' :: x))).getLast? = some x := by
  by_cases hm : mark <+: u ++ '\\' :: x
  · exact names_seen hx hlen (seen_verbatim hm)
  · refine names_seen (u := slashed u) hx hlen ?_
    rw [seen_plain hm, hx.unbroken.slashed_join]

end

/-! ## What parsing keeps -/

theorem count_body {c : Char} (v : Bool) (hdot : c ≠ '.') (hsep : c ≠ '\\') (t : Path) :
    (names (body v t)).flatten.count c = t.count c := by
  have hpiece : ∀ n : Path, '\\' ∉ n → (names (body v n)).flatten.count c = n.count c := by
    intro n hn
    rw [body_of_not_mem v hn, single]
    split
    · rename_i h
      rw [h]
      rfl
    · split
      · rename_i h
        rw [h]
        cases v <;> simp [names, Component.names, hdot.symm]
      · split
        · rename_i h
          rw [h]
          simp [names, Component.names]
        · simp [names, Component.names]
  induction hlen : t.length using Nat.strongRecOn generalizing t with
  | ind k ih =>
    rcases pieces t with ht | ⟨n, w, hn, rfl⟩
    · exact hpiece t ht
    · rw [body_sep, names_append, List.flatten_append, List.count_append, hpiece n hn,
        ih w.length (by simp only [List.length_append, List.length_cons] at hlen; omega) w rfl,
        List.count_append, List.count_cons_of_ne hsep.symm]

/-- A character that stands in no prefix for anything but itself. -/
structure Kept (c : Char) : Prop where
  letter : c.isAlpha = false
  notSep : isSep c = false
  ne : c ≠ '.' ∧ c ≠ '?' ∧ c ≠ ':'

theorem Kept.ne_letter {c d : Char} (hc : Kept c) (hd : d.isAlpha = true) : d ≠ c := by
  rintro rfl
  rw [hc.letter] at hd
  cases hd

theorem Kept.ne_sep {c d : Char} (hc : Kept c) (hd : isSep d = true) : d ≠ c := by
  rintro rfl
  rw [hc.notSep] at hd
  cases hd

theorem Kept.count_slashed {c : Char} (hc : Kept c) (t : Path) :
    (slashed t).count c = t.count c := by
  induction t with
  | nil => rfl
  | cons d t ih =>
    rw [slashed_cons]
    split
    · rename_i hd
      rw [hd, List.count_cons_of_ne (hc.ne_sep rfl), List.count_cons_of_ne (hc.ne_sep rfl), ih]
    · rw [List.count_cons, List.count_cons, ih]

theorem Kept.count_trimSep {c : Char} (hc : Kept c) (t : Path) :
    (trimSep t).count c = t.count c := by
  rcases eq_or_ne t [] with rfl | hne
  · rfl
  rcases trimSep_cases hne with ⟨d, hd, heq⟩ | ⟨-, -, -, -, heq⟩
  · conv_rhs => rw [heq, List.count_append, List.count_singleton,
      if_neg (by simpa using (hc.ne_sep hd))]
    rfl
  · rw [heq]

theorem Kept.count_seen {c : Char} (hc : Kept c) (t : Path) : (seen t).count c = t.count c := by
  unfold seen
  split
  · rfl
  · exact hc.count_slashed t

theorem Reads.count {raw rest : Path} {p : Prefix} (h : Reads raw rest p) {c : Char}
    (hc : Kept c) : (p.names.filter (· ≠ [])).flatten.count c = raw.count c := by
  have hflat : (p.names.filter (· ≠ [])).flatten = p.names.flatten := by
    simpa using List.flatten_filter_ne_nil (L := p.names)
  have hback : '\\' ≠ c := hc.ne_sep rfl
  have hmark : mark.count c = 0 := by
    simp [mark, hback, hc.ne.2.1.symm]
  have hunc : ∀ d, isSep d = true → ['U', 'N', 'C', d].count c = 0 := fun d hd => by
    simp [hc.ne_letter (d := 'U') rfl, hc.ne_letter (d := 'N') rfl,
      hc.ne_letter (d := 'C') rfl, hc.ne_sep hd]
  have hdrive : ∀ d : Char, d.isAlpha = true → [d, ':'].count c = 0 := fun d hd => by
    simp [hc.ne_letter hd, hc.ne.2.2.symm]
  rw [hflat]
  cases h with
  | verbatim => simp [Prefix.names, hmark]
  | server sep => simp only [Prefix.names, List.count_append, hmark, hunc _ sep]; simp
  | share sep =>
    simp only [Prefix.names, List.count_append, hmark, hunc _ sep, List.count_cons_of_ne hback]
    simp
  | verbatimDisk letter => simp [Prefix.names, hmark, hdrive _ letter]
  | device => simp [Prefix.names, hback, hc.ne.1.symm]
  | unc => simp [Prefix.names, hback]
  | disk letter => simp [Prefix.names, hdrive _ letter]

/-- A character that is kept stands in the names as often as in the text. -/
theorem count_names {c : Char} (hc : Kept c) (t : Path) :
    (names (components t)).flatten.count c = t.count c := by
  have hback : '\\' ≠ c := hc.ne_sep rfl
  have hrest : ∀ (p : Option Prefix) (v : Bool) (rest : Path),
      (names (startDir p rest ++
        body v (if hasPhysicalRoot rest then rest.drop 1 else rest))).flatten.count c =
        rest.count c := by
    intro p v rest
    have hstart : (names (startDir p rest)).flatten.count c = 0 := by
      unfold startDir
      split
      · rfl
      · split
        · split <;> rfl
        · split
          · simp [names, Component.names, hc.ne.1.symm]
          · rfl
    rw [names_append, List.flatten_append, List.count_append, hstart,
      count_body v hc.ne.1 hback.symm, Nat.zero_add]
    split
    · rename_i hroot
      cases rest with
      | nil => rfl
      | cons d w => exact (List.count_cons_of_ne (hc.ne_sep hroot)).symm
    · rfl
  cases hp : parsePrefix t with
  | none =>
    rw [components_none hp, parts_none, hrest, hc.count_slashed]
  | some p =>
    obtain ⟨raw, rest, h⟩ := exists_parsed hp
    rw [h.components_eq, names_cons, List.flatten_append, List.count_append, hrest,
      ← hc.count_seen t, h.seen, List.count_append]
    exact congrArg (· + _) (h.reads.count hc)

/-! ## What a pushed name leaves -/

/-- The prefix stands in the components. -/
theorem parsePrefix_of_components {t : Path} {p : Prefix} {cs : List Component}
    (h : components t = .pre p :: cs) : parsePrefix t = some p := by
  cases hq : parsePrefix t with
  | none =>
    have hmem : Component.pre p ∈ components t := by rw [h]; exact List.mem_cons_self ..
    rcases rootDir_or_named hq hmem with hc | hc
    · cases hc
    · cases hc.2
  | some q =>
    obtain ⟨raw, rest, hparsed⟩ := exists_parsed hq
    rw [hparsed.components_eq] at h
    rw [Component.pre.inj (List.cons.inj h).1]

section

variable {base raw rest x : Path} {p : Prefix}

theorem push_plain_cases (hb : ¬mark <+: base) (hx : IsName x) (hd : parseDrive x = none) :
    push base x = base ++ x ∨ push base x = base ++ '\\' :: x := by
  rw [push_of_not_mark hb hx hd]
  split
  · exact .inr (by simp)
  · exact .inl rfl

theorem push_of_isSome {t : Path} (h : (parsePrefix t).isSome = true) : push base t = t := by
  rw [push, h, Bool.or_true, if_pos rfl]

theorem IsName.drive (hx : IsName x) (hd : (parseDrive x).isSome = true) :
    ∃ d y, x = d :: ':' :: y ∧ d.isAlpha = true ∧
      WinPath.parsePrefix x = some (.disk d.toUpper) := by
  obtain ⟨drive, hdrive⟩ := Option.isSome_iff_exists.mp hd
  obtain ⟨d, y, rfl, letter, rfl⟩ := parseDrive_eq_some hdrive
  refine ⟨d, y, rfl, letter, ?_⟩
  rw [parsePrefix_plain hx.not_mark, hx.unbroken.slashed]
  have hreads : Reads [d, ':'] y _ := .disk letter
  exact hreads.plainPrefix rfl

/-- The name stands at the end of the text. -/
theorem push_suffix (base : Path) (hx : IsName x) : x <:+ push base x := by
  cases hd : parseDrive x with
  | some drive =>
    obtain ⟨_, _, _, _, hp⟩ := hx.drive (by rw [hd]; rfl)
    have hpush : push base x = x := push_of_isSome (by rw [hp]; rfl)
    simp only [hpush, List.suffix_rfl]
  | none =>
    by_cases hm : mark <+: base
    · obtain ⟨y, rfl⟩ := hm
      obtain ⟨raw, rest, h⟩ := exists_parsed (parsePrefix_mark y)
      rw [push_verbatim h (verbatimPrefix_isVerbatim y) hx hd, joined_append]
      exact ⟨raw ++ joined (body true (rest.drop 1)) ++ ['\\'], by simp [Component.asOsStr]⟩
    · rcases push_plain_cases hm hx hd with h | h <;> rw [h]
      · exact List.suffix_append _ _
      · exact ⟨base ++ ['\\'], by simp⟩

/-- Nothing is put between a drive and a name. -/
theorem push_bareDrive (hbare : isBareDrive base = true) (hx : IsName x)
    (hd : parseDrive x = none) : push base x = base ++ x := by
  have hb : ¬mark <+: base := fun hm => by
    obtain ⟨d, rfl, -⟩ := isBareDrive_eq hbare
    simp [mark, List.cons_prefix_cons] at hm
  have hneed : needSep base = false := by
    rw [needSep, hbare]
    split <;> simp
  rw [push_of_not_mark hb hx hd, hneed, if_neg Bool.false_ne_true]

theorem parsed_drive {d : Char} (letter : d.isAlpha = true) (t : Path) :
    Parsed ([d, ':'] ++ t) [d, ':'] (slashed t) (.disk d.toUpper) := by
  have hd : d ≠ '/' := by
    rintro rfl
    cases letter
  refine (Reads.disk letter).parsed_plain rfl (fun hm => ?_) ?_
  · simp [mark, List.cons_prefix_cons] at hm
  · simp [hd]

theorem components_drive {d : Char} (letter : d.isAlpha = true) (hx : IsName x) :
    components ([d, ':'] ++ x) = [.pre (.disk d.toUpper), .normal x] := by
  have h := parsed_drive letter x
  rw [hx.unbroken.slashed] at h
  rw [h.components_eq, startDir, hx.hasPhysicalRoot]
  simp [Prefix.hasImplicitRoot, Prefix.isDrive, hx.body]

/-- The name pushed is the last one. -/
theorem names_push (base : Path) (hx : IsName x) (hd : parseDrive x = none)
    (hlen : 2 < x.length) : (names (components (push base x))).getLast? = some x := by
  by_cases hm : mark <+: base
  · obtain ⟨y, rfl⟩ := hm
    obtain ⟨raw, rest, h⟩ := exists_parsed (parsePrefix_mark y)
    have htext : push (mark ++ y) x =
        (raw ++ joined (body true (rest.drop 1))) ++ '\\' :: x := by
      rw [push_verbatim h (verbatimPrefix_isVerbatim y) hx hd, joined_append]
      simp [Component.asOsStr]
    rw [htext]
    exact names_join _ hx hlen
  rcases eq_or_ne base [] with rfl | hne
  · rcases push_plain_cases hm hx hd with h | h
    · rw [h, List.nil_append, hx.components hd]
      rfl
    · rw [h]
      exact names_join _ hx hlen
  cases hbare : isBareDrive base with
  | true =>
    obtain ⟨d, rfl, letter⟩ := isBareDrive_eq hbare
    rw [push_bareDrive hbare hx hd, components_drive letter hx]
    rfl
  | false =>
    obtain ⟨c, hc, hpush⟩ := push_plain hm hne hbare hx hd
    rcases isSep_iff.mp hc with rfl | rfl
    · rw [hpush]
      exact names_join _ hx hlen
    · have hplain : ¬mark <+: trimSep base ++ '/' :: x := fun hmark =>
        hm ((prefix_before hmark (by decide)).trans (trimSep_isPrefix base))
      rw [hpush]
      refine names_seen (u := slashed (trimSep base)) hx hlen ?_
      rw [seen_plain hplain, slashed_append, slashed_cons, if_pos rfl, hx.unbroken.slashed]

/-- A kept character stands in what was pushed as often as in the base and the name. -/
theorem count_push {c : Char} (hc : Kept c) (base : Path) (hx : IsName x)
    (hd : parseDrive x = none) : (push base x).count c = base.count c + x.count c := by
  have hback : '\\' ≠ c := hc.ne_sep rfl
  by_cases hm : mark <+: base
  · have hjoined : ∀ cs : List Component, (∀ d ∈ cs, Named d) →
        (joined cs).count c = (names cs).flatten.count c := by
      intro cs hcs
      induction cs with
      | nil => rfl
      | cons d cs ih =>
        rw [List.forall_mem_cons] at hcs
        have hname : (d.asOsStr []).count c = d.names.flatten.count c := by
          cases d with
          | pre p => cases hcs.1.2
          | rootDir => exact absurd rfl hcs.1.ne_root
          | curDir | parentDir | normal => simp [Component.asOsStr, Component.names]
        rw [joined_cons, List.count_cons_of_ne hback, List.count_append, names_cons,
          List.flatten_append, List.count_append, ih hcs.2, hname]
    obtain ⟨y, rfl⟩ := hm
    obtain ⟨raw, rest, h⟩ := exists_parsed (parsePrefix_mark y)
    have hv := verbatimPrefix_isVerbatim y
    have hrest : (rest.drop 1).count c = rest.count c := by
      rcases h.reads.tail (Prefix.isDrive_of_isVerbatim hv) with rfl | ⟨d, w, rfl, hd⟩
      · rfl
      · exact (List.count_cons_of_ne (hc.ne_sep hd)).symm
    rw [push_verbatim h hv hx hd, List.count_append, hjoined _ hx.named_body, names_append,
      List.flatten_append, List.count_append, count_body true hc.ne.1 hback.symm, hrest,
      h.text hv, List.count_append]
    simp [names, Component.names]
    omega
  · rcases push_plain_cases hm hx hd with h | h <;> rw [h, List.count_append]
    rw [List.count_cons_of_ne hback]

/-- Paths that name the same file have the same prefix. -/
theorem SameFile.parsePrefix {a b : Path} (h : SameFile a b) {p : Prefix}
    (hp : parsePrefix a = some p) : WinPath.parsePrefix b = some p := by
  obtain ⟨raw, rest, hparsed⟩ := exists_parsed hp
  exact parsePrefix_of_components (h.symm.trans hparsed.components_eq)

theorem component_of_verbatim {t y : Path} (h : verbatimPrefix t = .verbatim y) :
    component t = y := by
  unfold verbatimPrefix at h
  split at h
  · cases h
  · split at h
    · cases h
    · exact Prefix.verbatim.inj h

theorem verbatimPrefix_unc {c : Char} (hc : isSep c = true) (t : Path) :
    verbatimPrefix (['U', 'N', 'C', c] ++ t) =
      .verbatimUNC (component t) (component (beyond t)) := by
  rw [verbatimPrefix, uncRest_eq_some.mpr ⟨c, hc, rfl⟩]

theorem Tail.of_isPrefix {u w : Path} (h : Tail w) (hu : u <+: w) : Tail u := by
  cases u with
  | nil => exact .inl rfl
  | cons c u =>
    rcases h with rfl | ⟨z, rfl⟩
    · cases List.prefix_nil.mp hu
    · exact .inr ⟨u, by rw [(List.cons_prefix_cons.mp hu).1]⟩

theorem Tail.join {u : Path} (h : Tail u) (x : Path) : Tail (u ++ '\\' :: x) := by
  rcases h with rfl | ⟨z, rfl⟩
  · exact .inr ⟨x, rfl⟩
  · exact .inr ⟨z ++ '\\' :: x, rfl⟩

/-- The only incomplete prefix that something can follow is a server without its share, and
    then what follows begins with an empty name. -/
theorem Reads.incomplete {c : Char} {w : Path} (h : Reads raw (c :: w) p)
    (hcomplete : ¬p.Complete) : ∃ server, p = .verbatimUNC server [] ∧ c = '\\' ∧ Tail w := by
  cases h with
  | verbatim whole unc drive tail alone => cases alone (by_contra fun hne => hcomplete hne)
  | share sep whole some => exact absurd some hcomplete
  | verbatimDisk | device | unc | disk => exact absurd trivial hcomplete
  | @server e server _ sep whole tail =>
    rcases tail with hnil | ⟨w', heq, hw⟩
    · cases hnil
    · obtain ⟨rfl, rfl⟩ := List.cons.inj heq
      exact ⟨server, rfl, rfl, hw⟩

/-- and may be any such text. -/
theorem Reads.server_follow {server u : Path} (h : Reads raw rest (.verbatimUNC server []))
    (hu : Tail u) : Reads raw ('\\' :: u) (.verbatimUNC server []) := by
  cases h with
  | server sep whole tail => exact .server sep whole (.inr ⟨u, rfl, hu⟩)
  | share sep whole some => exact absurd rfl some

/-- A server without a share takes the next name for its share. -/
theorem push_server {server : Path} (h : Parsed base raw rest (.verbatimUNC server []))
    (hx : IsName x) (hd : parseDrive x = none) :
    ∃ share, share ≠ [] ∧ parsePrefix (push base x) = some (.verbatimUNC server share) := by
  have hnamed : ∀ c ∈ body true (rest.drop 1) ++ [.normal x], Named c := hx.named_body
  rw [push_verbatim h rfl hx hd]
  cases hcs : body true (rest.drop 1) ++ [.normal x] with
  | nil => simp at hcs
  | cons c cs =>
    rw [hcs, List.forall_mem_cons] at hnamed
    have hc := hnamed.1
    have hne : c.asOsStr [] ≠ [] := fun he => by
      have hs := hc.2
      rw [he] at hs
      cases hs
    refine ⟨c.asOsStr [], hne, ?_⟩
    have htail : Tail (joined cs) := by
      cases cs with
      | nil => exact .inl rfl
      | cons d ds => exact .inr ⟨_, rfl⟩
    have hr := h.reads
    cases hr with
    | server sep whole tail =>
      have hp := (Reads.share sep whole hne hc.1 htail).parsed rfl
      rw [joined_cons, ← hp.parse]
      simp
    | share sep whole some whole' tail => exact absurd rfl some

/-- The text keeps the empty name, and so names another file. -/
theorem push_server_ne {server u : Path} (h : Parsed base raw rest (.verbatimUNC server []))
    (hx : IsName x) (hd : parseDrive x = none) (hu : Tail u) :
    parsePrefix (raw ++ '\\' :: (u ++ '\\' :: x)) = some (.verbatimUNC server []) ∧
      ¬SameFile (raw ++ '\\' :: (u ++ '\\' :: x)) (push base x) := by
  have hkept := (h.reads.server_follow (hu.join x)).parsed rfl
  refine ⟨hkept.parse, fun hsame => ?_⟩
  obtain ⟨share, hshare, hpush⟩ := push_server h hx hd
  have heq := (hsame.parsePrefix hkept.parse).symm.trans hpush
  exact hshare (Prefix.verbatimUNC.inj (Option.some.inj heq)).2.symm

end

section

variable {folder raw rest x : Path} {p : Prefix}

/-- No name follows the prefix, and the two texts are the same. -/
theorem sameFile_bare (h : Parsed folder raw rest p) (hv : p.isVerbatim = true)
    (htrim : trimSep folder = raw) (hx : IsName x) (hd : parseDrive x = none) :
    (parsePrefix (trimSep folder ++ '\\' :: x)).isSome = true ∧
      SameFile (trimSep folder ++ '\\' :: x) (push folder x) := by
  have hrest : rest.drop 1 = [] := by
    rcases h.reads.tail (Prefix.isDrive_of_isVerbatim hv) with rfl | ⟨c, w, rfl, hc⟩
    · rfl
    · have heq := h.text hv
      have hle : folder.length ≤ raw.length + 1 := by
        rcases trimSep_cases (t := folder) (by rw [heq]; simp) with ⟨e, -, he⟩ | ⟨-, -, -, -, he⟩
        · rw [he, htrim, List.length_append]
          rfl
        · rw [← he, htrim]
          omega
      rw [heq, List.length_append, List.length_cons] at hle
      exact List.eq_nil_of_length_eq_zero (by rw [List.drop_one, List.tail_cons]; omega)
  have htext : push folder x = trimSep folder ++ '\\' :: x := by
    rw [push_verbatim h hv hx hd, hrest, htrim]
    simp [Component.asOsStr]
  obtain ⟨y, hy⟩ : mark <+: trimSep folder ++ '\\' :: x :=
    (htrim ▸ h.reads.mark_isPrefix hv : mark <+: trimSep folder).trans (List.prefix_append _ _)
  refine ⟨?_, by rw [SameFile, htext]⟩
  rw [← hy, parsePrefix_mark]
  rfl

/-- Names follow a whole prefix, and the last one is all there without a separator. -/
theorem sameFile_beyond {c : Char} {w : Path} (h : Parsed folder raw (c :: w) p)
    (hv : p.isVerbatim = true) (hcomplete : p.Complete) (hc : isSep c = true) (hw : w ≠ [])
    (hlast : w.getLast? ≠ some '/') (hx : IsName x) (hd : parseDrive x = none) :
    (parsePrefix (trimSep folder ++ '\\' :: x)).isSome = true ∧
      SameFile (trimSep folder ++ '\\' :: x) (push folder x) := by
  have hjoin := (h.reads.follow hcomplete (trimSep w ++ '\\' :: x) (.inr ⟨w, rfl, hc⟩)).parsed hv
  have htext : trimSep folder ++ '\\' :: x = raw ++ c :: (trimSep w ++ '\\' :: x) := by
    rw [h.text hv, trimSep_after raw c hw, List.append_assoc, List.cons_append]
  rw [htext]
  refine ⟨by rw [hjoin.parse]; rfl, ?_⟩
  rw [SameFile, hjoin.components_sep hc, components_push_verbatim h hv hcomplete hx hd,
    hv, body_sep, hx.body, body_trimSep true hlast]
  rfl

/-- A verbatim folder and the text without its last separator take a name alike. -/
theorem sameFile_verbatim (hp : parsePrefix folder = some p) (hv : p.isVerbatim = true)
    (h : trimSep folder = folder.take (prefixLen folder) ∨
      p.Complete ∧ prefixLen folder + 1 < folder.length ∧ folder.getLast? ≠ some '/')
    (hx : IsName x) (hd : parseDrive x = none) :
    (parsePrefix (trimSep folder ++ '\\' :: x)).isSome = true ∧
      SameFile (trimSep folder ++ '\\' :: x) (push folder x) := by
  obtain ⟨raw, rest, hparsed⟩ := exists_parsed hp
  rw [hparsed.take_prefixLen hv] at h
  rcases h with htrim | ⟨hcomplete, hlong, hlast⟩
  · exact sameFile_bare hparsed hv htrim hx hd
  rw [hparsed.prefixLen, hparsed.text hv, List.length_append] at hlong
  rcases hparsed.reads.tail (Prefix.isDrive_of_isVerbatim hv) with rfl | ⟨c, w, rfl, hc⟩
  · rw [List.length_nil] at hlong
    omega
  have hw : w ≠ [] := by
    rintro rfl
    simp at hlong
  refine sameFile_beyond hparsed hv hcomplete hc hw (fun hl => hlast ?_) hx hd
  rw [hparsed.text hv, List.getLast?_append, List.getLast?_cons_of_ne_nil hw, hl]
  rfl

end

end WinPath
