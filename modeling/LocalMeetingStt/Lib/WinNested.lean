import LocalMeetingStt.Lib.WinJoin

/-!
# A folder read in another folder

Joining a folder to a root and then a name to that is the same as joining the two first, as
long as neither the folder nor the folder with the name has a prefix of its own
(`push_push`). What the root is does not matter, except that its own prefix must be whole:
`\\server` is no folder, and the next name would become its share.
-/

namespace WinPath

def doubleSep : Path → Bool
  | c :: d :: _ => isSep c && isSep d
  | _ => false

/-- Nothing that is joined to this folder can become part of its prefix. -/
def Settled (root : Path) : Prop :=
  match parsePrefix root with
  | some p => p.Complete
  | none => doubleSep root = false

instance (root : Path) : Decidable (Settled root) := by
  unfold Settled
  cases parsePrefix root <;> infer_instance

section

variable {root s x : Path} {p : Prefix}

/-! ## A plain root -/

/-- The text a path without prefix is put after. -/
def lead (root : Path) (rooted : Bool) : Path :=
  if rooted then root.take (prefixLen root)
  else if needSep root then root ++ ['\\'] else root

theorem push_none (hroot : ¬mark <+: root) (hs : parsePrefix s = none) :
    push root s = lead root (hasRoot s) ++ s := by
  rw [push, isAbsolute, hs, any_verbatim_of_not_mark hroot]
  cases hasRoot s <;> simp [lead]

/-- The prefix of a plain text already decides that it is none. -/
theorem plain_take (hp : parsePrefix root = some p) (hv : p.isVerbatim = false) (y : Path) :
    ¬mark <+: root.take (prefixLen root) ++ y ∧ 2 ≤ (root.take (prefixLen root)).length := by
  have hm := not_mark_of_plain hp hv
  obtain ⟨raw, rest, h⟩ := exists_parsed hp
  have hlen := h.prefixLen
  obtain ⟨hs, -, hr⟩ := h
  rw [seen_plain hm] at hs
  have hle : raw.length ≤ root.length := by
    rw [← length_slashed root, hs, List.length_append]
    omega
  rw [hlen, List.length_take, Nat.min_eq_left hle]
  have hlong : 4 ≤ raw.length → ¬mark <+: root.take raw.length ++ y := fun h4 hmark =>
    hm ((List.prefix_of_prefix_length_le hmark (List.prefix_append _ _)
      (by simpa [mark, hle] using h4)).trans (List.take_prefix _ _))
  cases hr with
  | device => exact ⟨hlong (by simp), by simp⟩
  | @unc server share _ host _ _ some =>
    have := List.length_pos_iff.mpr host
    have := List.length_pos_iff.mpr some
    exact ⟨hlong (by simp; omega), by simp⟩
  | @disk d _ letter =>
    refine ⟨fun hmark => ?_, by simp⟩
    cases root with
    | nil => cases hs
    | cons a r =>
      have ha : a = '\\' := by
        simp only [mark, List.length_cons, List.take_succ_cons, List.cons_append,
          List.cons_prefix_cons] at hmark
        exact hmark.1.symm
      rw [slashed_cons, ha] at hs
      obtain ⟨hd, -⟩ := List.cons.inj hs
      rw [← hd] at letter
      cases letter
  | verbatim | server | share | verbatimDisk => cases hv

theorem isBareDrive_none (hs : parsePrefix s = none) : isBareDrive s = false := by
  rw [isBareDrive, hs]
  exact Bool.and_false _

/-- The mark begins with two separators. -/
theorem mark_isSep {c d : Char} {y : Path} (hm : mark <+: c :: d :: y) :
    isSep c = true ∧ isSep d = true := by
  simp only [mark, List.cons_prefix_cons] at hm
  obtain ⟨rfl, rfl, -⟩ := hm
  exact ⟨rfl, rfl⟩

/-- After a root with a prefix, the prefix stays. -/
theorem lead_plain_some (hroot : ¬mark <+: root) (hp : parsePrefix root = some p) (rooted : Bool)
    (hne : s ≠ []) :
    ¬mark <+: lead root rooted ++ s ∧ isBareDrive (lead root rooted ++ s) = false := by
  have hv : p.isVerbatim = false := by
    rw [← Bool.not_eq_true]
    exact fun h => hroot ((isVerbatim_iff hp).mp h)
  have hlead : ∃ y, lead root rooted = root.take (prefixLen root) ++ y := by
    unfold lead
    split
    · exact ⟨[], (List.append_nil _).symm⟩
    · split
      · exact ⟨root.drop (prefixLen root) ++ ['\\'], by
          rw [← List.append_assoc, List.take_append_drop]⟩
      · exact ⟨root.drop (prefixLen root), (List.take_append_drop _ _).symm⟩
  obtain ⟨y, hy⟩ := hlead
  obtain ⟨hplain, htwo⟩ := plain_take hp hv (y ++ s)
  have hpos := List.length_pos_iff.mpr hne
  rw [hy, List.append_assoc]
  refine ⟨hplain, isBareDrive_of_length ?_⟩
  simp only [List.length_append]
  omega

/-- After a root without one, relative text brings none: only the first two characters could
    make it verbatim, and they are not both separators. -/
theorem lead_plain_none (hset : doubleSep root = false) (hs : parsePrefix s = none)
    (hrel : hasPhysicalRoot s = false) (hne : s ≠ []) :
    ¬mark <+: lead root false ++ s ∧ isBareDrive (lead root false ++ s) = false := by
  obtain ⟨e, s', rfl⟩ := List.exists_cons_of_ne_nil hne
  have he : isSep e = false := hrel
  rcases root with _ | ⟨c, _ | ⟨d, r⟩⟩
  · exact ⟨not_mark_of_none hs, isBareDrive_none hs⟩
  · cases hc : isSep c with
    | true =>
      have hlead : lead [c] false = [c] := by simp [lead, needSep, hc]
      rw [hlead]
      refine ⟨fun hm => ?_, ?_⟩
      · rw [(mark_isSep hm).2] at he
        cases he
      · rw [← Bool.not_eq_true]
        intro hb
        obtain ⟨d, heq, hletter⟩ := isBareDrive_eq hb
        rw [(List.cons.inj heq).1] at hc
        rcases isSep_iff.mp hc with rfl | rfl <;> cases hletter
    | false =>
      have hone : isBareDrive [c] = false := by
        rw [← Bool.not_eq_true]
        intro hb
        obtain ⟨d, heq, -⟩ := isBareDrive_eq hb
        simp at heq
      have hlead : lead [c] false = [c, '\\'] := by simp [lead, needSep, hc, hone]
      rw [hlead]
      refine ⟨fun hm => ?_, isBareDrive_of_length (by simp)⟩
      rw [(mark_isSep hm).1] at hc
      cases hc
  · have hlead : ∃ y, lead (c :: d :: r) false = c :: d :: y := by
      simp only [lead, Bool.false_eq_true, if_false]
      split
      · exact ⟨r ++ ['\\'], rfl⟩
      · exact ⟨r, rfl⟩
    obtain ⟨y, hy⟩ := hlead
    rw [hy]
    refine ⟨fun hm => ?_, isBareDrive_of_length (by simp; omega)⟩
    obtain ⟨hc, hd⟩ := mark_isSep hm
    rw [doubleSep, hc, hd] at hset
    cases hset

/-- A plain folder stays plain, whatever text without prefix is put after it. -/
theorem lead_plain (hroot : ¬mark <+: root) (hset : Settled root) (hs : parsePrefix s = none)
    (hne : s ≠ []) : ¬mark <+: lead root (hasRoot s) ++ s ∧
      isBareDrive (lead root (hasRoot s) ++ s) = false := by
  cases hp : parsePrefix root with
  | some p => exact lead_plain_some hroot hp _ hne
  | none =>
    rw [Settled, hp] at hset
    cases hr : hasRoot s with
    | true =>
      have hlead : lead root true = [] := by simp [lead, prefixLen, hp]
      rw [hlead, List.nil_append]
      exact ⟨not_mark_of_none hs, isBareDrive_none hs⟩
    | false =>
      rw [hasRoot_none hs] at hr
      exact lead_plain_none hset hs hr hne

/-- Two joins to a plain root are one. -/
theorem push_push_plain (hroot : ¬mark <+: root) (hset : Settled root)
    (hs : parsePrefix s = none) (hne : s ≠ [])
    (hj : parsePrefix (trimSep s ++ '\\' :: x) = none) (hx : IsName x)
    (hd : parseDrive x = none) :
    SameFile (push (push root s) x) (push root (trimSep s ++ '\\' :: x)) := by
  have hjoin : push root (trimSep s ++ '\\' :: x) = trimSep (push root s) ++ '\\' :: x := by
    rw [push_none hroot hs, push_none hroot hj, hasRoot_join_none hs hne hj,
      trimSep_append _ hne, List.append_assoc]
  obtain ⟨hplain, hbare⟩ := lead_plain hroot hset hs hne
  have hplain' := (lead_plain hroot hset hj (by simp)).1
  rw [← push_none hroot hs] at hplain hbare
  rw [← push_none hroot hj] at hplain'
  rw [SameFile, hjoin]
  refine components_push_plain hplain ?_ hbare hx hd (hjoin ▸ hplain')
  rw [push_none hroot hs]
  simp [hne]

/-! ## A verbatim root -/

/-- What a path joined to a verbatim one brings: the root, or what stands between
    separators. -/
theorem rootDir_or_named (hs : parsePrefix s = none) {c : Component} (h : c ∈ components s) :
    c = .rootDir ∨ Named c := by
  rw [components_none hs, parts_none, List.mem_append] at h
  rcases h with h | h
  · unfold startDir at h
    split at h
    · exact .inl (List.mem_singleton.mp h)
    · simp only at h
      split at h
      · rw [List.mem_singleton.mp h]
        exact .inr (by decide)
      · cases h
  · exact .inr (named_of_mem_body h)

/-- One component more leaves a buffer a buffer. -/
theorem Buffer.add {buf names : List Component} {root : Bool} (h : Buffer p buf root names)
    {c : Component} (hc : c = .rootDir ∨ Named c) :
    ∃ root names, Buffer p (addVerbatim buf c) root names := by
  obtain ⟨rfl, hnames⟩ := h
  rcases hc with rfl | hc
  · exact ⟨true, [], by simp [addVerbatim], by simp⟩
  · cases c with
    | pre p => cases hc.2
    | rootDir => exact absurd rfl hc.ne_root
    | curDir => exact ⟨root, names, rfl, hnames⟩
    | parentDir =>
      rcases List.eq_nil_or_concat' names with rfl | ⟨init, last, rfl⟩
      · refine ⟨root, [], ?_, hnames⟩
        cases root <;> rfl
      · simp only [addVerbatim, ← List.cons_append, ← List.append_assoc, List.getLast?_concat,
          List.dropLast_concat]
        split
        · exact ⟨root, init, by simp, fun d hd => hnames d (List.mem_append_left _ hd)⟩
        · exact ⟨root, init ++ [last], by simp, hnames⟩
    | normal n =>
      refine ⟨root, names ++ [.normal n], by simp [addVerbatim], fun d hd => ?_⟩
      rcases List.mem_append.mp hd with hd | hd
      · exact hnames d hd
      · rw [List.mem_singleton.mp hd]
        exact hc

theorem Buffer.add_all {cs : List Component} (hcs : ∀ c ∈ cs, c = .rootDir ∨ Named c) :
    ∀ {buf names : List Component} {root : Bool}, Buffer p buf root names →
      ∃ root names, Buffer p (cs.foldl addVerbatim buf) root names := by
  induction cs with
  | nil => exact fun h => ⟨_, _, h⟩
  | cons c cs ih =>
    intro buf names root h
    rw [List.forall_mem_cons] at hcs
    obtain ⟨_, _, h⟩ := h.add hcs.1
    exact ih hcs.2 h

theorem Reads.bare {raw rest : Path} (h : Reads raw rest p) : Reads raw [] p := by
  cases h with
  | verbatim whole unc drive tail alone => exact .verbatim whole unc drive (.inl rfl) fun _ => rfl
  | server sep whole tail => exact .server sep whole (.inl rfl)
  | share sep whole some whole' tail => exact .share sep whole some whole' (.inl rfl)
  | verbatimDisk letter tail => exact .verbatimDisk letter (.inl rfl)
  | device whole tail => exact .device whole (.inl rfl)
  | unc host whole dot some whole' tail => exact .unc host whole dot some whole' (.inl rfl)
  | disk letter => exact .disk letter

/-- Two joins to a verbatim root are one. -/
theorem push_push_verbatim (hp : parsePrefix root = some p) (hv : p.isVerbatim = true)
    (hset : p.Complete) (hs : parsePrefix s = none) (hne : s ≠ [])
    (hj : parsePrefix (trimSep s ++ '\\' :: x) = none) (hx : IsName x)
    (hd : parseDrive x = none) :
    push (push root s) x = push root (trimSep s ++ '\\' :: x) := by
  obtain ⟨raw, rest, h⟩ := exists_parsed hp
  have hpush : ∀ t, parsePrefix t = none → t ≠ [] →
      push root t = rebuild raw false ((components t).foldl addVerbatim (components root)) := by
    intro t ht htne
    rw [push, isAbsolute, ht, h.take_prefixLen hv, hp]
    simp [hv, htne]
  have hparts : ∀ c ∈ components s, c = .rootDir ∨ Named c := fun c hc => rootDir_or_named hs hc
  obtain ⟨isRoot, names, hbuf⟩ := (h.buffer hv).add_all hparts
  have hbuf' : Buffer p ((components (trimSep s ++ '\\' :: x)).foldl addVerbatim
      (components root)) isRoot (names ++ [.normal x]) := by
    rw [components_join_none hs hne hj hx, List.foldl_append, hbuf.eq]
    refine ⟨by simp [addVerbatim], fun c hc => ?_⟩
    rcases List.mem_append.mp hc with hc | hc
    · exact hbuf.named c hc
    · rw [List.mem_singleton.mp hc]
      exact hx.named
  rw [hpush _ hj (by simp), hbuf'.rebuild hv raw, hpush s hs hne, hbuf.rebuild hv raw]
  -- what was put together is read as the prefix and the names again
  have hread : ∀ tail, body true (tail.drop 1) = names → (tail = [] ∨ ∃ w, tail = '\\' :: w) →
      push (raw ++ tail) x = raw ++ joined (names ++ [.normal x]) := by
    rintro tail hnames (rfl | ⟨w, rfl⟩)
    · rw [push_verbatim (h.reads.bare.parsed hv) hv hx hd, hnames]
    · rw [push_verbatim ((h.reads.follow hset w (.inl rfl)).parsed hv) hv hx hd, hnames]
  have hlast : (isRoot && (names ++ [Component.normal x]).isEmpty) = false := by simp
  rw [hlast, if_neg Bool.false_ne_true]
  cases names with
  | nil =>
    cases isRoot with
    | true => exact hread ['\\'] (body_nil true) (.inr ⟨[], rfl⟩)
    | false => exact hread [] (body_nil true) (.inl rfl)
  | cons c cs =>
    have hempty : (isRoot && (c :: cs).isEmpty) = false := by simp
    rw [hempty, if_neg Bool.false_ne_true]
    refine hread _ ?_ (.inr ⟨_, rfl⟩)
    have hbody := body_joined hbuf.named
    rwa [joined_cons, body_after_sep] at hbody

/-- Joining a folder to a root and a name to that is joining the folder with the name. -/
theorem push_push (hset : Settled root) (hs : parsePrefix s = none) (hne : s ≠ [])
    (hj : parsePrefix (trimSep s ++ '\\' :: x) = none) (hx : IsName x)
    (hd : parseDrive x = none) :
    SameFile (push (push root s) x) (push root (trimSep s ++ '\\' :: x)) := by
  by_cases hm : mark <+: root
  · obtain ⟨y, rfl⟩ := hm
    have hp := parsePrefix_mark y
    rw [Settled, hp] at hset
    exact congrArg components
      (push_push_verbatim hp (verbatimPrefix_isVerbatim y) hset hs hne hj hx hd)
  · exact push_push_plain hm hset hs hne hj hx hd

end

/-! ## A server without its share -/

/-- `\\server` and nothing more. -/
def isServer (t : Path) : Bool :=
  doubleSep t && !(t.drop 2).isEmpty && (t.drop 2).all (!isSep ·)

section

variable {folder x : Path}

theorem isServer_iff {t : Path} : isServer t = true ↔
    ∃ server, server ≠ [] ∧ Unbroken server ∧ slashed t = '\\' :: '\\' :: server := by
  constructor
  · intro h
    rcases t with _ | ⟨c, _ | ⟨d, server⟩⟩
    · cases h
    · cases h
    · simp only [isServer, doubleSep, List.drop_succ_cons, List.drop_zero, Bool.and_eq_true,
        Bool.not_eq_true', List.isEmpty_eq_false_iff, List.all_eq_true] at h
      obtain ⟨⟨⟨hc, hd⟩, hne⟩, hall⟩ := h
      have hserver : Unbroken server := fun a ha => hall a ha
      refine ⟨server, hne, hserver, ?_⟩
      rw [slashed_cons, slashed_cons, hserver.slashed]
      rcases isSep_iff.mp hc with rfl | rfl <;> rcases isSep_iff.mp hd with rfl | rfl <;> rfl
  · rintro ⟨server, hne, hserver, hslash⟩
    have hsep : ∀ e : Char, (if e = '/' then '\\' else e) = '\\' → isSep e = true :=
      fun e he => isSep_iff.mpr (by split at he <;> simp_all)
    rcases t with _ | ⟨c, _ | ⟨d, g⟩⟩
    · cases hslash
    · cases (List.cons.inj hslash).2
    · simp only [slashed_cons, List.cons.injEq] at hslash
      obtain ⟨hc, hd, hg⟩ := hslash
      have hslashless : '/' ∉ g := fun hmem => hserver.not_mem.1 (by
        rw [← hg]
        exact List.mem_map.mpr ⟨'/', hmem, rfl⟩)
      rw [slashed_of_not_mem hslashless] at hg
      subst hg
      simp only [isServer, doubleSep, List.drop_succ_cons, List.drop_zero, Bool.and_eq_true,
        Bool.not_eq_true', List.isEmpty_eq_false_iff, List.all_eq_true]
      exact ⟨⟨⟨hsep c hc, hsep d hd⟩, hne⟩, fun a ha => hserver a ha⟩

/-- A server takes the name for its share, and so has a prefix. -/
theorem parsePrefix_server (h : isServer folder = true) (hx : IsName x) :
    ∃ p, parsePrefix (folder ++ '\\' :: x) = some p ∧ p.isDrive = false := by
  obtain ⟨server, hne, hserver, hslash⟩ := isServer_iff.mp h
  by_cases hm : mark <+: folder ++ '\\' :: x
  · obtain ⟨y, hy⟩ := hm
    refine ⟨_, by rw [← hy, parsePrefix_mark], ?_⟩
    exact Prefix.isDrive_of_isVerbatim (verbatimPrefix_isVerbatim y)
  · have hs : slashed (folder ++ '\\' :: x) = ['\\', '\\'] ++ (server ++ '\\' :: x) := by
      rw [hx.unbroken.slashed_join, hslash]
      rfl
    rw [parsePrefix_plain hm, hs, plainPrefix, strip_append]
    simp only [component_sep hserver.not_mem.1, beyond_sep hserver.not_mem.1,
      component_of_not_mem hx.unbroken.not_mem.1]
    split
    · exact ⟨_, rfl, rfl⟩
    · exact ⟨_, if_pos ⟨hne, hx.ne_nil⟩, rfl⟩

/-- No other text without a prefix gets one by a name. -/
theorem plainPrefix_join {t : Path} (ht : plainPrefix t = none)
    (hserver : ∀ server, server ≠ [] → '\\' ∉ server → t ≠ '\\' :: '\\' :: server)
    (hx : IsName x) : plainPrefix (t ++ '\\' :: x) = none := by
  have hq := hx.unbroken.not_mem.1
  rcases t with _ | ⟨a, _ | ⟨b, g⟩⟩
  · have hs : strip ['\\', '\\'] ('\\' :: x) = none := by
      rw [strip_eq_none, List.cons_prefix_cons]
      exact fun h => hq (h.2.subset (by simp))
    rw [List.nil_append, plainPrefix, hs,
      parseDrive_eq_none fun d rest he => by rw [← (List.cons.inj he).1]; rfl]
    rfl
  · rw [List.singleton_append, plainPrefix]
    split
    · rename_i y hs
      obtain ⟨-, rfl⟩ : a = '\\' ∧ x = y := by simpa using strip_eq_some.mp hs
      have hdot : strip ['.', '\\'] x = none := by
        rw [strip_eq_none]
        exact fun h => hq (h.subset (by simp))
      rw [hdot, beyond_of_not_mem hq]
      simp [component]
    · rw [parseDrive_eq_none fun d rest he => by simp at he]
      rfl
  · by_cases hab : a = '\\' ∧ b = '\\'
    · obtain ⟨rfl, rfl⟩ := hab
      have ht' : plainPrefix (['\\', '\\'] ++ g) = none := ht
      show plainPrefix (['\\', '\\'] ++ (g ++ '\\' :: x)) = none
      rw [plainPrefix, strip_append] at ht' ⊢
      simp only at ht' ⊢
      rcases pieces g with hg | ⟨n, w, hn, rfl⟩
      · -- a server would take the name for its share
        have hg : g = [] := by
          by_contra hne
          exact hserver g hne hg rfl
        subst hg
        rfl
      · have hne : n ≠ ['.'] := by
          rintro rfl
          rw [show ['.'] ++ '\\' :: w = ['.', '\\'] ++ w from rfl, strip_append] at ht'
          cases ht'
        rw [List.append_assoc, List.cons_append]
        rw [strip_dot hn hne] at ht' ⊢
        simp only [component_sep hn, beyond_sep hn, component_join] at ht' ⊢
        exact ht'
    · have hs : ∀ y, strip ['\\', '\\'] (a :: b :: y) = none := fun y => by
        rw [strip_eq_none, List.cons_prefix_cons, List.cons_prefix_cons]
        exact fun h => hab ⟨h.1.symm, h.2.1.symm⟩
      rw [plainPrefix, hs] at ht
      rw [List.cons_append, List.cons_append, plainPrefix, hs, parseDrive_two a b _ g]
      exact ht

theorem parsePrefix_not_server {s : Path} (hs : parsePrefix s = none)
    (h : isServer (trimSep s) = false) (hx : IsName x) :
    parsePrefix (trimSep s ++ '\\' :: x) = none := by
  have hm : ¬mark <+: trimSep s ++ '\\' :: x := fun hm => by
    rcases mark_join hm hx.unbroken with hu | hu
    · rw [hu] at h
      exact absurd h (by decide)
    · exact not_mark_of_none hs (hu.trans (trimSep_isPrefix s))
  have hnone : plainPrefix (slashed (trimSep s)) = none := by
    obtain ⟨z, hz⟩ := trimSep_isPrefix s
    by_contra hsome
    have happ := plainPrefix_append (Option.isSome_iff_ne_none.mpr hsome) (slashed z)
    rw [← slashed_append, hz, ← parsePrefix_plain (not_mark_of_none hs), hs] at happ
    cases happ
  rw [parsePrefix_plain hm, hx.unbroken.slashed_join]
  refine plainPrefix_join hnone (fun server hne hmem heq => ?_) hx
  rw [← Bool.not_eq_true] at h
  refine h (isServer_iff.mpr ⟨server, hne, fun c hc => ?_, heq⟩)
  rw [← Bool.not_eq_true]
  intro hsep
  rcases isSep_iff.mp hsep with rfl | rfl
  · exact hmem hc
  · exact slash_not_mem_slashed (trimSep s) (by rw [heq]; simp [hc])

end

end WinPath
