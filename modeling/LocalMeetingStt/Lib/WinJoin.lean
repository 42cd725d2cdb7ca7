import LocalMeetingStt.Lib.WinPath

/-!
# Joining a name to a Windows path

`push base name` is the text of `base`, a `\`, and the name, except that a verbatim base is
taken apart first. Two facts carry over to components. Outside verbatim paths the text
decides up to the kind of its separators, so that it does not matter whether a separator at
the end of the base is kept or written anew (`components_push_plain`). For a verbatim base
with a complete prefix the components are those of the base and the name
(`components_push_verbatim`); an incomplete one, a server without a share, takes the next
name into the prefix.
-/

namespace WinPath

/-! ## Verbatim and plain texts -/

theorem seen_verbatim {t : Path} (h : mark <+: t) : seen t = t := if_pos h

theorem seen_plain {t : Path} (h : ¬mark <+: t) : seen t = slashed t := if_neg h

theorem parsePrefix_plain {t : Path} (h : ¬mark <+: t) :
    parsePrefix t = plainPrefix (slashed t) := by
  rw [parsePrefix, strip_eq_none.mpr h]

theorem parsePrefix_mark (x : Path) : parsePrefix (mark ++ x) = some (verbatimPrefix x) := by
  rw [parsePrefix, strip_append]

theorem verbatimPrefix_isVerbatim (t : Path) : (verbatimPrefix t).isVerbatim = true := by
  unfold verbatimPrefix
  split
  · rfl
  · split <;> rfl

theorem plainPrefix_isVerbatim {t : Path} {p : Prefix} (h : plainPrefix t = some p) :
    p.isVerbatim = false := by
  unfold plainPrefix at h
  split at h
  · split at h
    · obtain rfl := Option.some.inj h
      rfl
    · split at h
      · obtain rfl := Option.some.inj h
        rfl
      · cases h
  · obtain ⟨d, -, rfl⟩ := Option.map_eq_some_iff.mp h
    rfl

/-- A path is verbatim exactly if its text begins with the mark. -/
theorem verbatim_iff {t : Path} :
    (parsePrefix t).any Prefix.isVerbatim = true ↔ mark <+: t := by
  constructor
  · intro h
    by_contra hm
    rw [parsePrefix_plain hm] at h
    cases hp : plainPrefix (slashed t) with
    | none => rw [hp] at h; cases h
    | some p =>
      rw [hp, Option.any_some, plainPrefix_isVerbatim hp] at h
      cases h
  · rintro ⟨x, rfl⟩
    rw [parsePrefix_mark]
    exact verbatimPrefix_isVerbatim x

theorem isVerbatim_iff {t : Path} {p : Prefix} (h : parsePrefix t = some p) :
    p.isVerbatim = true ↔ mark <+: t := by
  rw [← verbatim_iff, h]
  rfl

theorem any_verbatim_of_not_mark {t : Path} (h : ¬mark <+: t) :
    (parsePrefix t).any Prefix.isVerbatim = false := by
  rw [← Bool.not_eq_true]
  exact fun hv => h (verbatim_iff.mp hv)

theorem not_mark_of_none {t : Path} (h : parsePrefix t = none) : ¬mark <+: t := by
  rintro ⟨y, rfl⟩
  rw [parsePrefix_mark] at h
  cases h

theorem not_mark_of_plain {t : Path} {p : Prefix} (h : parsePrefix t = some p)
    (hv : p.isVerbatim = false) : ¬mark <+: t := fun hm => by
  rw [(isVerbatim_iff h).mpr hm] at hv
  cases hv

/-- Plain texts that differ in the kind of their separators are read alike. -/
theorem components_slashed {a b : Path} (ha : ¬mark <+: a) (hb : ¬mark <+: b)
    (h : slashed a = slashed b) : components a = components b := by
  rw [components, components, parsePrefix_plain ha, parsePrefix_plain hb, seen_plain ha,
    seen_plain hb, h]

/-! ## Texts with a prefix -/

/-- `t` was read as `p`, written `raw`, and `rest`. -/
structure Parsed (t raw rest : Path) (p : Prefix) : Prop where
  seen : seen t = raw ++ rest
  parse : parsePrefix t = some p
  reads : Reads raw rest p

theorem exists_parsed {t : Path} {p : Prefix} (h : parsePrefix t = some p) :
    ∃ raw rest, Parsed t raw rest p := by
  obtain ⟨raw, rest, hs, hr⟩ := parsePrefix_reads h
  exact ⟨raw, rest, hs, h, hr⟩

theorem Reads.mark_isPrefix {raw rest : Path} {p : Prefix} (h : Reads raw rest p)
    (hv : p.isVerbatim = true) : mark <+: raw := by
  obtain ⟨x, rfl, -⟩ := h.verbatimPrefix hv
  exact List.prefix_append _ _

/-- A verbatim text, as it was read. -/
theorem Reads.parsed {raw rest : Path} {p : Prefix} (h : Reads raw rest p)
    (hv : p.isVerbatim = true) : Parsed (raw ++ rest) raw rest p where
  seen := seen_verbatim ((h.mark_isPrefix hv).trans (List.prefix_append _ _))
  parse := by
    obtain ⟨x, rfl, hx⟩ := h.verbatimPrefix hv
    rw [List.append_assoc, parsePrefix_mark, hx]
  reads := h

/-- A plain text, as it was read. -/
theorem Reads.parsed_plain {t raw rest : Path} {p : Prefix} (h : Reads raw rest p)
    (hv : p.isVerbatim = false) (hm : ¬mark <+: t) (hs : slashed t = raw ++ rest) :
    Parsed t raw rest p where
  seen := (seen_plain hm).trans hs
  parse := by rw [parsePrefix_plain hm, hs, h.plainPrefix hv]
  reads := h

/-- No name that follows can become part of the prefix. -/
def Prefix.Complete : Prefix → Prop
  | .verbatim x => x ≠ ['U', 'N', 'C']
  | .verbatimUNC _ share => share ≠ []
  | _ => True

instance (p : Prefix) : Decidable p.Complete := by
  cases p <;> unfold Prefix.Complete <;> infer_instance

/-- After a complete prefix anything may follow a separator. -/
theorem Reads.follow {raw rest : Path} {p : Prefix} (h : Reads raw rest p) (hc : p.Complete)
    {c : Char} (w : Path) (hr : c = '\\' ∨ ∃ w', rest = c :: w' ∧ isSep c = true) :
    Reads raw (c :: w) p := by
  have htail : Tail rest → c = '\\' := by
    rintro (rfl | ⟨w', rfl⟩)
    · simpa using hr
    · rcases hr with rfl | ⟨z, hz, -⟩
      · rfl
      · exact (List.cons.inj hz).1.symm
  have hsep : isSep c = true := by
    rcases hr with rfl | ⟨z, -, hz⟩
    · rfl
    · exact hz
  cases h with
  | verbatim whole unc drive tail alone =>
    obtain rfl := htail tail
    exact .verbatim whole unc drive (.inr ⟨w, rfl⟩) fun he => absurd he hc
  | server => exact absurd rfl hc
  | share sep whole some whole' tail =>
    obtain rfl := htail tail
    exact .share sep whole some whole' (.inr ⟨w, rfl⟩)
  | verbatimDisk letter _ => exact .verbatimDisk letter (.inr ⟨c, w, rfl, hsep⟩)
  | device whole tail =>
    obtain rfl := htail tail
    exact .device whole (.inr ⟨w, rfl⟩)
  | unc host whole dot some whole' tail =>
    obtain rfl := htail tail
    exact .unc host whole dot some whole' (.inr ⟨w, rfl⟩)
  | disk letter => exact .disk letter

theorem Reads.tail {raw rest : Path} {p : Prefix} (h : Reads raw rest p)
    (hd : p.isDrive = false) : rest = [] ∨ ∃ c w, rest = c :: w ∧ isSep c = true := by
  have htail : Tail rest → rest = [] ∨ ∃ c w, rest = c :: w ∧ isSep c = true := by
    rintro (rfl | ⟨w, rfl⟩)
    · exact .inl rfl
    · exact .inr ⟨'\\', w, rfl, rfl⟩
  cases h with
  | verbatim whole unc drive tail alone => exact htail tail
  | server sep whole tail =>
    rcases tail with rfl | ⟨w, rfl, -⟩
    · exact .inl rfl
    · exact .inr ⟨'\\', w, rfl, rfl⟩
  | share sep whole some whole' tail => exact htail tail
  | verbatimDisk letter tail => exact tail
  | device whole tail => exact htail tail
  | unc host whole dot some whole' tail => exact htail tail
  | disk => cases hd

namespace Parsed

variable {t raw rest : Path} {p : Prefix}

theorem prefixLen (h : Parsed t raw rest p) : prefixLen t = raw.length := by
  rw [WinPath.prefixLen, h.parse]
  exact h.reads.length

/-- A verbatim path is read as it is written. -/
theorem text (h : Parsed t raw rest p) (hv : p.isVerbatim = true) : t = raw ++ rest := by
  rw [← h.seen, seen_verbatim ((isVerbatim_iff h.parse).mp hv)]

theorem take_prefixLen (h : Parsed t raw rest p) (hv : p.isVerbatim = true) :
    t.take (WinPath.prefixLen t) = raw := by
  rw [h.prefixLen, h.text hv, List.take_left]

theorem afterPrefix (h : Parsed t raw rest p) : afterPrefix t = rest := by
  rw [WinPath.afterPrefix, h.prefixLen, h.seen, List.drop_left]

theorem components_eq (h : Parsed t raw rest p) :
    components t = .pre p :: (startDir (some p) rest ++
      body p.isVerbatim (if hasPhysicalRoot rest then rest.drop 1 else rest)) := by
  have hlen : p.len = raw.length := h.reads.length
  simp only [WinPath.components, parts, h.parse, h.seen, Option.map_some, Option.getD_some, hlen,
    List.drop_left, Option.toList_some, Option.any_some, List.cons_append, List.nil_append]

/-- Prefix, root, names. -/
theorem components_sep {c : Char} {w : Path} (h : Parsed t raw (c :: w) p)
    (hc : isSep c = true) :
    WinPath.components t = .pre p :: .rootDir :: body p.isVerbatim w := by
  have hroot : hasPhysicalRoot (c :: w) = true := hc
  rw [h.components_eq, startDir, if_pos hroot, if_pos hroot]
  rfl

theorem components_nil (h : Parsed t raw [] p) :
    WinPath.components t =
      .pre p :: (if p.hasImplicitRoot && !p.isVerbatim then [.rootDir] else []) := by
  rw [h.components_eq, startDir]
  simp [hasPhysicalRoot]

theorem hasRoot_iff (h : Parsed t raw rest p) :
    hasRoot t = (hasPhysicalRoot rest || p.hasImplicitRoot) := by
  rw [hasRoot, h.afterPrefix, h.parse]
  rfl

theorem isAbsolute_iff (h : Parsed t raw rest p) :
    isAbsolute t = (hasPhysicalRoot rest || p.hasImplicitRoot) := by
  rw [isAbsolute, h.hasRoot_iff, h.parse]
  simp

end Parsed

/-! ## A name on its own -/

section

variable {x : Path}

theorem IsName.not_mark (hx : IsName x) : ¬mark <+: x := fun h =>
  hx.unbroken.not_mem.1 (h.subset (by decide))

theorem IsName.parsePrefix (hx : IsName x) (hd : parseDrive x = none) : parsePrefix x = none := by
  have hs : strip ['\\', '\\'] x = none := by
    rw [strip_eq_none]
    exact fun h => hx.unbroken.not_mem.1 (h.subset (by decide))
  rw [parsePrefix_plain hx.not_mark, hx.unbroken.slashed, plainPrefix, hs, hd]
  rfl

theorem IsName.seen (hx : IsName x) : seen x = x := by
  rw [seen_plain hx.not_mark, hx.unbroken.slashed]

theorem IsName.hasPhysicalRoot (hx : IsName x) : hasPhysicalRoot x = false := by
  cases x with
  | nil => exact absurd rfl hx.ne_nil
  | cons c x => exact hx.unbroken c (List.mem_cons_self ..)

theorem IsName.hasRoot (hx : IsName x) (hd : parseDrive x = none) : hasRoot x = false := by
  rw [WinPath.hasRoot, afterPrefix, prefixLen, hx.parsePrefix hd, hx.seen]
  simpa using hx.hasPhysicalRoot

theorem IsName.components (hx : IsName x) (hd : parseDrive x = none) :
    components x = [.normal x] := by
  have hcur : includeCurDir x = false := by
    rcases x with _ | ⟨a, _ | ⟨b, x⟩⟩
    · rfl
    · have : a ≠ '.' := fun h => hx.ne_dot (by rw [h])
      simp [includeCurDir, this]
    · have : isSep b = false := hx.unbroken b (by simp)
      simp [includeCurDir, this]
  have hroot := hx.hasPhysicalRoot
  simp only [WinPath.components, parts, hx.parsePrefix hd, hx.seen, startDir, Option.map_none,
    Option.getD_none, List.drop_zero, hroot, hcur, Option.toList_none, Option.any_none,
    hx.body, Bool.false_eq_true, if_false, List.nil_append]

end

/-! ## Names put together again -/

/-- A component that stands between two separators of a verbatim path. -/
def Named (c : Component) : Prop := '\\' ∉ c.asOsStr [] ∧ single true (c.asOsStr []) = some c

instance (c : Component) : Decidable (Named c) := inferInstanceAs (Decidable (_ ∧ _))

theorem Named.ne_root {c : Component} (h : Named c) : c ≠ .rootDir := by
  rintro rfl
  exact h.1 (by decide)

theorem Named.asOsStr {c : Component} (h : Named c) (raw : Path) :
    c.asOsStr raw = c.asOsStr [] := by
  cases c with
  | pre p => cases h.2
  | _ => rfl

theorem Named.body {c : Component} (h : Named c) : body true (c.asOsStr []) = [c] := by
  rw [body_of_not_mem true h.1, h.2]
  rfl

theorem IsName.named {x : Path} (hx : IsName x) : Named (.normal x) :=
  ⟨hx.unbroken.not_mem.1, hx.single true⟩

theorem mem_body {v : Bool} {t : Path} {c : Component} (h : c ∈ body v t) :
    ∃ n, '\\' ∉ n ∧ single v n = some c := by
  induction hlen : t.length using Nat.strongRecOn generalizing t with
  | ind k ih =>
    rcases pieces t with ht | ⟨n, w, hn, rfl⟩
    · rw [body_of_not_mem v ht, Option.mem_toList] at h
      exact ⟨t, ht, h⟩
    · rw [body_sep, body_of_not_mem v hn, List.mem_append, Option.mem_toList] at h
      rcases h with h | h
      · exact ⟨n, hn, h⟩
      · exact ih w.length (by simp only [List.length_append, List.length_cons] at hlen; omega)
          h rfl

/-- What a body yields stands between separators, and never is the root. -/
theorem named_of_mem_body {v : Bool} {t : Path} {c : Component} (h : c ∈ body v t) : Named c := by
  obtain ⟨n, hn, hs⟩ := mem_body h
  rcases single_cases hs with ⟨-, -, rfl⟩ | ⟨-, rfl⟩ | ⟨hnil, hdot, hdots, rfl⟩
  · decide
  · decide
  · exact ⟨hn, by simp [single, Component.asOsStr, hnil, hdot, hdots]⟩

/-- What a body yields, and a name. -/
theorem IsName.named_body {x : Path} (hx : IsName x) {v : Bool} {t : Path} :
    ∀ c ∈ WinPath.body v t ++ [.normal x], Named c := fun c hc => by
  rcases List.mem_append.mp hc with hc | hc
  · exact named_of_mem_body hc
  · rw [List.mem_singleton.mp hc]
    exact hx.named

/-- Each name after a `\`. -/
def joined (cs : List Component) : Path := cs.flatMap fun c => '\\' :: c.asOsStr []

@[simp] theorem joined_nil : joined [] = [] := rfl

@[simp] theorem joined_cons (c : Component) (cs : List Component) :
    joined (c :: cs) = '\\' :: (c.asOsStr [] ++ joined cs) := rfl

theorem joined_append (cs ds : List Component) : joined (cs ++ ds) = joined cs ++ joined ds :=
  List.flatMap_append

theorem body_after_sep (v : Bool) (t : Path) : body v ('\\' :: t) = body v t := by
  rw [← List.nil_append ('\\' :: t), body_sep, body_nil, List.nil_append]

theorem body_joined {cs : List Component} (h : ∀ c ∈ cs, Named c) : body true (joined cs) = cs := by
  induction cs with
  | nil => exact body_nil true
  | cons c cs ih =>
    rw [List.forall_mem_cons] at h
    have ih := ih h.2
    rw [joined_cons, body_after_sep]
    cases cs with
    | nil => rw [joined_nil, List.append_nil, h.1.body]
    | cons d cs =>
      rw [joined_cons, body_after_sep] at ih
      rw [joined_cons, body_sep, h.1.body, ih]
      rfl

theorem rebuild_cons (raw : Path) (sep : Bool) {c : Component} (h : Named c)
    (cs : List Component) :
    rebuild raw sep (c :: cs) =
      (if sep then ['\\'] else []) ++ (c.asOsStr [] ++ rebuild raw true cs) := by
  cases c with
  | pre p => cases h.2
  | rootDir => exact absurd rfl h.ne_root
  | curDir | parentDir | normal => cases sep <;> simp [rebuild, Component.asOsStr]

theorem rebuild_names (raw : Path) {cs : List Component} (h : ∀ c ∈ cs, Named c) :
    rebuild raw true cs = joined cs := by
  induction cs with
  | nil => rfl
  | cons c cs ih =>
    rw [List.forall_mem_cons] at h
    rw [rebuild_cons raw true h.1, ih h.2]
    rfl

/-- What a verbatim path is taken apart into: the prefix, perhaps the root, and names. -/
structure Buffer (p : Prefix) (buf : List Component) (root : Bool) (names : List Component) :
    Prop where
  eq : buf = .pre p :: ((if root then [.rootDir] else []) ++ names)
  named : ∀ c ∈ names, Named c

/-- The text of a buffer: the root shows only where no name follows it. -/
theorem Buffer.rebuild {p : Prefix} {buf names : List Component} {root : Bool}
    (h : Buffer p buf root names) (hv : p.isVerbatim = true) (raw : Path) :
    rebuild raw false buf =
      raw ++ (if root && names.isEmpty then ['\\'] else joined names) := by
  have hlen : 0 < p.len := by
    cases p with
    | verbatim | verbatimUNC => simp only [Prefix.len]; omega
    | verbatimDisk => exact Nat.succ_pos 5
    | deviceNS | unc | disk => cases hv
  have hdrive : p.isDrive = false := Prefix.isDrive_of_isVerbatim hv
  have hpre : ∀ cs, WinPath.rebuild raw false (.pre p :: cs) =
      raw ++ WinPath.rebuild raw true cs := by
    intro cs
    simp [WinPath.rebuild, Component.asOsStr, hdrive, hlen]
  rw [h.eq, hpre]
  cases root with
  | false => rw [Bool.false_and, if_neg Bool.false_ne_true, if_neg Bool.false_ne_true,
      List.nil_append, rebuild_names raw h.named]
  | true =>
    have hroot : ∀ cs, WinPath.rebuild raw true (.rootDir :: cs) =
        '\\' :: WinPath.rebuild raw false cs := fun cs => by
      simp [WinPath.rebuild, Component.asOsStr]
    rw [if_pos rfl, List.singleton_append, hroot]
    cases names with
    | nil => rfl
    | cons c cs =>
      have hc := h.named
      rw [List.forall_mem_cons] at hc
      rw [rebuild_cons raw false hc.1, rebuild_names raw hc.2]
      rfl

/-- The components of a verbatim path are a buffer. -/
theorem Parsed.buffer {t raw rest : Path} {p : Prefix} (h : Parsed t raw rest p)
    (hv : p.isVerbatim = true) :
    Buffer p (components t) (!rest.isEmpty) (body true (rest.drop 1)) where
  eq := by
    rcases h.reads.tail (Prefix.isDrive_of_isVerbatim hv) with rfl | ⟨c, w, rfl, hc⟩
    · rw [h.components_nil, hv]
      simp
    · rw [h.components_sep hc, hv]
      rfl
  named _ hc := named_of_mem_body hc

/-! ## Pushing a name -/

section

variable {base raw rest x : Path} {p : Prefix}

/-- A verbatim base with a name pushed to it, as text. -/
theorem push_verbatim (h : Parsed base raw rest p) (hv : p.isVerbatim = true) (hx : IsName x)
    (hd : parseDrive x = none) :
    push base x = raw ++ joined (body true (rest.drop 1) ++ [.normal x]) := by
  have hb := h.buffer hv
  have hx' : Buffer p (components base ++ [.normal x]) (!rest.isEmpty)
      (body true (rest.drop 1) ++ [.normal x]) :=
    ⟨by rw [hb.eq]; simp, hx.named_body⟩
  have hpush : push base x =
      WinPath.rebuild (base.take (prefixLen base)) false (components base ++ [.normal x]) := by
    rw [push, isAbsolute, hx.parsePrefix hd, h.parse, hx.components hd]
    simp [hv, hx.ne_nil, addVerbatim]
  rw [hpush, h.take_prefixLen hv, hx'.rebuild hv raw]
  simp

/-- With a complete prefix, the components of the base and the name. -/
theorem components_push_verbatim (h : Parsed base raw rest p) (hv : p.isVerbatim = true)
    (hc : p.Complete) (hx : IsName x) (hd : parseDrive x = none) :
    components (push base x) =
      .pre p :: .rootDir :: (body true (rest.drop 1) ++ [.normal x]) := by
  have hbody := body_joined (hx.named_body (v := true) (t := rest.drop 1))
  rw [push_verbatim h hv hx hd]
  cases hj : joined (body true (rest.drop 1) ++ [.normal x]) with
  | nil => rw [hj] at hbody; simp at hbody
  | cons c w =>
    have hsep : c = '\\' := by
      cases hn : body true (rest.drop 1) ++ [.normal x] with
      | nil => rw [hn] at hj; cases hj
      | cons d ds =>
        rw [hn, joined_cons] at hj
        exact (List.cons.inj hj).1.symm
    subst hsep
    have hp := (h.reads.follow hc w (.inl rfl)).parsed hv
    rw [hp.components_sep rfl, hv]
    rw [hj, body_after_sep] at hbody
    rw [hbody]

end

/-! ## Plain bases -/

/-- The text without one separator at its end. -/
def trimSep (t : Path) : Path :=
  match t.getLast? with
  | some c => if isSep c then t.dropLast else t
  | none => t

theorem trimSep_sep (t : Path) {c : Char} (hc : isSep c = true) : trimSep (t ++ [c]) = t := by
  simp [trimSep, hc]

theorem trimSep_other (t : Path) {c : Char} (hc : isSep c = false) :
    trimSep (t ++ [c]) = t ++ [c] := by
  simp [trimSep, hc]

/-- A separator was taken off, or the text ends with another character. -/
theorem trimSep_cases {t : Path} (h : t ≠ []) :
    (∃ c, isSep c = true ∧ t = trimSep t ++ [c]) ∨
      ∃ u c, isSep c = false ∧ t = u ++ [c] ∧ trimSep t = t := by
  obtain ⟨u, c, rfl⟩ := List.eq_nil_or_concat' t |>.resolve_left h
  cases hc : isSep c with
  | true => exact .inl ⟨c, hc, by rw [trimSep_sep u hc]⟩
  | false => exact .inr ⟨u, c, hc, rfl, trimSep_other u hc⟩

theorem trimSep_isPrefix (t : Path) : trimSep t <+: t := by
  unfold trimSep
  split
  · split
    · exact List.dropLast_prefix t
    · exact List.prefix_refl t
  · exact List.prefix_refl t

theorem trimSep_append (u : Path) {t : Path} (h : t ≠ []) :
    trimSep (u ++ t) = u ++ trimSep t := by
  obtain ⟨v, c, rfl⟩ := List.eq_nil_or_concat' t |>.resolve_left h
  cases hc : isSep c with
  | true => rw [← List.append_assoc, trimSep_sep _ hc, trimSep_sep _ hc]
  | false => rw [← List.append_assoc, trimSep_other _ hc, trimSep_other _ hc, List.append_assoc]

/-- The separator comes off what follows a prefix and its separator. -/
theorem trimSep_after (u : Path) (c : Char) {t : Path} (h : t ≠ []) :
    trimSep (u ++ c :: t) = u ++ c :: trimSep t := by
  have hcut := trimSep_append (u ++ [c]) h
  rwa [List.append_assoc, List.append_assoc] at hcut

/-- A last name that is cut ended with a `/`. -/
theorem trimSep_piece {u y : Path} (hne : y ≠ []) (hy : '\\' ∉ y)
    (h : trimSep (u ++ y) ≠ u ++ y) : ∃ y', y = y' ++ ['/'] ∧ trimSep (u ++ y) = u ++ y' := by
  rcases trimSep_cases hne with ⟨c, hc, heq⟩ | ⟨-, -, -, -, heq⟩
  · refine ⟨trimSep y, ?_, trimSep_append u hne⟩
    rcases isSep_iff.mp hc with rfl | rfl
    · exact absurd (by rw [heq]; simp) hy
    · exact heq
  · exact absurd (by rw [trimSep_append u hne, heq]) h

theorem mark_of_sep {u w : Path} {c : Char} (hc : isSep c = true) (h : mark <+: u ++ c :: w) :
    mark <+: u ++ '\\' :: w := by
  rcases isSep_iff.mp hc with rfl | rfl
  · exact h
  · rcases u with _ | ⟨a, _ | ⟨b, _ | ⟨d, _ | ⟨e, u⟩⟩⟩⟩
    · simp [mark] at h
    · simp [mark] at h
    · simp [mark] at h
    · simp [mark] at h
    · simpa [mark, List.cons_prefix_cons] using h

section

variable {base x : Path}

theorem isBareDrive_eq {t : Path} (h : isBareDrive t = true) :
    ∃ d, t = [d, ':'] ∧ d.isAlpha = true := by
  rw [isBareDrive, Bool.and_eq_true, beq_iff_eq] at h
  obtain ⟨hlen, hdrive⟩ := h
  cases hp : parsePrefix t with
  | none => rw [hp] at hdrive; cases hdrive
  | some p =>
    rw [hp, Option.any_some] at hdrive
    have hm : ¬mark <+: t := fun hm => by
      rw [Prefix.isDrive_of_isVerbatim ((isVerbatim_iff hp).mpr hm)] at hdrive
      cases hdrive
    obtain ⟨raw, rest, hs, -, hr⟩ := exists_parsed hp
    rw [seen_plain hm] at hs
    cases hr with
    | @disk d _ letter =>
      have ht : t.length = 2 := by
        rw [← hlen, prefixLen, hp]
        rfl
      obtain ⟨a, b, rfl⟩ := List.length_eq_two.mp ht
      simp only [slashed_cons, slashed_nil, List.cons_append, List.nil_append,
        List.cons.injEq] at hs
      obtain ⟨ha, hb, -⟩ := hs
      have hb' : b = ':' := by
        split at hb
        · cases hb
        · exact hb
      have ha' : a = d := by
        split at ha
        · rw [← ha] at letter
          cases letter
        · exact ha
      exact ⟨d, by rw [ha', hb'], letter⟩
    | _ => cases hdrive

theorem isBareDrive_of_length {t : Path} (h : 3 ≤ t.length) : isBareDrive t = false := by
  rw [← Bool.not_eq_true]
  intro hb
  obtain ⟨d, rfl, -⟩ := isBareDrive_eq hb
  simp at h

theorem push_of_not_mark (hb : ¬mark <+: base) (hx : IsName x) (hd : parseDrive x = none) :
    push base x = (if needSep base then base ++ ['\\'] else base) ++ x := by
  rw [push, isAbsolute, hx.parsePrefix hd, any_verbatim_of_not_mark hb, hx.hasRoot hd]
  rfl

/-- A plain base with a name pushed to it, as text: the separator at its end is kept, or a
    `\` is put there. -/
theorem push_plain (hb : ¬mark <+: base) (hne : base ≠ []) (hbare : isBareDrive base = false)
    (hx : IsName x) (hd : parseDrive x = none) :
    ∃ c, isSep c = true ∧ push base x = trimSep base ++ c :: x := by
  rw [push_of_not_mark hb hx hd]
  rcases trimSep_cases hne with ⟨c, hc, heq⟩ | ⟨u, c, hc, heq, htrim⟩
  · have hneed : needSep base = false := by
      rw [needSep, heq, List.getLast?_concat]
      simp [hc]
    refine ⟨c, hc, ?_⟩
    rw [hneed, if_neg Bool.false_ne_true]
    conv_lhs => rw [heq]
    rw [List.append_assoc, List.singleton_append]
  · have hneed : needSep base = true := by
      have hlast : base.getLast? = some c := by rw [heq, List.getLast?_concat]
      rw [needSep, hlast, hbare]
      simp [hc]
    exact ⟨'\\', rfl, by rw [hneed, if_pos rfl, htrim, List.append_assoc]; rfl⟩

/-- It is read as the base without a separator at its end, a `\` and the name. -/
theorem components_push_plain (hb : ¬mark <+: base) (hne : base ≠ [])
    (hbare : isBareDrive base = false) (hx : IsName x) (hd : parseDrive x = none)
    (hm : ¬mark <+: trimSep base ++ '\\' :: x) :
    components (push base x) = components (trimSep base ++ '\\' :: x) := by
  obtain ⟨c, hc, hpush⟩ := push_plain hb hne hbare hx hd
  rw [hpush]
  refine components_slashed (fun h => hm (mark_of_sep hc h)) hm ?_
  rcases isSep_iff.mp hc with rfl | rfl <;> simp

/-- A name makes a text verbatim only after `\\?`. -/
theorem mark_join {u : Path} (h : mark <+: u ++ '\\' :: x) (hx : Unbroken x) :
    u = ['\\', '\\', '?'] ∨ mark <+: u := by
  have hq : '\\' ∉ x := hx.not_mem.1
  rcases u with _ | ⟨a, _ | ⟨b, _ | ⟨d, _ | ⟨e, u⟩⟩⟩⟩
  · have h' : ['\\', '?', '\\'] <+: x := by simpa [mark] using h
    exact absurd (h'.subset (by decide)) hq
  · have h' : '\\' = a ∧ ['?', '\\'] <+: x := by simpa [mark] using h
    exact absurd (h'.2.subset (by decide)) hq
  · simp [mark] at h
  · have h' : '\\' = a ∧ '\\' = b ∧ '?' = d := by
      simpa [mark, List.cons_prefix_cons] using h
    obtain ⟨rfl, rfl, rfl⟩ := h'
    exact .inl rfl
  · exact .inr (by simpa [mark, List.cons_prefix_cons] using h)

/-- Joining a name to a text with a plain prefix leaves it plain, -/
theorem not_mark_join {p : Prefix} (h : parsePrefix base = some p) (hv : p.isVerbatim = false)
    (hx : Unbroken x) : ¬mark <+: trimSep base ++ '\\' :: x := by
  intro hm
  have hb := not_mark_of_plain h hv
  have hne : base ≠ [] := by
    rintro rfl
    cases h
  rcases mark_join hm hx with hu | hu
  · -- only `\\?` itself could get the mark by a `\`, and it has no prefix
    rcases trimSep_cases hne with ⟨c, hc, heq⟩ | ⟨-, -, -, -, heq⟩
    · rw [hu] at heq
      rcases isSep_iff.mp hc with rfl | rfl
      · exact hb (by rw [heq]; decide)
      · have hnone : parsePrefix (['\\', '\\', '?'] ++ ['/']) = none := by decide
        rw [heq, hnone] at h
        cases h
    · have hnone : parsePrefix ['\\', '\\', '?'] = none := by decide
      rw [← heq, hu, hnone] at h
      cases h
  · exact hb (hu.trans (trimSep_isPrefix base))

theorem component_join (w x : Path) : component (w ++ '\\' :: x) = component w := by
  rcases pieces w with h | ⟨n, v, hn, rfl⟩
  · rw [component_sep h, component_of_not_mem h]
  · rw [List.append_assoc, List.cons_append, component_sep hn, component_sep hn]

theorem component_append_ne_nil {t : Path} (h : component t ≠ []) (y : Path) :
    component (t ++ y) ≠ [] := by
  cases t with
  | nil => exact absurd rfl h
  | cons c t =>
    have hc : c ≠ '\\' := by
      rintro rfl
      exact h rfl
    simp [component, hc]

/-- What follows does not take a plain prefix away. -/
theorem plainPrefix_append {t : Path} (h : (plainPrefix t).isSome = true) (y : Path) :
    (plainPrefix (t ++ y)).isSome = true := by
  obtain ⟨p, hp⟩ := Option.isSome_iff_exists.mp h
  have hv := plainPrefix_isVerbatim hp
  obtain ⟨raw, rest, rfl, hr⟩ := plainPrefix_reads hp
  cases hr with
  | @device z _ whole tail =>
    have hs : ['\\', '\\', '.', '\\'] ++ z ++ rest ++ y =
        ['\\', '\\'] ++ (['.', '\\'] ++ (z ++ rest ++ y)) := by simp
    rw [plainPrefix, hs, strip_append]
    simp only [strip_append, Option.isSome_some]
  | @unc server share _ host whole dot some whole' tail =>
    have hs : ['\\', '\\'] ++ server ++ '\\' :: share ++ rest ++ y =
        ['\\', '\\'] ++ (server ++ '\\' :: (share ++ (rest ++ y))) := by simp
    have hshare : component (share ++ (rest ++ y)) ≠ [] :=
      component_append_ne_nil (by rwa [component_of_not_mem whole']) _
    rw [plainPrefix, hs, strip_append]
    simp only [component_sep whole, beyond_sep whole]
    split
    · rfl
    · rw [if_pos ⟨host, hshare⟩]
      rfl
  | disk letter =>
    have hr : Reads [_, ':'] (rest ++ y) _ := .disk letter
    rw [List.append_assoc, hr.plainPrefix rfl]
    rfl
  | verbatim | server | share | verbatimDisk => cases hv

/-- and has a prefix as the base has. -/
theorem parsePrefix_join {p : Prefix} (h : parsePrefix base = some p)
    (hv : p.isVerbatim = false) (hx : Unbroken x) :
    (parsePrefix (trimSep base ++ '\\' :: x)).isSome = true := by
  have hb := not_mark_of_plain h hv
  have hne : base ≠ [] := by
    rintro rfl
    cases h
  have hsome : (plainPrefix (slashed base)).isSome = true := by
    rw [← parsePrefix_plain hb, h]
    rfl
  rw [parsePrefix_plain (not_mark_join h hv hx)]
  rcases trimSep_cases hne with ⟨c, hc, heq⟩ | ⟨u, c, hc, heq, htrim⟩
  · have hs : slashed (trimSep base ++ '\\' :: x) = slashed base ++ slashed x := by
      conv_rhs => rw [heq]
      rcases isSep_iff.mp hc with rfl | rfl <;> simp
    rw [hs]
    exact plainPrefix_append hsome _
  · rw [htrim, slashed_append]
    exact plainPrefix_append hsome _

end

/-! ## Bases without a prefix -/

section

variable {s x : Path}

theorem parts_none (t : Path) :
    parts none t = startDir none t ++ body false (if hasPhysicalRoot t then t.drop 1 else t) := by
  simp [parts]

theorem components_none {t : Path} (h : parsePrefix t = none) :
    components t = parts none (slashed t) := by
  rw [components, h, seen_plain (not_mark_of_none h)]

theorem hasRoot_none {t : Path} (h : parsePrefix t = none) :
    hasRoot t = hasPhysicalRoot t := by
  rw [hasRoot, afterPrefix, prefixLen, h, seen_plain (not_mark_of_none h)]
  cases t with
  | nil => rfl
  | cons c t =>
    rcases eq_or_ne c '/' with rfl | hc
    · rfl
    · simp [hasPhysicalRoot, hc]

/-- A name after a relative or rooted text is one more component. -/
theorem parts_none_join (c : Char) (g : Path) (hx : IsName x) :
    parts none (c :: g ++ '\\' :: x) = parts none (c :: g) ++ [.normal x] := by
  rw [parts_none, parts_none]
  cases hc : isSep c with
  | true =>
    have hroot : hasPhysicalRoot (c :: g) = true := hc
    have hroot' : hasPhysicalRoot (c :: g ++ '\\' :: x) = true := hc
    rw [startDir, startDir, if_pos hroot, if_pos hroot, if_pos hroot', if_pos hroot']
    simp [body_sep, hx.body]
  | false =>
    have hroot : hasPhysicalRoot (c :: g) = false := hc
    have hroot' : hasPhysicalRoot (c :: g ++ '\\' :: x) = false := hc
    have hcur : includeCurDir (c :: g ++ '\\' :: x) = includeCurDir (c :: g) := by
      cases g <;> simp [includeCurDir, isSep]
    rw [startDir, startDir, hroot, hroot', hcur]
    simp only [Bool.false_eq_true, if_false]
    rw [body_sep, hx.body, List.append_assoc]

theorem parts_none_sep (c : Char) (g : Path) :
    parts none (c :: g ++ ['\\']) = parts none (c :: g) := by
  rw [parts_none, parts_none]
  cases hc : isSep c with
  | true =>
    have hroot : hasPhysicalRoot (c :: g) = true := hc
    have hroot' : hasPhysicalRoot (c :: g ++ ['\\']) = true := hc
    rw [startDir, startDir, if_pos hroot, if_pos hroot, if_pos hroot', if_pos hroot']
    simp [body_sep]
  | false =>
    have hroot : hasPhysicalRoot (c :: g) = false := hc
    have hroot' : hasPhysicalRoot (c :: g ++ ['\\']) = false := hc
    have hcur : includeCurDir (c :: g ++ ['\\']) = includeCurDir (c :: g) := by
      cases g <;> simp [includeCurDir, isSep]
    rw [startDir, startDir, hroot, hroot', hcur]
    simp only [Bool.false_eq_true, if_false]
    rw [body_sep, body_nil, List.append_nil]

theorem components_join_none (hs : parsePrefix s = none) (hne : s ≠ [])
    (hj : parsePrefix (trimSep s ++ '\\' :: x) = none) (hx : IsName x) :
    components (trimSep s ++ '\\' :: x) = components s ++ [.normal x] := by
  rw [components_none hj, components_none hs, hx.unbroken.slashed_join]
  rcases trimSep_cases hne with ⟨c, hc, heq⟩ | ⟨u, c, hc, heq, htrim⟩
  · have hslash : slashed s = slashed (trimSep s) ++ ['\\'] := by
      conv_lhs => rw [heq]
      rcases isSep_iff.mp hc with rfl | rfl <;> simp
    rw [hslash]
    cases slashed (trimSep s) with
    | nil =>
      simp [parts_none, startDir, hasPhysicalRoot, isSep, hx.body]
    | cons d g => rw [parts_none_join d g hx, parts_none_sep d g]
  · rw [htrim]
    cases hg : slashed s with
    | nil => rw [heq] at hg; simp at hg
    | cons d g => exact parts_none_join d g hx

theorem hasRoot_join_none (hs : parsePrefix s = none) (hne : s ≠ [])
    (hj : parsePrefix (trimSep s ++ '\\' :: x) = none) :
    hasRoot (trimSep s ++ '\\' :: x) = hasRoot s := by
  rw [hasRoot_none hj, hasRoot_none hs]
  rcases trimSep_cases hne with ⟨c, hc, heq⟩ | ⟨u, c, hc, heq, htrim⟩
  · cases ht : trimSep s with
    | nil =>
      rw [ht] at heq
      rw [heq]
      exact hc.symm
    | cons d g =>
      rw [ht] at heq
      rw [heq]
      rfl
  · rw [htrim]
    cases s with
    | nil => exact absurd rfl hne
    | cons d g => rfl

end

end WinPath
