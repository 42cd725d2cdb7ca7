import Mathlib.Data.List.DropRight
import Mathlib.Data.List.Basic

/-!
# Windows paths as `std::path` reads them

A path is text, and what file it names is what its **components** are: a prefix (a drive, a
share, a device or one of the verbatim `\\?\` forms), the root, and the names. Outside a
verbatim path `/` is the same as `\`, empty names and `.` are skipped; in a verbatim path
only `\` separates and nothing but the empty name is skipped.

`push` is what joins two paths. It works on the text, except for a verbatim base, whose
components it takes apart and puts together again. The lemmas here say what the components
of the joined path are, and when they are those of the two texts with a `\` between them.
-/

namespace WinPath

abbrev Path := List Char

def isSep (c : Char) : Bool := c == '\\' || c == '/'

/-- The text with `\` for every separator. -/
def slashed (t : Path) : Path := t.map fun c => if c = '/' then '\\' else c

inductive Prefix where
  /-- `\\?\name` -/
  | verbatim (name : Path)
  /-- `\\?\UNC\server\share` -/
  | verbatimUNC (server share : Path)
  /-- `\\?\C:` -/
  | verbatimDisk (drive : Char)
  /-- `\\.\name` -/
  | deviceNS (name : Path)
  /-- `\\server\share` -/
  | unc (server share : Path)
  /-- `C:` -/
  | disk (drive : Char)
deriving DecidableEq, Repr

namespace Prefix

def len : Prefix → Nat
  | verbatim x => 4 + x.length
  | verbatimUNC x y => 8 + x.length + if y = [] then 0 else 1 + y.length
  | verbatimDisk _ => 6
  | deviceNS x => 4 + x.length
  | unc x y => 2 + x.length + if y = [] then 0 else 1 + y.length
  | disk _ => 2

def isDrive : Prefix → Bool
  | disk _ => true
  | _ => false

def isVerbatim : Prefix → Bool
  | verbatim _ | verbatimUNC _ _ | verbatimDisk _ => true
  | _ => false

def hasImplicitRoot (p : Prefix) : Bool := !p.isDrive

theorem isDrive_of_isVerbatim {p : Prefix} (h : p.isVerbatim = true) : p.isDrive = false := by
  cases p with
  | disk => cases h
  | _ => rfl

end Prefix

/-! ## The prefix -/

/-- `strip_prefix`. -/
def strip (pre t : Path) : Option Path := if pre <+: t then some (t.drop pre.length) else none

/-- What every verbatim path begins with, separators as they stand. -/
def mark : Path := ['\\', '\\', '?', '\\']

def parseDrive : Path → Option Char
  | drive :: ':' :: _ => if drive.isAlpha then some drive.toUpper else none
  | _ => none

/-- A drive and nothing else before the next separator. -/
def parseDriveExact (t : Path) : Option Char :=
  if (t[2]?.map isSep).getD true then parseDrive t else none

/-- `parse_next_component`: the text before the next `\`, -/
def component (t : Path) : Path := t.takeWhile (· ≠ '\\')

/-- and the text after it. -/
def beyond (t : Path) : Path := (t.dropWhile (· ≠ '\\')).drop 1

/-- The rest after `UNC` and a separator of either kind. -/
def uncRest (t : Path) : Option Path :=
  (strip ['U', 'N', 'C', '\\'] t).or (strip ['U', 'N', 'C', '/'] t)

/-- The prefix of a verbatim path, from the text after `\\?\`. -/
def verbatimPrefix (t : Path) : Prefix :=
  match uncRest t with
  | some path => .verbatimUNC (component path) (component (beyond path))
  | none =>
    match parseDriveExact t with
    | some drive => .verbatimDisk drive
    | none => .verbatim (component t)

/-- The prefix of any other path, from the text with its separators written `\`. -/
def plainPrefix (t : Path) : Option Prefix :=
  match strip ['\\', '\\'] t with
  | some t =>
    match strip ['.', '\\'] t with
    | some t => some (.deviceNS (component t))
    | none =>
      if component t ≠ [] ∧ component (beyond t) ≠ [] then
        some (.unc (component t) (component (beyond t)))
      else none
  | none => (parseDrive t).map .disk

/-- The text as it is parsed: in a verbatim path `/` is a character like any other. -/
def seen (t : Path) : Path := if mark <+: t then t else slashed t

def parsePrefix (t : Path) : Option Prefix :=
  match strip mark t with
  | some t => some (verbatimPrefix t)
  | none => plainPrefix (slashed t)

def prefixLen (t : Path) : Nat := ((parsePrefix t).map Prefix.len).getD 0

/-! ## The components -/

inductive Component where
  | pre (p : Prefix)
  | rootDir
  | curDir
  | parentDir
  | normal (name : Path)
deriving DecidableEq, Repr

/-- `parse_single_component`. -/
def single (verbatim : Bool) (t : Path) : Option Component :=
  if t = [] then none
  else if t = ['.'] then (if verbatim then some .curDir else none)
  else if t = ['.', '.'] then some .parentDir
  else some (.normal t)

/-- The names of a text without prefix and root. -/
def body (verbatim : Bool) (t : Path) : List Component :=
  (t.splitOn '\\').filterMap (single verbatim)

def hasPhysicalRoot (rest : Path) : Bool := rest.head?.any isSep

/-- A relative path that begins with the name `.`. -/
def includeCurDir (rest : Path) : Bool :=
  rest.head? == some '.' && (rest[1]?.map isSep).getD true

/-- What stands between the prefix and the names. -/
def startDir (p : Option Prefix) (rest : Path) : List Component :=
  if hasPhysicalRoot rest then [.rootDir]
  else
    match p with
    | some p => if p.hasImplicitRoot && !p.isVerbatim then [.rootDir] else []
    | none => if includeCurDir rest then [.curDir] else []

/-- The components of a text `t` with prefix `p`. -/
def parts (p : Option Prefix) (t : Path) : List Component :=
  let rest := t.drop ((p.map Prefix.len).getD 0)
  (p.map Component.pre).toList ++ startDir p rest ++
    body (p.any Prefix.isVerbatim) (if hasPhysicalRoot rest then rest.drop 1 else rest)

def components (t : Path) : List Component := parts (parsePrefix t) (seen t)

/-- What follows the prefix. -/
def afterPrefix (t : Path) : Path := (seen t).drop (prefixLen t)

def hasRoot (t : Path) : Bool :=
  hasPhysicalRoot (afterPrefix t) || (parsePrefix t).any Prefix.hasImplicitRoot

def isAbsolute (t : Path) : Bool := hasRoot t && (parsePrefix t).isSome

/-- The two paths name the same file, whatever folder they are read in. -/
def SameFile (a b : Path) : Prop := components a = components b

instance (a b : Path) : Decidable (SameFile a b) := inferInstanceAs (Decidable (_ = _))

/-! ## Joining -/

/-- `Component::as_os_str`, the prefix as it stands in the text it was parsed from. -/
def Component.asOsStr (raw : Path) : Component → Path
  | .pre _ => raw
  | .rootDir => ['\\']
  | .curDir => ['.']
  | .parentDir => ['.', '.']
  | .normal name => name

/-- One component of a path joined to a verbatim one: `.` and `..` are worked out. -/
def addVerbatim (buf : List Component) : Component → List Component
  | .rootDir => buf.take 1 ++ [.rootDir]
  | .curDir => buf
  | .parentDir =>
    match buf.getLast? with
    | some (.normal _) => buf.dropLast
    | _ => buf
  | c => buf ++ [c]

/-- The text of components, a `\` before one where the one before it `needsSep`. -/
def rebuild (raw : Path) : Bool → List Component → Path
  | _, [] => []
  | needSep, c :: cs =>
    (if needSep && c != .rootDir then ['\\'] else []) ++ c.asOsStr raw ++
      rebuild raw (match c with
        | .rootDir => false
        | .pre p => !p.isDrive && 0 < p.len
        | _ => true) cs

/-- A drive on its own: nothing is put between it and what is joined to it. -/
def isBareDrive (t : Path) : Bool :=
  prefixLen t == t.length && (parsePrefix t).any Prefix.isDrive

def needSep (base : Path) : Bool :=
  match base.getLast? with
  | some c => !isSep c && !isBareDrive base
  | none => false

/-- `PathBuf::push`, and so `Path::join`. -/
def push (base path : Path) : Path :=
  if isAbsolute path || (parsePrefix path).isSome then path
  else if (parsePrefix base).any Prefix.isVerbatim && path ≠ [] then
    rebuild (base.take (prefixLen base)) false
      ((components path).foldl addVerbatim (components base))
  else if hasRoot path then base.take (prefixLen base) ++ path
  else (if needSep base then base ++ ['\\'] else base) ++ path

/-! ## The file name -/

def fileName (t : Path) : Option Path :=
  match (components t).getLast? with
  | some (.normal name) => some name
  | _ => none

/-- The text before and after the last dot. -/
def rsplitDot (name : Path) : Option (Path × Path) :=
  match name.rdropWhile (· ≠ '.') with
  | [] => none
  | before => some (before.dropLast, name.rtakeWhile (· ≠ '.'))

/-- `file_stem`, of a file name. -/
def stemOf (name : Path) : Path :=
  if name = ['.', '.'] then name
  else
    match rsplitDot name with
    | none => name
    | some (before, _) => if before = [] then name else before

def fileStem (t : Path) : Option Path := (fileName t).map stemOf

def lastName (t : Path) : Path := t.rtakeWhile (· ≠ '\\')

def dropName (t : Path) : Path := (t.rdropWhile (· ≠ '\\')).dropLast

theorem length_dropName {t : Path} (h : t ≠ []) : (dropName t).length < t.length := by
  have hle := (List.rdropWhile_prefix (· ≠ '\\') (l := t)).length_le
  have hpos := List.length_pos_iff.mpr h
  rw [dropName, List.length_dropLast]
  omega

/-- `trim_right`: names that are skipped, at the end of a body. -/
def trimRight (verbatim : Bool) (t : Path) : Path :=
  if _h : t = [] then []
  else if (single verbatim (lastName t)).isNone then trimRight verbatim (dropName t)
  else t
termination_by t.length
decreasing_by exact length_dropName ‹_›

/-- `len_before_body`. -/
def lenBeforeBody (t : Path) : Nat :=
  prefixLen t + (if hasPhysicalRoot (afterPrefix t) then 1 else 0) +
    (if !hasRoot t && includeCurDir (afterPrefix t) then 1 else 0)

/-- `PathBuf::pop`, of a path that ends with a name. -/
def pop (t : Path) : Path :=
  let verbatim := (parsePrefix t).any Prefix.isVerbatim
  let text := (seen t).drop (lenBeforeBody t)
  t.take (lenBeforeBody t + (trimRight verbatim (dropName (trimRight verbatim text))).length)

/-- `Path::with_file_name`. -/
def withFileName (t name : Path) : Path := push (if (fileName t).isSome then pop t else t) name

/-! ## Texts -/

theorem strip_eq_some {pre t r : Path} : strip pre t = some r ↔ t = pre ++ r := by
  unfold strip
  split
  · rename_i h
    obtain ⟨w, rfl⟩ := h
    simp [eq_comm]
  · rename_i h
    simp only [reduceCtorEq, false_iff]
    rintro rfl
    exact h (List.prefix_append _ _)

@[simp] theorem strip_append (pre r : Path) : strip pre (pre ++ r) = some r :=
  strip_eq_some.mpr rfl

theorem strip_eq_none {pre t : Path} : strip pre t = none ↔ ¬pre <+: t := by
  simp [strip]

@[simp] theorem slashed_append (a b : Path) : slashed (a ++ b) = slashed a ++ slashed b :=
  List.map_append

@[simp] theorem length_slashed (t : Path) : (slashed t).length = t.length := List.length_map ..

@[simp] theorem slashed_nil : slashed [] = [] := rfl

@[simp] theorem slashed_cons (c : Char) (t : Path) :
    slashed (c :: t) = (if c = '/' then '\\' else c) :: slashed t := rfl

theorem slash_not_mem_slashed (t : Path) : '/' ∉ slashed t := by
  simp only [slashed, List.mem_map, not_exists, not_and]
  intro c _
  split <;> simp_all

theorem slashed_of_not_mem {t : Path} (h : '/' ∉ t) : slashed t = t := by
  induction t with
  | nil => rfl
  | cons c t ih =>
    rw [List.mem_cons, not_or] at h
    rw [slashed_cons, ih h.2, if_neg (Ne.symm h.1)]

theorem isSep_iff {c : Char} : isSep c = true ↔ c = '\\' ∨ c = '/' := by
  simp [isSep]

/-- Text without a separator. -/
def Unbroken (t : Path) : Prop := ∀ c ∈ t, isSep c = false

instance (t : Path) : Decidable (Unbroken t) :=
  decidable_of_iff (t.all (!isSep ·) = true) (by simp [Unbroken])

theorem Unbroken.not_mem {t : Path} (h : Unbroken t) : '\\' ∉ t ∧ '/' ∉ t :=
  ⟨fun hm => by simpa [isSep] using h _ hm, fun hm => by simpa [isSep] using h _ hm⟩

theorem Unbroken.slashed {t : Path} (h : Unbroken t) : slashed t = t :=
  slashed_of_not_mem h.not_mem.2

/-- The text of a path with a name after it. -/
theorem Unbroken.slashed_join {x : Path} (h : Unbroken x) (u : Path) :
    WinPath.slashed (u ++ '\\' :: x) = WinPath.slashed u ++ '\\' :: x := by
  rw [slashed_append, slashed_cons, if_neg (by decide), h.slashed]

/-! ## The next name -/

theorem ne_of_not_mem {d : Char} {x : Path} (h : d ∉ x) : ∀ c ∈ x, decide (c ≠ d) = true :=
  fun c hc => by simpa using fun he : c = d => h (he ▸ hc)

theorem component_of_not_mem {x : Path} (h : '\\' ∉ x) : component x = x :=
  List.takeWhile_eq_self_iff.mpr (ne_of_not_mem h)

theorem beyond_of_not_mem {x : Path} (h : '\\' ∉ x) : beyond x = [] := by
  have : x.dropWhile (· ≠ '\\') = [] := List.dropWhile_eq_nil_iff.mpr (ne_of_not_mem h)
  rw [beyond, this, List.drop_nil]

theorem component_sep {x : Path} (h : '\\' ∉ x) (w : Path) : component (x ++ '\\' :: w) = x := by
  rw [component, List.takeWhile_append_of_pos (ne_of_not_mem h)]
  simp

theorem beyond_sep {x : Path} (h : '\\' ∉ x) (w : Path) : beyond (x ++ '\\' :: w) = w := by
  rw [beyond, List.dropWhile_append_of_pos (ne_of_not_mem h)]
  simp

/-- Only the name `.` looks like a device. -/
theorem strip_dot {n : Path} (hn : '\\' ∉ n) (hne : n ≠ ['.']) (w : Path) :
    strip ['.', '\\'] (n ++ '\\' :: w) = none := by
  rw [strip_eq_none]
  rintro ⟨z, hz⟩
  rcases n with _ | ⟨a, _ | ⟨b, n⟩⟩
  · simp at hz
  · simp only [List.cons_append, List.nil_append, List.cons.injEq] at hz
    exact hne (by rw [← hz.1])
  · simp only [List.cons_append, List.nil_append, List.cons.injEq] at hz
    exact hn (by simp [← hz.2.1])

/-- A text is one unbroken piece, or a piece, a `\` and the rest. -/
theorem pieces (t : Path) :
    '\\' ∉ t ∨ ∃ x w, '\\' ∉ x ∧ t = x ++ '\\' :: w := by
  induction t with
  | nil => exact .inl (by simp)
  | cons c t ih =>
    rcases eq_or_ne c '\\' with rfl | hc
    · exact .inr ⟨[], t, by simp, rfl⟩
    · rcases ih with h | ⟨x, w, hx, rfl⟩
      · exact .inl (by simp [h, hc.symm])
      · exact .inr ⟨c :: x, w, by simp [hx, hc.symm], rfl⟩

/-! ## Names -/

/-- What a piece of a body can be. -/
theorem single_cases {v : Bool} {n : Path} {c : Component} (h : single v n = some c) :
    (v = true ∧ n = ['.'] ∧ c = .curDir) ∨ (n = ['.', '.'] ∧ c = .parentDir) ∨
      n ≠ [] ∧ n ≠ ['.'] ∧ n ≠ ['.', '.'] ∧ c = .normal n := by
  unfold single at h
  split_ifs at h with hnil hdot hv hdots
  · exact .inl ⟨hv, hdot, (Option.some.inj h).symm⟩
  · exact .inr (.inl ⟨hdots, (Option.some.inj h).symm⟩)
  · exact .inr (.inr ⟨hnil, hdot, hdots, (Option.some.inj h).symm⟩)

@[simp] theorem body_nil (v : Bool) : body v [] = [] := by
  simp [body, single]

theorem body_sep (v : Bool) (a b : Path) : body v (a ++ '\\' :: b) = body v a ++ body v b := by
  rw [body, List.splitOn_append_cons_self, List.filterMap_append, body, body]

theorem body_of_not_mem (v : Bool) {n : Path} (h : '\\' ∉ n) :
    body v n = (single v n).toList := by
  rw [body, List.splitOn_eq_singleton h]
  cases hs : single v n <;> simp [hs]

/-- A name a file can have: no separator in it, and neither skipped nor a step up. -/
structure IsName (n : Path) : Prop where
  unbroken : Unbroken n
  ne_nil : n ≠ []
  ne_dot : n ≠ ['.']
  ne_dots : n ≠ ['.', '.']

theorem IsName.single {n : Path} (h : IsName n) (v : Bool) : single v n = some (.normal n) := by
  simp [WinPath.single, h.ne_nil, h.ne_dot, h.ne_dots]

theorem IsName.body {n : Path} (h : IsName n) (v : Bool) : body v n = [.normal n] := by
  rw [body_of_not_mem v h.unbroken.not_mem.1, h.single]
  rfl

/-! ## What was read -/

/-- Nothing, or text after a `\`. -/
def Tail (rest : Path) : Prop := rest = [] ∨ ∃ w, rest = '\\' :: w

/-- `p` was read from the text `raw`, and `rest` follows it. -/
inductive Reads : (raw rest : Path) → Prefix → Prop where
  | verbatim {x rest : Path} (whole : '\\' ∉ x) (unc : uncRest x = none)
      (drive : parseDriveExact x = none) (tail : Tail rest)
      (alone : x = ['U', 'N', 'C'] → rest = []) : Reads (mark ++ x) rest (.verbatim x)
  | server {c : Char} {server rest : Path} (sep : isSep c = true) (whole : '\\' ∉ server)
      (tail : rest = [] ∨ ∃ w, rest = '\\' :: w ∧ Tail w) :
      Reads (mark ++ ['U', 'N', 'C', c] ++ server) rest (.verbatimUNC server [])
  | share {c : Char} {server share rest : Path} (sep : isSep c = true) (whole : '\\' ∉ server)
      (some : share ≠ []) (whole' : '\\' ∉ share) (tail : Tail rest) :
      Reads (mark ++ ['U', 'N', 'C', c] ++ server ++ '\\' :: share) rest
        (.verbatimUNC server share)
  | verbatimDisk {d : Char} {rest : Path} (letter : d.isAlpha = true)
      (tail : rest = [] ∨ ∃ c w, rest = c :: w ∧ isSep c = true) :
      Reads (mark ++ [d, ':']) rest (.verbatimDisk d.toUpper)
  | device {x rest : Path} (whole : '\\' ∉ x) (tail : Tail rest) :
      Reads (['\\', '\\', '.', '\\'] ++ x) rest (.deviceNS x)
  | unc {server share rest : Path} (host : server ≠ []) (whole : '\\' ∉ server)
      (dot : server ≠ ['.']) (some : share ≠ []) (whole' : '\\' ∉ share) (tail : Tail rest) :
      Reads (['\\', '\\'] ++ server ++ '\\' :: share) rest (.unc server share)
  | disk {d : Char} {rest : Path} (letter : d.isAlpha = true) :
      Reads [d, ':'] rest (.disk d.toUpper)

theorem Reads.length {raw rest : Path} {p : Prefix} (h : Reads raw rest p) :
    p.len = raw.length := by
  cases h <;> simp_all [Prefix.len, mark] <;> omega

theorem parseDrive_eq_some {t : Path} {drive : Char} (h : parseDrive t = some drive) :
    ∃ d rest, t = d :: ':' :: rest ∧ d.isAlpha = true ∧ drive = d.toUpper := by
  unfold parseDrive at h
  split at h
  · rename_i d rest
    rw [Option.ite_none_right_eq_some] at h
    exact ⟨d, rest, rfl, h.1, (Option.some.inj h.2).symm⟩
  · cases h

theorem parseDrive_cons {d : Char} (h : d.isAlpha = true) (rest : Path) :
    parseDrive (d :: ':' :: rest) = some d.toUpper := if_pos h

theorem parseDrive_eq_none {t : Path} (h : ∀ d rest, t = d :: ':' :: rest → d.isAlpha = false) :
    parseDrive t = none := by
  unfold parseDrive
  split
  · rename_i d rest
    simp [h d rest rfl]
  · rfl

/-- Only the first two characters say whether there is a drive. -/
theorem parseDrive_two (a b : Char) (x y : Path) :
    parseDrive (a :: b :: x) = parseDrive (a :: b :: y) := by
  rcases eq_or_ne b ':' with rfl | hb
  · rfl
  · rw [parseDrive_eq_none, parseDrive_eq_none] <;>
    · intro d rest he
      simp only [List.cons.injEq] at he
      exact absurd he.2.1 hb

theorem parseDriveExact_sep {x : Path} (h : '\\' ∉ x) (w : Path) :
    parseDriveExact (x ++ '\\' :: w) = parseDriveExact x := by
  rcases x with _ | ⟨a, _ | ⟨b, _ | ⟨c, x⟩⟩⟩
  · have hn : parseDrive ('\\' :: w) = none := parseDrive_eq_none fun d rest he => by
      obtain ⟨rfl, -⟩ := List.cons.inj he
      decide
    simp [parseDriveExact, hn]
    rfl
  · have hn : parseDrive (a :: '\\' :: w) = none :=
      parseDrive_eq_none fun d rest he => by simp at he
    simp [parseDriveExact, hn]
    rfl
  · simpa [parseDriveExact, isSep] using parseDrive_two a b ('\\' :: w) []
  · simp only [parseDriveExact, List.cons_append, List.getElem?_cons_succ,
      List.getElem?_cons_zero]
    rw [parseDrive_two]

theorem uncRest_sep {x : Path} (h : '\\' ∉ x) (w : Path) :
    uncRest (x ++ '\\' :: w) =
      if x = ['U', 'N', 'C'] then some w else (uncRest x).map (· ++ '\\' :: w) := by
  rcases x with _ | ⟨a, _ | ⟨b, _ | ⟨c, _ | ⟨d, x⟩⟩⟩⟩
  · simp [uncRest, strip]
  · simp [uncRest, strip]
  · simp [uncRest, strip]
  · simp [uncRest, strip]
    split <;> simp_all [eq_comm]
  · have hd : d ≠ '\\' := by rintro rfl; simp at h
    simp [uncRest, strip, hd.symm]

theorem uncRest_eq_some {t path : Path} :
    uncRest t = some path ↔ ∃ c, isSep c = true ∧ t = ['U', 'N', 'C', c] ++ path := by
  constructor
  · intro h
    rcases Option.or_eq_some_iff.mp h with h | ⟨-, h⟩
    · exact ⟨'\\', rfl, strip_eq_some.mp h⟩
    · exact ⟨'/', rfl, strip_eq_some.mp h⟩
  · rintro ⟨c, hc, rfl⟩
    rcases isSep_iff.mp hc with rfl | rfl <;> simp [uncRest, strip]

/-- What the prefix of a verbatim path can be. -/
theorem verbatimPrefix_reads (t : Path) :
    ∃ raw rest, mark ++ t = raw ++ rest ∧ Reads raw rest (verbatimPrefix t) := by
  unfold verbatimPrefix
  split
  · rename_i path hu
    obtain ⟨c, hc, rfl⟩ := uncRest_eq_some.mp hu
    rcases pieces path with h | ⟨server, w, hserver, rfl⟩
    · rw [component_of_not_mem h, beyond_of_not_mem h]
      exact ⟨_, [], by simp, .server hc h (.inl rfl)⟩
    rw [component_sep hserver, beyond_sep hserver]
    rcases pieces w with h | ⟨share, rest, hshare, rfl⟩
    · rw [component_of_not_mem h]
      by_cases hw : w = []
      · subst hw
        exact ⟨_, ['\\'], by simp, .server hc hserver (.inr ⟨[], rfl, .inl rfl⟩)⟩
      · exact ⟨_, [], by simp, .share hc hserver hw h (.inl rfl)⟩
    · rw [component_sep hshare]
      by_cases hs : share = []
      · subst hs
        exact ⟨_, '\\' :: '\\' :: rest, by simp,
          .server hc hserver (.inr ⟨'\\' :: rest, rfl, .inr ⟨rest, rfl⟩⟩)⟩
      · exact ⟨_, '\\' :: rest, by simp, .share hc hserver hs hshare (.inr ⟨rest, rfl⟩)⟩
  · rename_i hu
    split
    · rename_i drive hd
      unfold parseDriveExact at hd
      split at hd
      · rename_i hsep
        obtain ⟨d, rest, rfl, hletter, rfl⟩ := parseDrive_eq_some hd
        refine ⟨_, rest, by simp, .verbatimDisk hletter ?_⟩
        cases rest with
        | nil => exact .inl rfl
        | cons c w => exact .inr ⟨c, w, rfl, by simpa using hsep⟩
      · cases hd
    · rename_i hd
      rcases pieces t with h | ⟨x, w, hx, rfl⟩
      · rw [component_of_not_mem h]
        exact ⟨_, [], by simp, .verbatim h hu hd (.inl rfl) fun _ => rfl⟩
      · rw [component_sep hx]
        rw [uncRest_sep hx] at hu
        rw [parseDriveExact_sep hx] at hd
        split at hu
        · cases hu
        · rename_i hne
          exact ⟨_, '\\' :: w, by simp,
            .verbatim hx (Option.map_eq_none_iff.mp hu) hd (.inr ⟨w, rfl⟩) fun he => absurd he hne⟩

/-- What the prefix of any other path can be. -/
theorem plainPrefix_reads {t : Path} {p : Prefix} (h : plainPrefix t = some p) :
    ∃ raw rest, t = raw ++ rest ∧ Reads raw rest p := by
  unfold plainPrefix at h
  split at h
  · rename_i t' hs
    obtain rfl := strip_eq_some.mp hs
    split at h
    · rename_i t hd
      obtain rfl := strip_eq_some.mp hd
      obtain rfl := Option.some.inj h
      rcases pieces t with hx | ⟨x, w, hx, rfl⟩
      · rw [component_of_not_mem hx]
        exact ⟨_, [], by simp, .device hx (.inl rfl)⟩
      · rw [component_sep hx]
        exact ⟨_, '\\' :: w, by simp, .device hx (.inr ⟨w, rfl⟩)⟩
    · rename_i hd
      split at h
      · rename_i hne
        obtain rfl := Option.some.inj h
        rcases pieces t' with hx | ⟨server, w, hserver, rfl⟩
        · exact absurd (by rw [beyond_of_not_mem hx]; rfl) hne.2
        rw [component_sep hserver, beyond_sep hserver] at hne
        rw [component_sep hserver, beyond_sep hserver]
        have hdot : server ≠ ['.'] := by
          rintro rfl
          exact strip_eq_none.mp hd (by simp)
        rcases pieces w with hx | ⟨share, rest, hshare, rfl⟩
        · rw [component_of_not_mem hx] at hne ⊢
          exact ⟨_, [], by simp, .unc hne.1 hserver hdot hne.2 hx (.inl rfl)⟩
        · rw [component_sep hshare] at hne ⊢
          exact ⟨_, '\\' :: rest, by simp,
            .unc hne.1 hserver hdot hne.2 hshare (.inr ⟨rest, rfl⟩)⟩
      · cases h
  · obtain ⟨drive, hd, rfl⟩ := Option.map_eq_some_iff.mp h
    obtain ⟨d, rest, rfl, hletter, rfl⟩ := parseDrive_eq_some hd
    exact ⟨[d, ':'], rest, rfl, .disk hletter⟩

theorem parsePrefix_reads {t : Path} {p : Prefix} (h : parsePrefix t = some p) :
    ∃ raw rest, seen t = raw ++ rest ∧ Reads raw rest p := by
  unfold parsePrefix at h
  split at h
  · rename_i r hs
    obtain rfl := strip_eq_some.mp hs
    obtain rfl := Option.some.inj h
    rw [seen, if_pos (List.prefix_append _ _)]
    exact verbatimPrefix_reads r
  · rename_i hs
    rw [seen, if_neg (strip_eq_none.mp hs)]
    exact plainPrefix_reads h

/-- The other way: a text so composed is parsed so. -/
theorem Reads.verbatimPrefix {raw rest : Path} {p : Prefix} (h : Reads raw rest p)
    (hv : p.isVerbatim = true) : ∃ x, raw = mark ++ x ∧ verbatimPrefix (x ++ rest) = p := by
  cases h with
  | @verbatim x _ whole unc drive tail alone =>
    refine ⟨_, rfl, ?_⟩
    rcases tail with rfl | ⟨w, rfl⟩
    · rw [List.append_nil, WinPath.verbatimPrefix, unc, drive]
      simp only [component_of_not_mem whole]
    · have hne : x ≠ ['U', 'N', 'C'] := fun he => by cases alone he
      rw [WinPath.verbatimPrefix, uncRest_sep whole, if_neg hne, unc, parseDriveExact_sep whole,
        drive]
      simp only [Option.map_none, component_sep whole]
  | @server c server _ sep whole tail =>
    refine ⟨_, by rw [List.append_assoc], ?_⟩
    rw [WinPath.verbatimPrefix, List.append_assoc, uncRest_eq_some.mpr ⟨c, sep, rfl⟩]
    rcases tail with rfl | ⟨w, rfl, hw⟩
    · simp only [List.append_nil, component_of_not_mem whole, beyond_of_not_mem whole]
      rfl
    · simp only [component_sep whole, beyond_sep whole]
      rcases hw with rfl | ⟨z, rfl⟩ <;> rfl
  | @share c server share _ sep whole some whole' tail =>
    refine ⟨['U', 'N', 'C', c] ++ (server ++ '\\' :: share), by simp, ?_⟩
    rw [WinPath.verbatimPrefix, List.append_assoc, uncRest_eq_some.mpr ⟨c, sep, rfl⟩]
    simp only [List.append_assoc, List.cons_append, component_sep whole, beyond_sep whole]
    rcases tail with rfl | ⟨w, rfl⟩
    · rw [List.append_nil, component_of_not_mem whole']
    · rw [component_sep whole']
  | @verbatimDisk d _ letter tail =>
    refine ⟨_, rfl, ?_⟩
    have hu : uncRest ([d, ':'] ++ rest) = none := by
      simp [uncRest, strip]
    have hd : parseDriveExact ([d, ':'] ++ rest) = some d.toUpper := by
      have hsep : (([d, ':'] ++ rest)[2]?.map isSep).getD true = true := by
        rcases tail with rfl | ⟨c, w, rfl, hc⟩
        · rfl
        · simpa using hc
      rw [parseDriveExact, if_pos hsep]
      exact parseDrive_cons letter rest
    rw [WinPath.verbatimPrefix, hu, hd]
  | device | unc | disk => cases hv

theorem Reads.plainPrefix {raw rest : Path} {p : Prefix} (h : Reads raw rest p)
    (hv : p.isVerbatim = false) : plainPrefix (raw ++ rest) = some p := by
  cases h with
  | @device x _ whole tail =>
    have hs : ['\\', '\\', '.', '\\'] ++ x ++ rest =
        ['\\', '\\'] ++ (['.', '\\'] ++ (x ++ rest)) := by simp
    rw [WinPath.plainPrefix, hs, strip_append]
    simp only [strip_append]
    rcases tail with rfl | ⟨w, rfl⟩
    · rw [List.append_nil, component_of_not_mem whole]
    · rw [component_sep whole]
  | @unc server share _ host whole dot some whole' tail =>
    have hs : ['\\', '\\'] ++ server ++ '\\' :: share ++ rest =
        ['\\', '\\'] ++ (server ++ '\\' :: (share ++ rest)) := by simp
    have hc : component (share ++ rest) = share := by
      rcases tail with rfl | ⟨w, rfl⟩
      · rw [List.append_nil, component_of_not_mem whole']
      · rw [component_sep whole']
    rw [WinPath.plainPrefix, hs, strip_append]
    simp only [strip_dot whole dot, component_sep whole, beyond_sep whole, hc,
      if_pos (And.intro host some)]
  | @disk d _ letter =>
    have hs : strip ['\\', '\\'] ([d, ':'] ++ rest) = none := by simp [strip]
    rw [WinPath.plainPrefix, hs]
    exact congrArg (Option.map _) (parseDrive_cons letter rest)
  | verbatim | server | share | verbatimDisk => cases hv

end WinPath
