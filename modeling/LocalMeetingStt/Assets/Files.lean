import LocalMeetingStt.Captions.Text
import LocalMeetingStt.Lib.LittleEndian
import LocalMeetingStt.Lib.Script
import Mathlib.Data.List.AList

/-!
# The data folder

What the asset downloads do to the data folder is a `Script` over it, one action for each
call to the operating system: a kill falls between two of them. The folder is a finite
map from paths to files and folders, so that `iterdir` can be answered.

`SameUnder roots` relates two folders that agree at and below some paths. Each action
comes with the paths it can touch and the paths it depends on, in the form the library
asks for.
-/

namespace LocalMeetingStt
namespace Assets

open LittleEndian

/-- From the data root. -/
abbrev Path := List Text

/-- What is at a path. -/
inductive Node where
  | file (bytes : Bytes)
  | folder
deriving DecidableEq, Repr

/-- The data folder: what is at each path of it. -/
abbrev Folder := AList fun _ : Path => Node

namespace Folder

/-- `path.read_bytes()`, of a file. -/
def fileAt (f : Folder) (p : Path) : Option Bytes :=
  match f.lookup p with
  | some (.file bytes) => some bytes
  | _ => none

/-- `mkdir(parents=True, exist_ok=True)` -/
def mkdir (f : Folder) (p : Path) : Folder :=
  p.inits.foldl (fun f q => if q ∈ f then f else f.insert q .folder) f

/-- `any(path.iterdir())` -/
def anyIn (f : Folder) (p : Path) : Bool :=
  f.keys.any fun q => decide (q ≠ [] ∧ q.dropLast = p)

/-- `shutil.rmtree(path)` -/
def rmtree (f : Folder) (p : Path) : Folder :=
  (f.keys.filter (p <+: ·)).foldl (fun f q => f.erase q) f

/-- `path.replace(target)` -/
def move (f : Folder) (p target : Path) : Folder :=
  match f.lookup p with
  | some node => (f.erase p).insert target node
  | none => f

theorem fileAt_eq_some {f : Folder} {p : Path} {bytes : Bytes} :
    f.fileAt p = some bytes ↔ f.lookup p = some (.file bytes) := by
  unfold fileAt
  split
  · next h => rw [h, Option.some.injEq, Option.some.injEq, Node.file.injEq]
  · next h =>
    constructor
    · intro h'
      cases h'
    · exact fun h' => absurd h' (h bytes)

theorem lookup_insert (f : Folder) (p q : Path) (node : Node) :
    (f.insert p node).lookup q = if q = p then some node else f.lookup q := by
  split_ifs with heq
  · rw [heq, AList.lookup_insert]
  · exact AList.lookup_insert_ne heq

theorem lookup_erase (f : Folder) (p q : Path) :
    (f.erase p).lookup q = if q = p then none else f.lookup q := by
  split_ifs with heq
  · rw [heq, AList.lookup_erase]
  · exact AList.lookup_erase_ne heq

theorem lookup_mkdir (f : Folder) (p q : Path) :
    (f.mkdir p).lookup q = if q <+: p then some ((f.lookup q).getD .folder) else f.lookup q := by
  have hfold : ∀ (l : List Path) (f : Folder),
      (l.foldl (fun f q => if q ∈ f then f else f.insert q .folder) f).lookup q =
        if q ∈ l then some ((f.lookup q).getD .folder) else f.lookup q := by
    intro l
    induction l with
    | nil => intro f; rfl
    | cons a l ih =>
      intro f
      rw [List.foldl_cons, ih]
      have hstep : (if a ∈ f then f else f.insert a .folder).lookup q =
          if q = a then some ((f.lookup q).getD .folder) else f.lookup q := by
        by_cases hin : a ∈ f
        · rw [if_pos hin]
          split_ifs with heq
          · subst heq
            obtain ⟨node, hnode⟩ := Option.isSome_iff_exists.mp (AList.lookup_isSome.mpr hin)
            rw [hnode, Option.getD_some]
          · rfl
        · rw [if_neg hin, lookup_insert]
          split_ifs with heq
          · rw [heq, AList.lookup_eq_none.mpr hin, Option.getD_none]
          · rfl
      rw [hstep]
      by_cases heq : q = a <;> by_cases hl : q ∈ l <;> simp [heq, hl]
  rw [mkdir, hfold]
  simp only [List.mem_inits]

theorem lookup_rmtree (f : Folder) (p q : Path) :
    (f.rmtree p).lookup q = if p <+: q then none else f.lookup q := by
  have hfold : ∀ (l : List Path) (f : Folder),
      (l.foldl (fun f q => f.erase q) f).lookup q = if q ∈ l then none else f.lookup q := by
    intro l
    induction l with
    | nil => intro f; rfl
    | cons a l ih =>
      intro f
      rw [List.foldl_cons, ih, lookup_erase]
      by_cases heq : q = a <;> by_cases hl : q ∈ l <;> simp [heq, hl]
  rw [rmtree, hfold]
  by_cases hpre : p <+: q
  · rw [if_pos hpre]
    split_ifs with hmem
    · rfl
    · refine AList.lookup_eq_none.mpr fun hin => hmem ?_
      exact List.mem_filter.mpr ⟨AList.mem_keys.mp hin, decide_eq_true hpre⟩
  · rw [if_neg hpre, if_neg]
    intro hmem
    exact hpre (of_decide_eq_true (List.mem_filter.mp hmem).2)

theorem anyIn_iff {f : Folder} {p : Path} :
    f.anyIn p = true ↔ ∃ name, (f.lookup (p ++ [name])).isSome = true := by
  unfold anyIn
  rw [List.any_eq_true]
  constructor
  · rintro ⟨q, hq, hparent⟩
    obtain ⟨hne, rfl⟩ := of_decide_eq_true hparent
    refine ⟨q.getLast hne, ?_⟩
    rw [List.dropLast_append_getLast]
    exact AList.lookup_isSome.mpr (AList.mem_keys.mpr hq)
  · rintro ⟨name, hname⟩
    refine ⟨p ++ [name], AList.mem_keys.mp (AList.lookup_isSome.mp hname), ?_⟩
    exact decide_eq_true ⟨by simp, by simp⟩

end Folder

/-! ## The calls -/

/-- A program over the data folder, which raises a text. -/
abbrev Download (α : Type) := Script Folder Text α

/-- `path.exists()` -/
def pathExists (p : Path) : Download Bool := .get fun f => (f.lookup p).isSome

/-- `path.is_dir()` -/
def isDir (p : Path) : Download Bool := .get fun f => decide (f.lookup p = some .folder)

/-- `stat().st_size` -/
def fileSize (p : Path) : Download Nat := .get fun f => ((f.fileAt p).getD []).length

/-- `open("rb").read()` -/
def readFile (p : Path) : Download Bytes := .get fun f => (f.fileAt p).getD []

/-- `any(path.iterdir())`, asked of the folder as it is then. -/
def anyIn (p : Path) : Download Bool := .get (·.anyIn p)

def mkdir (p : Path) : Download Unit := .change (·.mkdir p)

/-- A file that is there all at once, whatever was there. -/
def put (p : Path) (bytes : Bytes) : Download Unit := .change (·.insert p (.file bytes))

/-- `open("wb")` -/
def create (p : Path) : Download Unit := put p []

/-- `write` to a file open for appending -/
def append (p : Path) (chunk : Bytes) : Download Unit :=
  .change fun f => f.insert p (.file ((f.fileAt p).getD [] ++ chunk))

/-- `path.unlink()` -/
def unlink (p : Path) : Download Unit := .change (·.erase p)

def rmtree (p : Path) : Download Unit := .change (·.rmtree p)

/-- `path.replace(target)`, in one action. -/
def move (p target : Path) : Download Unit := .change (·.move p target)

/-! ## What the calls depend on and what they touch -/

/-- Below one of the roots, or one of them. -/
def Under (roots : List Path) (p : Path) : Prop := ∃ root ∈ roots, root <+: p

/-- The two folders are the same at the roots and below. -/
def SameUnder (roots : List Path) (f g : Folder) : Prop :=
  ∀ p, Under roots p → f.lookup p = g.lookup p

theorem SameUnder.fileAt {roots : List Path} {f g : Folder} (h : SameUnder roots f g) {p : Path}
    (hp : Under roots p) : f.fileAt p = g.fileAt p := by
  unfold Folder.fileAt
  rw [h p hp]

/-- What a program leaves alone is the same whenever it is killed. -/
theorem sameUnder_trail {α : Type} {roots : List Path} {x : Download α}
    (hx : x.Leaves (SameUnder roots)) (f : Folder) : ∀ g ∈ x.trail f, SameUnder roots f g :=
  hx.trail_keeps (fun _ _ hstep hkept p hp => (hkept p hp).trans (hstep p hp)) fun _ _ => rfl

theorem SameUnder.insert {roots : List Path} {f g : Folder} (h : SameUnder roots f g) (p : Path)
    (node : Node) : SameUnder roots (f.insert p node) (g.insert p node) := by
  intro q hq
  rw [Folder.lookup_insert, Folder.lookup_insert, h q hq]

/-- Two lists of roots with no path below both. -/
def Apart (roots others : List Path) : Prop :=
  ∀ root ∈ roots, ∀ other ∈ others, ¬ root <+: other ∧ ¬ other <+: root

theorem Apart.not_under {roots others : List Path} (h : Apart roots others) {p : Path}
    (hp : Under others p) : ¬ Under roots p := by
  rintro ⟨root, hroot, hpre⟩
  obtain ⟨other, hother, hpre'⟩ := hp
  obtain ⟨hne, hne'⟩ := h root hroot other hother
  rcases List.prefix_or_prefix_of_prefix hpre hpre' with hle | hle
  · exact hne hle
  · exact hne' hle

section

variable {roots : List Path} {p : Path}

theorem pathExists_local (hp : Under roots p) : (pathExists p).Local (SameUnder roots) :=
  .get fun _ _ h => by rw [h p hp]

theorem fileSize_local (hp : Under roots p) : (fileSize p).Local (SameUnder roots) :=
  .get fun _ _ h => by rw [h.fileAt hp]

theorem readFile_local (hp : Under roots p) : (readFile p).Local (SameUnder roots) :=
  .get fun _ _ h => by rw [h.fileAt hp]

theorem Under.append (hp : Under roots p) (q : Path) : Under roots (p ++ q) := by
  obtain ⟨root, hroot, hpre⟩ := hp
  exact ⟨root, hroot, hpre.trans (List.prefix_append p q)⟩

theorem anyIn_local (hp : Under roots p) : (anyIn p).Local (SameUnder roots) := by
  refine .get fun f g h => Bool.eq_iff_iff.mpr ?_
  rw [Folder.anyIn_iff, Folder.anyIn_iff]
  exact exists_congr fun name => by rw [h _ (hp.append [name])]

theorem mkdir_local : (mkdir p).Local (SameUnder roots) := by
  refine .change fun f g h q hq => ?_
  rw [Folder.lookup_mkdir, Folder.lookup_mkdir, h q hq]

theorem put_local {bytes : Bytes} : (put p bytes).Local (SameUnder roots) :=
  .change fun _ _ h => h.insert p _

theorem append_local {chunk : Bytes} (hp : Under roots p) :
    (append p chunk).Local (SameUnder roots) := by
  refine .change fun f g h => ?_
  rw [h.fileAt hp]
  exact h.insert p _

theorem unlink_local : (unlink p).Local (SameUnder roots) := by
  refine .change fun f g h q hq => ?_
  rw [Folder.lookup_erase, Folder.lookup_erase, h q hq]

theorem move_local {target : Path} (hp : Under roots p) :
    (move p target).Local (SameUnder roots) := by
  refine .change fun f g h q hq => ?_
  unfold Folder.move
  rw [h p hp]
  cases g.lookup p with
  | none => exact h q hq
  | some node => rw [Folder.lookup_insert, Folder.lookup_insert, Folder.lookup_erase,
      Folder.lookup_erase, h q hq]

theorem insert_sameUnder (hp : ¬ Under roots p) (f : Folder) (node : Node) :
    SameUnder roots f (f.insert p node) := by
  intro q hq
  rw [Folder.lookup_insert, if_neg]
  rintro rfl
  exact hp hq

theorem mkdir_leaves (hp : ¬ Under roots p) : (mkdir p).Leaves (SameUnder roots) := by
  refine .change fun f q hq => ?_
  rw [Folder.lookup_mkdir, if_neg]
  intro hpre
  obtain ⟨root, hroot, hroot'⟩ := hq
  exact hp ⟨root, hroot, hroot'.trans hpre⟩

theorem put_leaves {bytes : Bytes} (hp : ¬ Under roots p) :
    (put p bytes).Leaves (SameUnder roots) :=
  .change fun f => insert_sameUnder hp f _

theorem append_leaves {chunk : Bytes} (hp : ¬ Under roots p) :
    (append p chunk).Leaves (SameUnder roots) :=
  .change fun f => insert_sameUnder hp f _

theorem erase_sameUnder (hp : ¬ Under roots p) (f : Folder) :
    SameUnder roots f (f.erase p) := by
  intro q hq
  rw [Folder.lookup_erase, if_neg]
  rintro rfl
  exact hp hq

theorem unlink_leaves (hp : ¬ Under roots p) : (unlink p).Leaves (SameUnder roots) :=
  .change fun f => erase_sameUnder hp f

theorem rmtree_leaves {others : List Path} (hapart : Apart roots others) (hp : Under others p) :
    (rmtree p).Leaves (SameUnder roots) := by
  refine .change fun f q hq => ?_
  rw [Folder.lookup_rmtree, if_neg]
  intro hpre
  obtain ⟨rest, rfl⟩ := hpre
  exact hapart.not_under (hp.append rest) hq

theorem move_leaves {target : Path} (hp : ¬ Under roots p) (ht : ¬ Under roots target) :
    (move p target).Leaves (SameUnder roots) := by
  refine .change fun f q hq => ?_
  unfold Folder.move
  cases f.lookup p with
  | none => rfl
  | some node => exact (erase_sameUnder hp f q hq).trans (insert_sameUnder ht _ _ q hq)

end

end Assets
end LocalMeetingStt
